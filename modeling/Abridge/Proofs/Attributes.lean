import Abridge.Derive.Attribute
import Abridge.Proofs.Outcome

/-!
What a field's own attributes say once they have been read. A reading without faults has read every
entry of every attribute, each under a known key of its own, so what one entry sets no other entry
changes.
-/
namespace Abridge.Derive

/-! ### Entries -/

/-- The entries of an attribute of that path; none if its list cannot be read. -/
def Attribute.entriesAt (path : String) (a : Attribute) : List Entry :=
  match a.arguments with
  | .items is =>
    if a.path = path then
      match entriesOfItems is with
      | .ok es => es
      | .error _ => []
    else []
  | _ => []

/-- Bare, or with a list of items that can be read. -/
def Attribute.Legible (a : Attribute) : Prop :=
  a.arguments = .nothing ∨ ∃ is es, a.arguments = .items is ∧ entriesOfItems is = .ok es

/-- The entries of all attributes of that path, in order. -/
def entriesAt (path : String) (attributes : List Attribute) : List Entry :=
  attributes.flatMap (Attribute.entriesAt path)

/-- What the entry of a key gives, among all attributes of the program itself. -/
def ownValue {α : Type} (value : Entry → Except ItemCause α) (key : String)
    (attributes : List Attribute) : Option α :=
  (entriesAt trimPath attributes).findSome? fun e =>
    if e.key? = some key then (value e).toOption else none

/-- An entry of that key sets its flag. -/
def Asks (key : String) (attributes : List Attribute) : Prop :=
  ∃ e ∈ entriesAt trimPath attributes, e.key? = some key ∧ e.flagValue = .ok true

/-! ### Readings without faults -/

section Reader

variable {σ : Type} (r : Reader σ)

theorem Progress.faults_fail_ne_nil (p : Progress σ) (f : ItemFault) : (p.fail f).faults ≠ [] := by
  simp [Progress.fail]

/-- An entry that leaves no fault has a known key that was not used before, and has been read. -/
theorem Reader.entry_of_faults_eq_nil {p : Progress σ} {e : Entry}
    (h : (r.entry p e).faults = []) : p.faults = [] ∧ ∃ k s, e.key? = some k ∧ k ∈ r.keys ∧
      k ∉ p.seen ∧ r.read k e p.result = .ok s ∧ r.entry p e = ⟨s, k :: p.seen, []⟩ := by
  have failed : ∀ {p : Progress σ} {f}, ¬ (p.fail f).faults = [] := fun h =>
    Progress.faults_fail_ne_nil _ _ h
  rw [Reader.entry] at h ⊢
  cases hk : e.key? with
  | none =>
    rw [hk] at h
    exact absurd h failed
  | some k =>
    rw [hk] at h
    simp only at h
    split at h
    · exact absurd h failed
    · rename_i hknown
      split at h
      · exact absurd h failed
      · rename_i hseen
        split at h
        · rename_i s hs
          refine ⟨h, k, s, rfl, by simpa using hknown, by simpa using hseen, hs, ?_⟩
          dsimp only at h ⊢
          rw [if_neg hknown, if_neg hseen, hs, h]
        · exact absurd h failed

theorem Reader.faults_of_entries : ∀ {es : List Entry} {p : Progress σ},
    (es.foldl r.entry p).faults = [] → p.faults = []
  | [], _, h => h
  | _ :: _, _, h => (r.entry_of_faults_eq_nil (faults_of_entries h)).1

/-- An attribute that is legible is read entry by entry, and one of another path not at all. -/
theorem Reader.attribute_of_legible {a : Attribute} (h : a.path = trimPath → a.Legible)
    (p : Progress σ) : r.attribute p a = (a.entriesAt trimPath).foldl r.entry p := by
  rw [Reader.attribute, Attribute.entriesAt]
  by_cases hpath : a.path = trimPath
  · rcases h hpath with ha | ⟨is, es, ha, hes⟩
    · rw [if_pos hpath, ha]
      rfl
    · simp only [if_pos hpath, ha, hes]
  · rw [if_neg hpath]
    split
    · rw [if_neg hpath]
      rfl
    · rfl

theorem Reader.legible_of_faults_eq_nil {a : Attribute} {p : Progress σ}
    (h : (r.attribute p a).faults = []) (hpath : a.path = trimPath) : a.Legible := by
  rw [Reader.attribute, if_pos hpath] at h
  cases ha : a.arguments with
  | nothing => exact Or.inl ha
  | equals v =>
    rw [ha] at h
    exact absurd h (Progress.faults_fail_ne_nil _ _)
  | items is =>
    rw [ha] at h
    cases hes : entriesOfItems is with
    | ok es => exact Or.inr ⟨is, es, ha, hes⟩
    | error f =>
      simp only [hes] at h
      exact absurd h (Progress.faults_fail_ne_nil _ _)

/-- An attribute that leaves no fault is read entry by entry. -/
theorem Reader.attribute_of_faults_eq_nil {p : Progress σ} {a : Attribute}
    (h : (r.attribute p a).faults = []) :
    r.attribute p a = (a.entriesAt trimPath).foldl r.entry p :=
  r.attribute_of_legible (r.legible_of_faults_eq_nil h) p

theorem Reader.faults_of_attributes : ∀ {attributes : List Attribute} {p : Progress σ},
    (attributes.foldl r.attribute p).faults = [] → p.faults = []
  | [], _, h => h
  | a :: _, p, h => by
    have ha : (r.attribute p a).faults = [] := faults_of_attributes h
    rw [r.attribute_of_faults_eq_nil ha] at ha
    exact r.faults_of_entries ha

/-- Attributes that leave no fault are read as one list of entries. -/
theorem Reader.foldl_attribute : ∀ {attributes : List Attribute} {p : Progress σ},
    (attributes.foldl r.attribute p).faults = [] →
      attributes.foldl r.attribute p = (entriesAt trimPath attributes).foldl r.entry p
  | [], _, _ => rfl
  | a :: attributes, p, h => by
    rw [List.foldl_cons] at h ⊢
    have ha := r.attribute_of_faults_eq_nil (r.faults_of_attributes h)
    rw [foldl_attribute h, ha, entriesAt, entriesAt, List.flatMap_cons, List.foldl_append]

/-- What has been read of attributes without a fault. -/
theorem Reader.finish_eq_ok {start a : σ} {attributes : List Attribute}
    (h : (r.all start attributes).finish = .ok a) :
    ((entriesAt trimPath attributes).foldl r.entry ⟨start, [], []⟩).faults = [] ∧
      a = ((entriesAt trimPath attributes).foldl r.entry ⟨start, [], []⟩).result := by
  rw [Progress.finish] at h
  split at h
  · rename_i hfaults
    rw [List.isEmpty_iff, Reader.all] at hfaults
    rw [Reader.all] at h
    rw [← r.foldl_attribute hfaults]
    exact ⟨hfaults, (Except.ok.inj h).symm⟩
  · cases h

/-- A key that is used up is that of no later entry. -/
theorem Reader.key_ne_of_seen {k : String} : ∀ {es : List Entry} {p : Progress σ},
    (es.foldl r.entry p).faults = [] → k ∈ p.seen → ∀ e ∈ es, e.key? ≠ some k
  | e :: es, p, h, hk, e', he' => by
    rw [List.foldl_cons] at h
    obtain ⟨_, j, s, hj, _, hnew, _, he⟩ := r.entry_of_faults_eq_nil (r.faults_of_entries h)
    rcases List.mem_cons.mp he' with rfl | he'
    · rintro hkey
      exact hnew (Option.some.inj (hj.symm.trans hkey) ▸ hk)
    · refine key_ne_of_seen h ?_ e' he'
      rw [he]
      exact List.mem_cons_of_mem _ hk

section Settled

variable {P : σ → Prop} {k : String} (hkeep : ∀ j e s s', j ∈ r.keys → j ≠ k →
  r.read j e s = .ok s' → (P s' ↔ P s))
include hkeep

/-- What only the entry of one key can change stays as it is once that key is used up. -/
theorem Reader.keeps_iff : ∀ {es : List Entry} {p : Progress σ}, (es.foldl r.entry p).faults = [] →
    k ∈ p.seen → (P (es.foldl r.entry p).result ↔ P p.result)
  | [], _, _, _ => Iff.rfl
  | e :: es, p, h, hk => by
    rw [List.foldl_cons] at h ⊢
    obtain ⟨_, j, s, _, hj, hnew, hs, he⟩ := r.entry_of_faults_eq_nil (r.faults_of_entries h)
    have hjk : j ≠ k := fun hjk => hnew (hjk ▸ hk)
    have hstep : P (r.entry p e).result ↔ P p.result := by
      rw [he]
      exact hkeep j e p.result s hj hjk hs
    refine (keeps_iff h ?_).trans hstep
    rw [he]
    exact List.mem_cons_of_mem _ hk

/-- What only the entry of one key can change holds at the end exactly if that entry says so. -/
theorem Reader.settled_iff {Q : Entry → Prop}
    (hset : ∀ e s s', r.read k e s = .ok s' → (P s' ↔ Q e)) : ∀ {es : List Entry}
    {p : Progress σ}, (es.foldl r.entry p).faults = [] → ¬ P p.result →
    (P (es.foldl r.entry p).result ↔ ∃ e ∈ es, e.key? = some k ∧ Q e)
  | [], _, _, hstart => by simpa using hstart
  | e :: es, p, h, hstart => by
    rw [List.foldl_cons] at h ⊢
    obtain ⟨_, j, s, hkey, hj, _, hs, he⟩ := r.entry_of_faults_eq_nil (r.faults_of_entries h)
    by_cases hjk : j = k
    · rw [hjk] at hkey hs
      have hseen : k ∈ (r.entry p e).seen := by
        rw [he, hjk]
        exact List.mem_cons_self
      have hlater : ¬ ∃ e' ∈ es, e'.key? = some k ∧ Q e' := by
        rintro ⟨e', he', hkey', _⟩
        exact r.key_ne_of_seen h hseen e' he' hkey'
      have hnow : P (r.entry p e).result ↔ Q e := by
        rw [he]
        exact hset e p.result s hs
      rw [r.keeps_iff hkeep h hseen, hnow]
      simp [hkey, hlater]
    · have hstep : ¬ P (r.entry p e).result := by
        rw [he, hkeep j e p.result s hj hjk hs]
        exact hstart
      rw [settled_iff hset h hstep]
      simp [hkey, hjk]

end Settled

/-- What only the entry of one key gives is in the end what that entry gave. -/
theorem Reader.settled_eq {α : Type} {k : String} (get : σ → Option α)
    {value : Entry → Except ItemCause α}
    (hkeep : ∀ j e s s', j ∈ r.keys → j ≠ k → r.read j e s = .ok s' → get s' = get s)
    (hset : ∀ e s s', r.read k e s = .ok s' → ∃ a, value e = .ok a ∧ get s' = some a) :
    ∀ {es : List Entry} {p : Progress σ}, (es.foldl r.entry p).faults = [] → get p.result = none →
      get (es.foldl r.entry p).result =
        es.findSome? fun e => if e.key? = some k then (value e).toOption else none
  | [], _, _, hstart => hstart
  | e :: es, p, h, hstart => by
    rw [List.foldl_cons] at h ⊢
    obtain ⟨_, j, s, hkey, hj, _, hs, he⟩ := r.entry_of_faults_eq_nil (r.faults_of_entries h)
    rw [List.findSome?_cons, hkey]
    by_cases hjk : j = k
    · rw [hjk] at hs
      obtain ⟨a, ha, hget⟩ := hset e p.result s hs
      have hseen : k ∈ (r.entry p e).seen := by
        rw [he, hjk]
        exact List.mem_cons_self
      have hnow : get (r.entry p e).result = some a := by
        rw [he]
        exact hget
      have hlater : get (es.foldl r.entry (r.entry p e)).result = some a :=
        (r.keeps_iff (P := (get · = some a))
          (fun j e s s' hj hne hs => by rw [hkeep j e s s' hj hne hs]) h hseen).mpr hnow
      rw [hlater, if_pos (congrArg some hjk), ha]
      rfl
    · have hstep : get (r.entry p e).result = none := by
        rw [he]
        exact (hkeep j e p.result s hj hjk hs).trans hstart
      rw [settled_eq get hkeep hset h hstep, if_neg fun hsome => hjk (Option.some.inj hsome)]

end Reader

/-! ### Attributes of fields -/

namespace FieldAttributes

theorem read_eq_ok {attributes : List Attribute} {a : FieldAttributes}
    (h : read attributes = .ok a) :
    ((entriesAt trimPath attributes).foldl reader.entry ⟨⟨none, false, none⟩, [], []⟩).faults = [] ∧
    a = ((entriesAt trimPath attributes).foldl reader.entry ⟨⟨none, false, none⟩, [], []⟩).result :=
  reader.finish_eq_ok h

/-- What reading an entry of a known key changes. -/
theorem reader_read_eq_ok {k : String} {e : Entry} {s s' : FieldAttributes}
    (hk : k ∈ reader.keys) (h : reader.read k e s = .ok s') :
    (k = "rename" ∧ ∃ t, e.textValue = .ok t ∧ s' = { s with rename := some t }) ∨
    (k = "skip" ∧ ∃ b, e.flagValue = .ok b ∧ s' = { s with skip := b }) ∨
    (k = "tag" ∧ ∃ t, e.textValue = .ok t ∧ s' = { s with tag := some t }) := by
  have hkeys : k = "rename" ∨ k = "skip" ∨ k = "tag" := by simpa [reader] using hk
  rcases hkeys with rfl | rfl | rfl
  · obtain ⟨t, ht, h⟩ := bind_eq_ok h
    exact Or.inl ⟨rfl, t, ht, (Except.ok.inj h).symm⟩
  · obtain ⟨b, hb, h⟩ := bind_eq_ok h
    exact Or.inr (Or.inl ⟨rfl, b, hb, (Except.ok.inj h).symm⟩)
  · obtain ⟨t, ht, h⟩ := bind_eq_ok h
    exact Or.inr (Or.inr ⟨rfl, t, ht, (Except.ok.inj h).symm⟩)

/-- A field is skipped exactly if its entry says so. -/
theorem skip_iff {attributes : List Attribute} {a : FieldAttributes}
    (h : read attributes = .ok a) : a.skip = true ↔
      ∃ e ∈ entriesAt trimPath attributes, e.key? = some "skip" ∧ e.flagValue = .ok true := by
  obtain ⟨hfaults, rfl⟩ := read_eq_ok h
  refine reader.settled_iff (P := (·.skip = true)) (fun j e s s' hj hne hs => ?_)
    (fun e s s' hs => ?_) hfaults Bool.false_ne_true
  · rcases reader_read_eq_ok hj hs with ⟨_, t, _, rfl⟩ | ⟨h, _⟩ | ⟨_, t, _, rfl⟩
    · exact Iff.rfl
    · exact absurd h hne
    · exact Iff.rfl
  · rcases reader_read_eq_ok (by decide) hs with ⟨h, _⟩ | ⟨_, b, hb, rfl⟩ | ⟨h, _⟩
    · exact absurd h (by decide)
    · rw [hb, Except.ok.injEq]
    · exact absurd h (by decide)

/-- The tag of a field is the one that its entry gives. -/
theorem tag_iff {attributes : List Attribute} {a : FieldAttributes}
    (h : read attributes = .ok a) {t : String} : a.tag = some t ↔
      ∃ e ∈ entriesAt trimPath attributes, e.key? = some "tag" ∧ e.textValue = .ok t := by
  obtain ⟨hfaults, rfl⟩ := read_eq_ok h
  refine reader.settled_iff (P := (·.tag = some t)) (fun j e s s' hj hne hs => ?_)
    (fun e s s' hs => ?_) hfaults (Option.some_ne_none t).symm
  · rcases reader_read_eq_ok hj hs with ⟨_, u, _, rfl⟩ | ⟨_, b, _, rfl⟩ | ⟨h, _⟩
    · exact Iff.rfl
    · exact Iff.rfl
    · exact absurd h hne
  · rcases reader_read_eq_ok (by decide) hs with ⟨h, _⟩ | ⟨h, _⟩ | ⟨_, u, hu, rfl⟩
    · exact absurd h (by decide)
    · exact absurd h (by decide)
    · rw [hu, Except.ok.injEq, Option.some_inj]

theorem rename_eq {attributes : List Attribute} {a : FieldAttributes}
    (h : read attributes = .ok a) : a.rename = ownValue Entry.textValue "rename" attributes := by
  obtain ⟨hfaults, rfl⟩ := read_eq_ok h
  refine reader.settled_eq rename (fun j e s s' hj hne hs => ?_) (fun e s s' hs => ?_)
    hfaults rfl
  · rcases reader_read_eq_ok hj hs with ⟨h, _⟩ | ⟨_, b, _, rfl⟩ | ⟨_, u, _, rfl⟩
    · exact absurd h hne
    · rfl
    · rfl
  · rcases reader_read_eq_ok (by decide) hs with ⟨_, u, hu, rfl⟩ | ⟨h, _⟩ | ⟨h, _⟩
    · exact ⟨u, hu, rfl⟩
    · exact absurd h (by decide)
    · exact absurd h (by decide)

theorem tag_eq {attributes : List Attribute} {a : FieldAttributes}
    (h : read attributes = .ok a) : a.tag = ownValue Entry.textValue "tag" attributes := by
  obtain ⟨hfaults, rfl⟩ := read_eq_ok h
  refine reader.settled_eq tag (fun j e s s' hj hne hs => ?_) (fun e s s' hs => ?_)
    hfaults rfl
  · rcases reader_read_eq_ok hj hs with ⟨_, u, _, rfl⟩ | ⟨_, b, _, rfl⟩ | ⟨h, _⟩
    · rfl
    · rfl
    · exact absurd h hne
  · rcases reader_read_eq_ok (by decide) hs with ⟨h, _⟩ | ⟨h, _⟩ | ⟨_, u, hu, rfl⟩
    · exact absurd h (by decide)
    · exact absurd h (by decide)
    · exact ⟨u, hu, rfl⟩

end FieldAttributes

/-! ### Attributes of variants and types -/

theorem VariantAttributes.rename_eq {attributes : List Attribute} {a : VariantAttributes}
    (h : read attributes = .ok a) : a.rename = ownValue Entry.textValue "rename" attributes := by
  obtain ⟨hfaults, rfl⟩ := reader.finish_eq_ok h
  refine reader.settled_eq VariantAttributes.rename (fun j e s s' hj hne hs => ?_)
    (fun e s s' hs => ?_) hfaults rfl
  · exact absurd (List.mem_singleton.mp hj) hne
  · obtain ⟨t, ht, h⟩ := bind_eq_ok hs
    obtain rfl := Except.ok.inj h
    exact ⟨t, ht, rfl⟩

namespace ContainerAttributes

theorem read_eq_ok {d : Definition} {a : ContainerAttributes} (h : read d = .ok a) :
    (reader.all ⟨none, false, false⟩ d.attributes).finish = .ok a := by
  rw [read] at h
  split at h
  · rw [Progress.finish, if_neg (by simp [Progress.fail])] at h
    cases h
  · exact h

/-- What reading an entry of a known key changes. -/
theorem reader_read_eq_ok {k : String} {e : Entry} {s s' : ContainerAttributes}
    (hk : k ∈ reader.keys) (h : reader.read k e s = .ok s') :
    (k = "rename_all" ∧ ∃ r, e.ruleValue = .ok r ∧ s' = { s with renameAll := some r }) ∨
    (k = "display" ∧ ∃ b, e.flagValue = .ok b ∧ s' = { s with display := b }) ∨
    (k = "error" ∧ ∃ b, e.flagValue = .ok b ∧ s' = { s with error := b }) := by
  have hkeys : k = "rename_all" ∨ k = "display" ∨ k = "error" := by simpa [reader] using hk
  rcases hkeys with rfl | rfl | rfl
  · obtain ⟨r, hr, h⟩ := bind_eq_ok h
    exact Or.inl ⟨rfl, r, hr, (Except.ok.inj h).symm⟩
  · obtain ⟨b, hb, h⟩ := bind_eq_ok h
    exact Or.inr (Or.inl ⟨rfl, b, hb, (Except.ok.inj h).symm⟩)
  · obtain ⟨b, hb, h⟩ := bind_eq_ok h
    exact Or.inr (Or.inr ⟨rfl, b, hb, (Except.ok.inj h).symm⟩)

theorem renameAll_eq {d : Definition} {a : ContainerAttributes} (h : read d = .ok a) :
    a.renameAll = ownValue Entry.ruleValue "rename_all" d.attributes := by
  obtain ⟨hfaults, rfl⟩ := reader.finish_eq_ok (read_eq_ok h)
  refine reader.settled_eq renameAll (fun j e s s' hj hne hs => ?_) (fun e s s' hs => ?_)
    hfaults rfl
  · rcases reader_read_eq_ok hj hs with ⟨h, _⟩ | ⟨_, b, _, rfl⟩ | ⟨_, b, _, rfl⟩
    · exact absurd h hne
    · rfl
    · rfl
  · rcases reader_read_eq_ok (by decide) hs with ⟨_, r, hr, rfl⟩ | ⟨h, _⟩ | ⟨h, _⟩
    · exact ⟨r, hr, rfl⟩
    · exact absurd h (by decide)
    · exact absurd h (by decide)

/-- A type is shown by its text exactly if its entry says so. -/
theorem display_iff {d : Definition} {a : ContainerAttributes} (h : read d = .ok a) :
    a.display = true ↔ Asks "display" d.attributes := by
  obtain ⟨hfaults, rfl⟩ := reader.finish_eq_ok (read_eq_ok h)
  refine reader.settled_iff (P := (·.display = true)) (fun j e s s' hj hne hs => ?_)
    (fun e s s' hs => ?_) hfaults Bool.false_ne_true
  · rcases reader_read_eq_ok hj hs with ⟨_, r, _, rfl⟩ | ⟨h, _⟩ | ⟨_, b, _, rfl⟩
    · exact Iff.rfl
    · exact absurd h hne
    · exact Iff.rfl
  · rcases reader_read_eq_ok (by decide) hs with ⟨h, _⟩ | ⟨_, b, hb, rfl⟩ | ⟨h, _⟩
    · exact absurd h (by decide)
    · rw [hb, Except.ok.injEq]
    · exact absurd h (by decide)

/-- A type is shown as an error exactly if its entry says so. -/
theorem error_iff {d : Definition} {a : ContainerAttributes} (h : read d = .ok a) :
    a.error = true ↔ Asks "error" d.attributes := by
  obtain ⟨hfaults, rfl⟩ := reader.finish_eq_ok (read_eq_ok h)
  refine reader.settled_iff (P := (·.error = true)) (fun j e s s' hj hne hs => ?_)
    (fun e s s' hs => ?_) hfaults Bool.false_ne_true
  · rcases reader_read_eq_ok hj hs with ⟨_, r, _, rfl⟩ | ⟨_, b, _, rfl⟩ | ⟨h, _⟩
    · exact Iff.rfl
    · exact Iff.rfl
    · exact absurd h hne
  · rcases reader_read_eq_ok (by decide) hs with ⟨h, _⟩ | ⟨h, _⟩ | ⟨_, b, hb, rfl⟩
    · exact absurd h (by decide)
    · exact absurd h (by decide)
    · rw [hb, Except.ok.injEq]

end ContainerAttributes

end Abridge.Derive

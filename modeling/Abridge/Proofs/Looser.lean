import Abridge.Proofs.Hidden
import Abridge.Proofs.Level
import Abridge.Proofs.Order
import Abridge.Proofs.Room

/-!
Looser limits add and never take away. Under a policy with more depth, more items and fewer hidden
names the tree of a value tells all that it told before: every item keeps its place, and every key
its value or one that tells more. Records need one condition for this, that no two fields write one
key, for a field that is shown only under the looser policy could else replace another. And there
has to be room for all items that the looser policy keeps, or it has no tree at all.
-/
namespace Abridge

/-- `p.Tighter q`: the policy `p` keeps no more than `q`, and cuts texts alike. -/
structure Policy.Tighter (p q : Policy) : Prop where
  depth : p.depthLimit ≤ q.depthLimit
  array : p.arrayLimit ≤ q.arrayLimit
  ignores : ∀ name ∈ q.ignores, name ∈ p.ignores
  string : p.stringLimit = q.stringLimit

section Tighter

variable {p q : Policy} (hpq : p.Tighter q)
include hpq

theorem Policy.Tighter.isVisible {name : String} (h : p.isVisible name = true) :
    q.isVisible name = true := by
  simp only [Policy.isVisible, Bool.and_eq_true, Bool.not_eq_true', List.contains_eq_mem,
    decide_eq_false_iff_not] at h ⊢
  exact ⟨fun hq => h.1 (hpq.ignores name hq), h.2⟩

theorem Policy.Tighter.isVisible_eq_false {name : String} (h : q.isVisible name = false) :
    p.isVisible name = false := by
  rw [← Bool.not_eq_true] at h ⊢
  exact fun hp => h (hpq.isVisible hp)

theorem Scalar.trim_of_tighter (s : Scalar) : s.trim p = s.trim q := by
  cases s with
  | text s => rw [Scalar.trim, Scalar.trim, hpq.string]
  | _ => rfl

theorem Special.trim_of_tighter (s : Special) : s.trim p = s.trim q := by
  cases s with
  | text s => rw [Special.trim, Special.trim, hpq.string]
  | _ => rfl

end Tighter

theorem spend_mono {d e : Int} (h : d ≤ e) : spend d ≤ spend e := by
  simp only [spend]
  omega

theorem Place.dynamicDepth_mono (place : Place) {d e : Int} (h : d ≤ e) :
    place.dynamicDepth d ≤ place.dynamicDepth e := by
  rw [dynamicDepth, dynamicDepth]
  split
  · exact h
  · exact spend_mono h

/-! ### Keys of fields -/

/-- Is the value, as a field, a sequence that has its size beside it? -/
def Value.isSized : Value → Bool
  | .seq _ _ => true
  | .optional (.seq _ _) => true
  | _ => false

/-- The keys that a field may write. -/
def fieldKeys (p : Policy) (f : Descriptor × Value) : List String :=
  match f.1.emitted? with
  | none => []
  | some name =>
    if p.isVisible name then
      if f.2.isSized then [name, Seen.sizeKey name] else [name]
    else []

/-- No two fields of a record in the value may write the same key. -/
def Value.Apart (p : Policy) (v : Value) : Prop :=
  ∀ fs, Inside v (.record fs) → (fs.flatMap (fieldKeys p)).Nodup

/-- A sequence with content is seen of a sequence, or of an option that holds one. -/
theorem look_eq_list {p : Policy} {place : Place} {opened : Bool} {depth : Int} {v : Value}
    {n : Nat} {ts : List Tree} (h : look p place opened depth v = .ok (.list n ts))
    (hts : ts ≠ []) : (∃ m vs, v = .seq m vs) ∨
      ∃ u, v = .optional u ∧ opened = false ∧ look p place true depth u = .ok (.list n ts) := by
  cases v with
  | absent | unsupported | faulty | scalar | special => rw [look] at h; cases h
  | optional u =>
    rw [look] at h
    split at h
    · cases h
    · rename_i ho
      exact Or.inr ⟨u, rfl, by simpa using ho, h⟩
  | dynamic u =>
    rw [look] at h
    obtain ⟨_, _, hs⟩ := map_eq_ok h
    cases hs
  | record fs | map es =>
    rw [look] at h
    split at h
    · cases h
    · obtain ⟨_, _, hs⟩ := map_eq_ok h
      cases hs
  | seq m vs => exact Or.inl ⟨m, vs, rfl⟩
  | broken kind f =>
    cases kind with
    | seq =>
      rw [look] at h
      split at h
      · cases h
      · split at h
        · cases h
          exact absurd rfl hts
        · cases h
    | record | map =>
      rw [look] at h
      · split at h <;> cases h
      · simp

theorem isSized_of_look {p : Policy} {place : Place} {opened : Bool} {depth : Int} {v : Value}
    {n : Nat} {ts : List Tree} (h : look p place opened depth v = .ok (.list n ts))
    (hts : ts ≠ []) : v.isSized = true := by
  rcases look_eq_list h hts with ⟨m, vs, rfl⟩ | ⟨u, rfl, _, hu⟩
  · rfl
  · rcases look_eq_list hu hts with ⟨m, vs, rfl⟩ | ⟨_, _, ho, _⟩
    · rfl
    · cases ho

theorem mem_fieldKeys {p : Policy} {depth : Int} {d : Descriptor} {v : Value} {name : String}
    {s : Seen} (hd : d.emitted? = some name) (hn : p.isVisible name = true)
    (hs : look p .field false depth v = .ok s) {w : String × Tree} (hw : w ∈ s.fieldWrites name) :
    w.1 ∈ fieldKeys p (d, v) := by
  simp only [fieldKeys, hd, hn, if_true]
  rcases Seen.mem_fieldWrites hw with rfl | ⟨n, ts, rfl, hts, rfl⟩
  · split <;> exact List.mem_cons_self
  · rw [if_pos (isSized_of_look hs hts)]
    exact List.mem_cons_of_mem _ List.mem_cons_self

theorem fieldKeys_subset {p q : Policy} (hpq : p.Tighter q) {f : Descriptor × Value} {k : String}
    (h : k ∈ fieldKeys p f) : k ∈ fieldKeys q f := by
  rw [fieldKeys] at h ⊢
  cases hd : f.1.emitted? with
  | none => rw [hd] at h; exact h
  | some name =>
    rw [hd] at h
    simp only at h ⊢
    split at h
    · rw [if_pos (hpq.isVisible ‹_›)]
      exact h
    · cases h

/-! ### Containers, step by step -/

/-- A look under `p` with `d` levels left sees no more than one under `q` with `e` levels, and does
not panic if that one does not. -/
def LookLe (p q : Policy) (place : Place) (d e : Int) (v : Value) : Prop :=
  ∀ {opened r}, look q place opened e v = .ok r → ∃ s, look p place opened d v = .ok s ∧ s.Le r

section Containers

variable {p q : Policy} (hpq : p.Tighter q) {d e : Int}
include hpq

/-- One more field: what it writes belongs to it alone, so its keys are free before, and those of
the others are after it. -/
theorem fields_le : ∀ {fs : List (Descriptor × Value)},
    (∀ dsc v, (dsc, v) ∈ fs → LookLe p q .field d e v) → (fs.flatMap (fieldKeys q)).Nodup →
    ∀ {es es' out' : Entries Tree}, EntriesLe es es' →
    (∀ k ∈ fs.flatMap (fieldKeys q), Entries.find? k es = none) → fields q e es' fs = .ok out' →
    ∃ out, fields p d es fs = .ok out ∧ EntriesLe out out'
  | [], _, _, es, es', out', hle, _, h => by
    rw [fields] at h
    cases h
    exact ⟨es, by rw [fields], hle⟩
  | (dsc, v) :: rest, ih, hnd, es, es', out', hle, hfree, h => by
    rw [List.flatMap_cons] at hnd hfree
    obtain ⟨_, hnd', hapart⟩ := List.nodup_append.mp hnd
    have hrest : ∀ dsc v, (dsc, v) ∈ rest → LookLe p q .field d e v :=
      fun dsc v hm => ih dsc v (List.mem_cons_of_mem _ hm)
    have hfree' : ∀ k ∈ rest.flatMap (fieldKeys q), Entries.find? k es = none :=
      fun k hk => hfree k (List.mem_append_right _ hk)
    cases hd : dsc.emitted? with
    | none =>
      have hidden : ∀ p : Policy, p.shows dsc = false := fun p => by simp [Policy.shows, hd]
      rw [fields_cons_of_hidden (hidden q)] at h
      rw [fields_cons_of_hidden (hidden p)]
      exact fields_le hrest hnd' hle hfree' h
    | some name =>
      cases hq : q.isVisible name with
      | false =>
        have hp := hpq.isVisible_eq_false hq
        rw [fields_cons_of_hidden (by simp [Policy.shows, hd, hq])] at h
        rw [fields_cons_of_hidden (by simp [Policy.shows, hd, hp])]
        exact fields_le hrest hnd' hle hfree' h
      | true =>
        rw [fields_cons_of_shown hd hq] at h
        obtain ⟨r, hr, h⟩ := bind_eq_ok h
        have hfresh : ∀ w ∈ r.fieldWrites name, Entries.find? w.1 es = none := fun w hw =>
          hfree _ (List.mem_append_left _ (mem_fieldKeys hd hq hr hw))
        cases hp : p.isVisible name with
        | false =>
          rw [fields_cons_of_hidden (by simp [Policy.shows, hd, hp])]
          rw [Seen.asField_eq_play] at h
          exact fields_le hrest hnd' (hle.play_right hfresh) hfree' h
        | true =>
          obtain ⟨s, hs, hsr⟩ := ih dsc v List.mem_cons_self hr
          rw [fields_cons_of_shown hd hp, hs]
          refine fields_le hrest hnd' (hsr.asField hle hfresh) (fun k hk => ?_) h
          have hother : ∀ w ∈ s.fieldWrites name, w.1 ≠ k := fun w hw =>
            hapart _ (fieldKeys_subset hpq (mem_fieldKeys hd hp hs hw)) _ hk
          rw [Seen.asField_eq_play, Entries.find?_play_of_forall_ne _ hother]
          exact hfree' k hk

/-- One more entry: a key that is hidden under `p` alone is not bound under `p`. -/
theorem entries_le : ∀ {vs : List (String × Value)},
    (∀ k v, (k, v) ∈ vs → LookLe p q .entry d e v) → ∀ {es es' out' : Entries Tree},
    EntriesLe es es' → (∀ k, p.isVisible k = false → Entries.find? k es = none) →
    entries q e es' vs = .ok out' → ∃ out, entries p d es vs = .ok out ∧ EntriesLe out out'
  | [], _, es, es', out', hle, _, h => by
    rw [entries] at h
    cases h
    exact ⟨es, by rw [entries], hle⟩
  | (k, v) :: rest, ih, es, es', out', hle, hfree, h => by
    have hrest : ∀ k v, (k, v) ∈ rest → LookLe p q .entry d e v :=
      fun k v hm => ih k v (List.mem_cons_of_mem _ hm)
    cases hq : q.isVisible k with
    | false =>
      rw [entries_cons_of_hidden hq] at h
      rw [entries_cons_of_hidden (hpq.isVisible_eq_false hq)]
      exact entries_le hrest hle hfree h
    | true =>
      rw [entries_cons_of_shown hq] at h
      obtain ⟨r, hr, h⟩ := bind_eq_ok h
      cases hp : p.isVisible k with
      | false =>
        rw [entries_cons_of_hidden hp]
        refine entries_le hrest ?_ hfree h
        rw [Seen.asEntry_eq_play]
        refine hle.play_right fun w hw => ?_
        rw [Seen.mem_entryWrites hw]
        exact hfree k hp
      | true =>
        obtain ⟨s, hs, hsr⟩ := ih k v List.mem_cons_self hr
        rw [entries_cons_of_shown hp, hs]
        refine entries_le hrest (hsr.asEntry k hle) (fun j hj => ?_) h
        have hother : ∀ w ∈ s.entryWrites k, w.1 ≠ j := by
          intro w hw hwj
          rw [Seen.mem_entryWrites hw] at hwj
          rw [← hwj, hp] at hj
          cases hj
        rw [Seen.asEntry_eq_play, Entries.find?_play_of_forall_ne _ hother]
        exact hfree j hj

omit hpq in
/-- A longer window of the items. -/
theorem items_le : ∀ {vs : List Value}, (∀ v ∈ vs, LookLe p q .item d e v) → ∀ {m n : Nat},
    m ≤ n → ∀ {us : List Tree}, items q e n vs = .ok us →
      ∃ ts, items p d m vs = .ok ts ∧ ItemsLe ts us
  | _, _, 0, _, _, _, _ => ⟨[], by rw [items], .nil⟩
  | [], _, m + 1, _, _, _, _ => ⟨[], by rw [items_nil], .nil⟩
  | v :: rest, ih, m + 1, n + 1, hmn, us, h => by
    rw [items] at h
    obtain ⟨r, hr, h⟩ := bind_eq_ok h
    obtain ⟨us', hus, h⟩ := bind_eq_ok h
    cases h
    obtain ⟨s, hs, hsr⟩ := ih v List.mem_cons_self hr
    obtain ⟨ts, hts, hle⟩ := items_le (fun v hm => ih v (List.mem_cons_of_mem _ hm))
      (Nat.le_of_succ_le_succ hmn) hus
    refine ⟨s.asItem ++ ts, ?_, hsr.asItem hle⟩
    rw [items, hs, hts]
    rfl

theorem record_le {place : Place} (hde : d ≤ e) {fs : List (Descriptor × Value)}
    (hnd : (fs.flatMap (fieldKeys q)).Nodup)
    (ih : ∀ dsc v, (dsc, v) ∈ fs → LookLe p q .field (spend d) (spend e) v) :
    LookLe p q place d e (.record fs) := by
  intro opened r h
  have hs := spend_mono hde
  rw [look] at h ⊢
  split at h
  · rw [if_pos (by omega)]
    cases h
    exact ⟨_, rfl, .table (.nil _)⟩
  · obtain ⟨out', hout', rfl⟩ := map_eq_ok h
    split
    · exact ⟨_, rfl, .table (.nil _)⟩
    · obtain ⟨out, hout, hle⟩ := fields_le hpq ih hnd (.nil []) (fun _ _ => rfl) hout'
      exact ⟨_, by rw [hout]; rfl, .table hle⟩

theorem map_le {place : Place} (hde : d ≤ e) {es : List (String × Value)}
    (ih : ∀ k v, (k, v) ∈ es → LookLe p q .entry (spend d) (spend e) v) :
    LookLe p q place d e (.map es) := by
  intro opened r h
  have hs := spend_mono hde
  rw [look] at h ⊢
  split at h
  · rw [if_pos (by omega)]
    cases h
    exact ⟨_, rfl, .table (.nil _)⟩
  · obtain ⟨out', hout', rfl⟩ := map_eq_ok h
    split
    · exact ⟨_, rfl, .table (.nil _)⟩
    · obtain ⟨out, hout, hle⟩ := entries_le hpq ih (.nil []) (fun _ _ => rfl) hout'
      exact ⟨_, by rw [hout]; rfl, .table hle⟩

theorem seq_le {place : Place} {n : Nat} {vs : List Value}
    (ih : ∀ v ∈ vs, LookLe p q .item d e v) : LookLe p q place d e (.seq n vs) := by
  intro opened r h
  have ha := hpq.array
  rw [look] at h ⊢
  split at h
  · rw [if_pos ‹_›]
    cases h
    exact ⟨_, rfl, .nothing⟩
  · rw [if_neg ‹_›]
    split at h
    · rw [if_pos (by omega)]
      cases h
      exact ⟨_, rfl, .list .nil⟩
    · split at h
      · cases h
      · obtain ⟨us, hus, rfl⟩ := map_eq_ok h
        split
        · exact ⟨_, rfl, .list .nil⟩
        · rw [if_neg (by omega)]
          obtain ⟨ts, hts, hle⟩ := items_le ih (Int.toNat_le_toNat ha) hus
          exact ⟨_, by rw [hts]; rfl, .list hle⟩

/-- Where there is no content to look at, a limit that cuts it off under `q` does so under `p`. -/
theorem broken_le {place : Place} (hde : d ≤ e) (kind : ContainerKind) (f : Fault) :
    LookLe p q place d e (.broken kind f) := by
  intro opened r h
  have hs := spend_mono hde
  have ha := hpq.array
  cases kind with
  | seq =>
    rw [look] at h ⊢
    split at h
    · rw [if_pos ‹_›]
      cases h
      exact ⟨_, rfl, .nothing⟩
    · rw [if_neg ‹_›]
      split at h
      · rw [if_pos (by omega)]
        cases h
        exact ⟨_, rfl, .list .nil⟩
      · cases h
  | record | map =>
    rw [look] at h ⊢
    · split at h
      · rw [if_pos (by omega)]
        cases h
        exact ⟨_, rfl, .table (.nil _)⟩
      · cases h
    all_goals simp

end Containers

/-! ### The whole value -/

/-- A look under a looser policy, with more levels left, sees no less. -/
theorem look_le {p q : Policy} (hpq : p.Tighter q) {v : Value} (hv : v.Apart q) {place : Place}
    {d e : Int} (hde : d ≤ e) : LookLe p q place d e v := by
  induction v generalizing place d e with
  | absent | unsupported =>
    intro opened r h
    rw [look] at h ⊢
    cases h
    exact ⟨_, rfl, .nothing⟩
  | faulty f =>
    intro opened r h
    rw [look] at h
    cases h
  | scalar a =>
    intro opened r h
    rw [look] at h ⊢
    cases h
    exact ⟨_, rfl, by rw [a.trim_of_tighter hpq]; exact .leaf (a.isLeaf_trim q)⟩
  | special a =>
    intro opened r h
    rw [look] at h ⊢
    cases h
    exact ⟨_, rfl, by rw [a.trim_of_tighter hpq]; exact .leaf (a.isLeaf_trim q)⟩
  | optional v ih =>
    intro opened r h
    rw [look] at h ⊢
    split
    · rename_i ho
      rw [if_pos ho] at h
      cases h
      exact ⟨_, rfl, .nothing⟩
    · rename_i ho
      rw [if_neg ho] at h
      exact ih (fun fs hfs => hv fs (.optional hfs)) hde h
  | dynamic v ih =>
    intro opened r h
    rw [look] at h ⊢
    obtain ⟨r', hr', rfl⟩ := map_eq_ok h
    obtain ⟨s, hs, hsr⟩ :=
      ih (fun fs hfs => hv fs (.dynamic hfs)) (place.dynamicDepth_mono hde) hr'
    exact ⟨_, by rw [hs]; rfl, .boxed hsr.tree⟩
  | record fs ih =>
    exact record_le hpq hde (hv fs .here) fun dsc v hm =>
      ih dsc v hm (fun fs hfs => hv fs (.field hm hfs)) (spend_mono hde)
  | map es ih =>
    exact map_le hpq hde fun k v hm =>
      ih k v hm (fun fs hfs => hv fs (.entry hm hfs)) (spend_mono hde)
  | seq n vs ih => exact seq_le hpq fun v hm => ih v hm (fun fs hfs => hv fs (.item hm hfs)) hde
  | broken kind f => exact broken_le hpq hde kind f

/-- A looser policy gives a tree that tells no less, exactly if there is room for all items that it
keeps. -/
theorem trim_le_of_tighter {p q : Policy} (hpq : p.Tighter q) {v : Value} (hv : v.Sound)
    (hk : v.Apart q) :
    (∃ t u, v.trim p = .ok t ∧ v.trim q = .ok u ∧ t.Le u) ↔ q.HasRoom v := by
  rw [← hv.toCalm.trim_eq_ok_iff]
  constructor
  · rintro ⟨t, u, _, hu, _⟩
    exact ⟨u, hu⟩
  · rintro ⟨u, hu⟩
    obtain ⟨r, hr, rfl⟩ := map_eq_ok hu
    obtain ⟨s, hs, hsr⟩ := look_le hpq hk hpq.depth hr
    exact ⟨s.tree, r.tree, by rw [Value.trim, hs]; rfl, hu, hsr.tree⟩

/-- One more item of a sequence, and a field that was hidden. -/
theorem trim_le_of_tighter_fields : ∃ t u,
    (Value.record [(⟨"x", none⟩, .list [.scalar (.bool true), .scalar (.int 1)]),
      (⟨"y", none⟩, .scalar (.uint 2))]).trim ⟨1, 0, 2, 0, ["y"]⟩ = .ok t ∧
    (Value.record [(⟨"x", none⟩, .list [.scalar (.bool true), .scalar (.int 1)]),
      (⟨"y", none⟩, .scalar (.uint 2))]).trim ⟨2, 0, 3, 0, []⟩ = .ok u ∧ t.Le u := by
  have parts : ∀ w, Inside (.record [(⟨"x", none⟩, .list [.scalar (.bool true), .scalar (.int 1)]),
      (⟨"y", none⟩, .scalar (.uint 2))]) w →
      (∃ a, w = .scalar a) ∨ w = .seq 2 [.scalar (.bool true), .scalar (.int 1)] ∨
        w = .record [(⟨"x", none⟩, .list [.scalar (.bool true), .scalar (.int 1)]),
          (⟨"y", none⟩, .scalar (.uint 2))] := by
    intro w hw
    cases hw with
    | here => exact Or.inr (Or.inr rfl)
    | field hm hw =>
      simp only [List.mem_cons, Prod.mk.injEq, List.not_mem_nil, or_false] at hm
      rcases hm with ⟨_, rfl⟩ | ⟨_, rfl⟩
      · cases hw with
        | here => exact Or.inr (Or.inl rfl)
        | item hm hw =>
          simp only [List.mem_cons, List.not_mem_nil, or_false] at hm
          rcases hm with rfl | rfl
          · cases hw
            exact Or.inl ⟨_, rfl⟩
          · cases hw
            exact Or.inl ⟨_, rfl⟩
      · cases hw
        exact Or.inl ⟨_, rfl⟩
  have hpq : Policy.Tighter ⟨1, 0, 2, 0, ["y"]⟩ ⟨2, 0, 3, 0, []⟩ :=
    ⟨by decide, by decide, by simp, rfl⟩
  refine (trim_le_of_tighter hpq ⟨?_, ?_, ?_⟩ ?_).mpr (Spot.hasRoom_of_le (by decide) _ _)
  · intro f hf
    rcases parts _ hf with ⟨a, h⟩ | h | h <;> cases h
  · intro kind f hf
    rcases parts _ hf with ⟨a, h⟩ | h | h <;> cases h
  · intro n vs hn
    rcases parts _ hn with ⟨a, h⟩ | h | h <;> cases h
    rfl
  · intro fs hfs
    rcases parts _ hfs with ⟨a, h⟩ | h | h <;> cases h
    decide

/-- A sequence of more items than there is room for is cut to nothing, or not at all. -/
theorem looser_limit_fails :
    let p : Policy := { Policy.standard with arrayLimit := 0 }
    let q : Policy := { Policy.standard with arrayLimit := maxRoom + 1 }
    let v : Value := .list (List.replicate (maxRoom + 1) .absent)
    p.Tighter q ∧ v.Sound ∧ v.Apart q ∧ v.trim p = .ok (.seq []) ∧ v.trim q = .error noRoom ∧
      ¬ ∃ t u, v.trim p = .ok t ∧ v.trim q = .ok u ∧ t.Le u := by
  intro p q v
  have hfails : v.trim q = .error noRoom := trim_list_replicate_absent (Int.lt_succ _)
  refine ⟨⟨Int.le_refl _, by decide, fun _ h => h, rfl⟩, sound_list_replicate_absent _, ?_, rfl,
    hfails, ?_⟩
  · intro fs hfs
    simp only [v, Value.list] at hfs
    cases hfs with
    | item hm hfs =>
      rw [List.eq_of_mem_replicate hm] at hfs
      cases hfs
  · rintro ⟨t, u, _, hu, _⟩
    rw [hfails] at hu
    cases hu

end Abridge

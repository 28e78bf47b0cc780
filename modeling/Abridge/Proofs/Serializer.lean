import Abridge.Derive.Serializer
import Abridge.Proofs.Outcome

/-!
What the attributes of a serializer say. Each is read up to the first entry that cannot be taken, so
a flag counts as soon as all entries before it can; and no later attribute takes it back.
-/
namespace Abridge.Derive

namespace SerializerKeys

variable {σ : Type} (k : SerializerKeys σ)

/-! ### Entries and items -/

def IsFlag (w : String) : Prop := w ≠ k.nameKey ∧ (k.flag? w).isSome = true

/-- Can the entry be taken, so that reading goes on behind it? A name needs a text, a flag stands
alone, and what has no meaning is passed over. -/
def takes (e : Entry) : Bool :=
  if e.key? = some k.nameKey then e.writtenName.isSome
  else if (e.key?.bind k.flag?).isSome then e.isWord
  else e.skippable

theorem step_of_name {e : Entry} (h : e.key? = some k.nameKey) (s : σ) :
    k.step s e = k.takeName s e := if_pos h

theorem step_of_flag {e : Entry} {set : σ → σ} (h : e.key? ≠ some k.nameKey)
    (hset : e.key?.bind k.flag? = some set) (s : σ) : k.step s e = ⟨set s, e.isWord⟩ := by
  rw [step, if_neg h, hset]

theorem step_of_other {e : Entry} (h : e.key? ≠ some k.nameKey)
    (hother : e.key?.bind k.flag? = none) (s : σ) : k.step s e = ⟨s, e.skippable⟩ := by
  rw [step, if_neg h, hother]

theorem step_goesOn (s : σ) (e : Entry) : (k.step s e).goesOn = k.takes e := by
  rw [step, takes]
  split
  · rw [takeName]
    split <;> rename_i h <;> rw [h] <;> rfl
  · split <;> rename_i h <;> rw [h] <;> rfl

/-- What an item of source text changes, whatever is known before it. -/
def change (g : Syntax.Productions) : Syntax.Parse (σ → σ) := do
  let key ← Syntax.key
  if key = k.nameKey then
    match ← writtenName g with
    | some n => return k.setName n
    | none => return id
  else
    match k.flag? key with
    | some set => return set
    | none =>
      pass g
      return id

theorem item_eq (g : Syntax.Productions) (s : σ) :
    k.item g s = (fun f => f s) <$> k.change g := by
  rw [item, change, map_bind]
  refine bind_congr fun w => ?_
  by_cases hw : w = k.nameKey
  · rw [if_pos hw, if_pos hw, map_bind]
    refine bind_congr fun n => ?_
    cases n <;> rw [map_pure]
    rfl
  · rw [if_neg hw, if_neg hw]
    cases k.flag? w with
    | some set => rw [map_pure]
    | none =>
      rw [map_bind]
      refine bind_congr fun _ => ?_
      rw [map_pure]
      rfl

theorem item_run (g : Syntax.Productions) (s : σ) (r : Syntax.Reading) :
    (k.item g s).run r = ((k.change g).run r).map fun x => (x.1 s, x.2) := by
  rw [item_eq, StateT.run_map]
  rfl

theorem change_run_of_error {g : Syntax.Productions} {r : Syntax.Reading} {c : SyntaxFault}
    (h : Syntax.key.run r = .error c) : (k.change g).run r = .error c := by
  rw [change, StateT.run_bind, h]
  rfl

/-- What an item of source text changes, once its key has been read. -/
theorem change_run {g : Syntax.Productions} {w : String} {r r' : Syntax.Reading}
    (h : Syntax.key.run r = .ok (w, r')) : (k.change g).run r =
      if w = k.nameKey then ((writtenName g).run r').map fun x => (x.1.elim id k.setName, x.2)
      else
        match k.flag? w with
        | some set => .ok (set, r')
        | none => ((pass g).run r').map fun x => (id, x.2) := by
  rw [change, StateT.run_bind, h]
  change StateT.run (if w = k.nameKey then _ else _) r' = _
  split
  · rw [StateT.run_bind]
    cases (writtenName g).run r' with
    | error c => rfl
    | ok x => obtain ⟨n, r''⟩ := x; cases n <;> rfl
  · cases k.flag? w with
    | some set => rfl
    | none =>
      simp only [StateT.run_bind]
      cases (pass g).run r' <;> rfl

/-! ### What is reached

All that stands before it has been read.
-/

/-- An entry with the key `w` among entries. -/
inductive Reached (w : String) : List Entry → Prop
  | here {e es} : e.key? = some w → Reached w (e :: es)
  | later {e es} : k.takes e = true → Reached w es → Reached w (e :: es)

/-- An item with the key `w` among the next `n` items of source text. -/
inductive ReachedAhead (g : Syntax.Productions) (w : String) : Nat → Syntax.Reading → Prop
  | here {n r r'} : Syntax.key.run r = .ok (w, r') → ReachedAhead g w (n + 1) r
  | later {n r f r' r''} : (k.change g).run r = .ok (f, r') →
    (Syntax.mark ",").run r' = .ok ((), r'') → ReachedAhead g w n r'' → ReachedAhead g w (n + 1) r

/-- The key `w` in the list of an attribute. -/
def ReachedIn (w : String) (is : List Item) : Prop :=
  match plainEntries? is with
  | some es => k.Reached w es
  | none =>
    k.ReachedAhead (Syntax.grammarFor (itemLexemes is)) w (Lexeme.sizeAll (itemLexemes is))
      ⟨itemLexemes is, [], none⟩

/-- Some attribute of the serializer has a list in which the key `w` is reached. -/
def Reaches (w : String) (attributes : List Attribute) : Prop :=
  ∃ is ∈ lists attributes, k.ReachedIn w is

theorem reached_cons {w : String} {e : Entry} {es : List Entry} :
    k.Reached w (e :: es) ↔ e.key? = some w ∨ (k.takes e = true ∧ k.Reached w es) := by
  constructor
  · rintro (he | ⟨ht, hes⟩)
    · exact Or.inl he
    · exact Or.inr ⟨ht, hes⟩
  · rintro (he | ⟨ht, hes⟩)
    · exact .here he
    · exact .later ht hes

theorem reachedAhead_succ {g : Syntax.Productions} {w v : String} {n : Nat}
    {r r₁ r' : Syntax.Reading} {f : σ → σ} (hkey : Syntax.key.run r = .ok (v, r₁))
    (hf : (k.change g).run r = .ok (f, r')) : k.ReachedAhead g w (n + 1) r ↔
      w = v ∨ ∃ r'', (Syntax.mark ",").run r' = .ok ((), r'') ∧ k.ReachedAhead g w n r'' := by
  constructor
  · rintro (hw | ⟨hf', hmark, hr⟩)
    · rw [hkey] at hw
      cases hw
      exact Or.inl rfl
    · rw [hf] at hf'
      cases hf'
      exact Or.inr ⟨_, hmark, hr⟩
  · rintro (rfl | ⟨r'', hmark, hr⟩)
    · exact .here hkey
    · exact .later hf hmark hr

theorem change_of_flag {g : Syntax.Productions} {w : String} {r r' : Syntax.Reading}
    (hw : k.IsFlag w) (hkey : Syntax.key.run r = .ok (w, r')) :
    ∃ f, (k.change g).run r = .ok (f, r') := by
  obtain ⟨set, hset⟩ := Option.isSome_iff_exists.mp hw.2
  exact ⟨set, by rw [k.change_run hkey, if_neg hw.1, hset]⟩

/-! ### What flags establish

A property that names leave alone and flags establish holds in the end exactly if it did at the
start or a flag is reached.
-/

variable {P : σ → Prop} (hname : ∀ n s, P (k.setName n s) ↔ P s)
  (hflag : ∀ w set s, k.flag? w = some set → P (set s))

include hname hflag

theorem step_iff (s : σ) (e : Entry) :
    P (k.step s e).state ↔ P s ∨ ∃ w, k.IsFlag w ∧ e.key? = some w := by
  rw [step]
  split
  · rename_i hkey
    have hno : ¬ ∃ w, k.IsFlag w ∧ e.key? = some w := by
      rintro ⟨w, hw, he⟩
      exact hw.1 (Option.some.inj (he.symm.trans hkey))
    rw [takeName]
    split
    · simp [hno]
    · simp [hno]
    · simp [hno, hname]
  · rename_i hkey
    split
    · rename_i set hset
      obtain ⟨w, he, hw⟩ := Option.bind_eq_some_iff.mp hset
      refine iff_of_true (hflag w set s hw) (Or.inr ⟨w, ⟨fun h => hkey (h ▸ he), ?_⟩, he⟩)
      rw [hw]
      rfl
    · rename_i hset
      have hno : ¬ ∃ w, k.IsFlag w ∧ e.key? = some w := by
        rintro ⟨w, hw, he⟩
        rw [he, Option.bind_some] at hset
        simp [IsFlag, hset] at hw
      simp [hno]

theorem readEntries_iff : ∀ (es : List Entry) (s : σ),
    P (k.readEntries s es) ↔ P s ∨ ∃ w, k.IsFlag w ∧ k.Reached w es
  | [], s => by
    have hno : ∀ w, ¬ k.Reached w [] := fun w h => by cases h
    simp [readEntries, hno]
  | e :: es, s => by
    have hstep := k.step_iff hname hflag s e
    rw [readEntries]
    simp only [k.step_goesOn, k.reached_cons]
    cases ht : k.takes e with
    | true =>
      rw [if_pos rfl, readEntries_iff es, hstep, or_assoc, ← exists_or]
      simp only [true_and, and_or_left]
    | false =>
      simp only [Bool.false_eq_true, if_false, false_and, or_false]
      exact hstep

theorem change_iff {g : Syntax.Productions} {f : σ → σ} {r r' : Syntax.Reading}
    (h : (k.change g).run r = .ok (f, r')) :
    ∃ w r₁, Syntax.key.run r = .ok (w, r₁) ∧ ∀ s, P (f s) ↔ P s ∨ k.IsFlag w := by
  cases hkey : Syntax.key.run r with
  | error c => rw [k.change_run_of_error hkey] at h; cases h
  | ok x =>
    obtain ⟨w, r₁⟩ := x
    refine ⟨w, r₁, rfl, fun s => ?_⟩
    rw [k.change_run hkey] at h
    split at h
    · rename_i hw
      have hno : ¬ k.IsFlag w := fun hf => hf.1 hw
      obtain ⟨⟨name, r₂⟩, _, h⟩ := map_eq_ok h
      cases name <;> cases h <;> simp [hno, hname]
    · rename_i hw
      split at h
      · rename_i set hset
        cases h
        exact iff_of_true (hflag w f s hset) (Or.inr ⟨hw, by rw [hset]; rfl⟩)
      · rename_i hset
        obtain ⟨_, _, h⟩ := map_eq_ok h
        cases h
        simp [IsFlag, hset]

theorem readFrom_iff (g : Syntax.Productions) : ∀ (n : Nat) (s : σ) (r : Syntax.Reading),
    P (k.readFrom g n s r) ↔ P s ∨ ∃ w, k.IsFlag w ∧ k.ReachedAhead g w n r
  | 0, s, r => by
    have hno : ∀ w, ¬ k.ReachedAhead g w 0 r := fun w h => by cases h
    simp [readFrom, hno]
  | n + 1, s, r => by
    rw [readFrom, k.item_run]
    cases hf : (k.change g).run r with
    | error c =>
      have hno : ¬ ∃ w, k.IsFlag w ∧ k.ReachedAhead g w (n + 1) r := by
        rintro ⟨w, hw, hkey | ⟨hf', _, _⟩⟩
        · obtain ⟨f, hf'⟩ := k.change_of_flag hw hkey
          cases hf.symm.trans hf'
        · cases hf.symm.trans hf'
      simp [Except.map, hno]
    | ok x =>
      obtain ⟨f, r'⟩ := x
      obtain ⟨v, r₁, hkey, hP⟩ := k.change_iff hname hflag hf
      simp only [Except.map, k.reachedAhead_succ hkey hf]
      cases hmark : (Syntax.mark ",").run r' with
      | error c => simp [hP]
      | ok y =>
        obtain ⟨_, r''⟩ := y
        simp only [readFrom_iff g n, hP, or_assoc, Except.ok.injEq, Prod.mk.injEq, true_and,
          exists_eq_left', and_or_left, exists_or, exists_eq_right]

theorem readItems_iff (s : σ) (is : List Item) :
    P (k.readItems s is) ↔ P s ∨ ∃ w, k.IsFlag w ∧ k.ReachedIn w is := by
  simp only [readItems, ReachedIn]
  cases plainEntries? is with
  | some es => exact k.readEntries_iff hname hflag es s
  | none => exact k.readFrom_iff hname hflag _ _ s _

theorem read_iff (attributes : List Attribute) (s : σ) :
    P (k.read s attributes) ↔ P s ∨ ∃ w, k.IsFlag w ∧ k.Reaches w attributes := by
  have hlists : ∀ (iss : List (List Item)) s, P (iss.foldl k.readItems s) ↔
      P s ∨ ∃ w, k.IsFlag w ∧ ∃ is ∈ iss, k.ReachedIn w is := by
    intro iss
    induction iss with
    | nil => simp
    | cons is iss ih =>
      intro s
      rw [List.foldl_cons, ih, k.readItems_iff hname hflag, or_assoc, ← exists_or]
      simp only [List.mem_cons, exists_eq_or_imp, and_or_left]
  exact hlists _ s

end SerializerKeys

/-! ### Fields -/

namespace SerializerField

theorem isFlag_iff {w : String} : keys.IsFlag w ↔ w = "skip" ∨ w = "skip_serializing" := by
  constructor
  · rintro ⟨_, h⟩
    simp only [keys] at h
    split at h
    · exact Or.inl ‹_›
    · split at h
      · exact Or.inr ‹_›
      · cases h
  · rintro (rfl | rfl)
    · exact ⟨by decide, rfl⟩
    · exact ⟨by decide, rfl⟩

theorem shouldSkip_of_flag {w : String} {set : SerializerField → SerializerField}
    (h : keys.flag? w = some set) (s : SerializerField) : (set s).shouldSkip = true := by
  simp only [keys] at h
  split at h
  · cases h
    rfl
  · split at h
    · cases h
      simp [shouldSkip]
    · cases h

/-- A field is skipped exactly by a flag that is reached. -/
theorem shouldSkip_iff {attributes : List Attribute} : (read attributes).shouldSkip = true ↔
    ∃ w, (w = "skip" ∨ w = "skip_serializing") ∧ keys.Reaches w attributes := by
  simp only [← isFlag_iff]
  rw [read, keys.read_iff (P := (·.shouldSkip = true)) (fun _ _ => Iff.rfl)
    fun _ _ s h => shouldSkip_of_flag h s]
  simp [shouldSkip]

end SerializerField

end Abridge.Derive

import Abridge.Proofs.Attributes

/-!
Attributes that can be read. A reading collects every fault that it meets, and it meets none exactly
if each attribute is bare or has a list that can be read, each entry stands under a known key and
holds a value that the key takes, and no key is used twice. Attributes of other paths play no part.
-/
namespace Abridge.Derive

/-- Attributes without a fault, where `takes k e` says that the key `k` is known and takes the value
of the entry `e`. -/
structure Readable (takes : String → Entry → Prop) (attributes : List Attribute) : Prop where
  legible : ∀ a ∈ attributes, a.path = trimPath → a.Legible
  known : ∀ e ∈ entriesAt trimPath attributes, ∃ k, e.key? = some k ∧ takes k e
  once : ((entriesAt trimPath attributes).map Entry.key?).Nodup

/-! ### Readings -/

section Reader

variable {σ : Type} (r : Reader σ)

theorem Reader.attributes_faults_iff {attributes : List Attribute} {p : Progress σ} :
    (attributes.foldl r.attribute p).faults = [] ↔
      (∀ a ∈ attributes, a.path = trimPath → a.Legible) ∧
        ((entriesAt trimPath attributes).foldl r.entry p).faults = [] := by
  induction attributes generalizing p with
  | nil => simp [entriesAt]
  | cons a attributes ih =>
    have hentries : entriesAt trimPath (a :: attributes) =
        a.entriesAt trimPath ++ entriesAt trimPath attributes := List.flatMap_cons
    rw [List.foldl_cons, ih, List.forall_mem_cons, hentries, List.foldl_append]
    constructor
    · rintro ⟨hlegible, hfaults⟩
      have ha : a.path = trimPath → a.Legible :=
        r.legible_of_faults_eq_nil (r.faults_of_entries hfaults)
      rw [r.attribute_of_legible ha] at hfaults
      exact ⟨⟨ha, hlegible⟩, hfaults⟩
    · rintro ⟨⟨ha, hlegible⟩, hfaults⟩
      rw [r.attribute_of_legible ha]
      exact ⟨hlegible, hfaults⟩

/-- Attributes of other paths are passed over. -/
theorem Reader.all_filter (start : σ) (attributes : List Attribute) :
    r.all start (attributes.filter (·.path = trimPath)) = r.all start attributes := by
  have hother : ∀ (p : Progress σ) a, (if a.path = trimPath then r.attribute p a else p) =
      r.attribute p a := by
    intro p a
    rw [Reader.attribute]
    split <;> rfl
  rw [Reader.all, Reader.all, List.foldl_filter]
  simp only [decide_eq_true_eq, hother]

section Takes

variable {takes : String → Entry → Prop}
  (htakes : ∀ k e s, (k ∈ r.keys ∧ ∃ s', r.read k e s = .ok s') ↔ takes k e)
include htakes

theorem Reader.entry_of_takes {p : Progress σ} {e : Entry} {k : String} (hp : p.faults = [])
    (hkey : e.key? = some k) (htaken : takes k e) (hnew : k ∉ p.seen) :
    ∃ s, r.entry p e = ⟨s, k :: p.seen, []⟩ := by
  obtain ⟨hknown, s, hread⟩ := (htakes k e p.result).mpr htaken
  refine ⟨s, ?_⟩
  rw [Reader.entry, hkey]
  simp only [List.contains_eq_mem, hknown, hnew, decide_true, decide_false, Bool.not_true,
    Bool.false_eq_true, if_false, hread, hp]

/-- The entries of a list leave no fault if none was there, each has a key of its own that was not
used before, and this key takes its value. -/
theorem Reader.entries_faults_iff {es : List Entry} {p : Progress σ} :
    (es.foldl r.entry p).faults = [] ↔ p.faults = [] ∧
      (∀ e ∈ es, ∃ k, e.key? = some k ∧ takes k e ∧ k ∉ p.seen) ∧
      (es.map Entry.key?).Nodup := by
  induction es generalizing p with
  | nil => simp
  | cons e es ih =>
    rw [List.foldl_cons, ih, List.map_cons, List.nodup_cons, List.forall_mem_cons]
    constructor
    · rintro ⟨hfirst, hlater, honce⟩
      obtain ⟨hp, k, s, hkey, hknown, hnew, hread, heq⟩ := r.entry_of_faults_eq_nil hfirst
      rw [heq] at hlater
      have htaken : takes k e := (htakes k e p.result).mp ⟨hknown, s, hread⟩
      refine ⟨hp, ⟨⟨k, hkey, htaken, hnew⟩, fun e' he' => ?_⟩, fun hagain => ?_, honce⟩
      · obtain ⟨j, hj, htj, hjseen⟩ := hlater e' he'
        exact ⟨j, hj, htj, fun h => hjseen (List.mem_cons_of_mem k h)⟩
      · obtain ⟨e', he', hsame⟩ := List.mem_map.mp hagain
        obtain ⟨j, hj, _, hjseen⟩ := hlater e' he'
        obtain rfl : j = k := Option.some.inj (hj.symm.trans (hsame.trans hkey))
        exact hjseen List.mem_cons_self
    · rintro ⟨hp, ⟨⟨k, hkey, htaken, hnew⟩, hlater⟩, hfresh, honce⟩
      obtain ⟨s, heq⟩ := r.entry_of_takes htakes hp hkey htaken hnew
      rw [heq]
      refine ⟨rfl, fun e' he' => ?_, honce⟩
      obtain ⟨j, hj, htj, hjseen⟩ := hlater e' he'
      refine ⟨j, hj, htj, fun hmem => ?_⟩
      rcases List.mem_cons.mp hmem with rfl | hmem
      · exact hfresh (hkey.trans hj.symm ▸ List.mem_map_of_mem he')
      · exact hjseen hmem

/-- What can be read is what is read without a fault. -/
theorem Reader.finish_eq_ok_iff {start : σ} {attributes : List Attribute} :
    (∃ a, (r.all start attributes).finish = .ok a) ↔ Readable takes attributes := by
  have hfinish : (∃ a, (r.all start attributes).finish = .ok a) ↔
      (r.all start attributes).faults = [] := by
    rw [Progress.finish, ← List.isEmpty_iff]
    split <;> simp [*]
  rw [hfinish, Reader.all, r.attributes_faults_iff, r.entries_faults_iff htakes]
  constructor
  · rintro ⟨hlegible, _, hknown, honce⟩
    refine ⟨hlegible, fun e he => ?_, honce⟩
    obtain ⟨k, hkey, htaken, _⟩ := hknown e he
    exact ⟨k, hkey, htaken⟩
  · rintro ⟨hlegible, hknown, honce⟩
    refine ⟨hlegible, rfl, fun e he => ?_, honce⟩
    obtain ⟨k, hkey, htaken⟩ := hknown e he
    exact ⟨k, hkey, htaken, List.not_mem_nil⟩

end Takes

end Reader

/-! ### Attributes of fields, variants and types -/

/-- A field takes texts for its name and its tag, and a flag that skips it. -/
def FieldAttributes.Takes (k : String) (e : Entry) : Prop :=
  (k = "rename" ∧ ∃ t, e.textValue = .ok t) ∨ (k = "skip" ∧ ∃ b, e.flagValue = .ok b) ∨
    (k = "tag" ∧ ∃ t, e.textValue = .ok t)

theorem FieldAttributes.read_eq_ok_iff {attributes : List Attribute} :
    (∃ a, read attributes = .ok a) ↔ Readable Takes attributes := by
  refine reader.finish_eq_ok_iff fun k e s => ?_
  constructor
  · rintro ⟨hk, s', h⟩
    rcases reader_read_eq_ok hk h with ⟨hk, t, ht, _⟩ | ⟨hk, b, hb, _⟩ | ⟨hk, t, ht, _⟩
    · exact Or.inl ⟨hk, t, ht⟩
    · exact Or.inr (Or.inl ⟨hk, b, hb⟩)
    · exact Or.inr (Or.inr ⟨hk, t, ht⟩)
  · rintro (⟨rfl, t, ht⟩ | ⟨rfl, b, hb⟩ | ⟨rfl, t, ht⟩)
    · exact ⟨by decide, { s with rename := some t }, bind_of_eq_ok ht _⟩
    · exact ⟨by decide, { s with skip := b }, bind_of_eq_ok hb _⟩
    · exact ⟨by decide, { s with tag := some t }, bind_of_eq_ok ht _⟩

/-- A variant takes a text for its name. -/
def VariantAttributes.Takes (k : String) (e : Entry) : Prop :=
  k = "rename" ∧ ∃ t, e.textValue = .ok t

theorem VariantAttributes.read_eq_ok_iff {attributes : List Attribute} :
    (∃ a, read attributes = .ok a) ↔ Readable Takes attributes := by
  refine reader.finish_eq_ok_iff fun k e s => ?_
  constructor
  · rintro ⟨hk, s', h⟩
    obtain ⟨t, ht, _⟩ := bind_eq_ok h
    exact ⟨List.mem_singleton.mp hk, t, ht⟩
  · rintro ⟨rfl, t, ht⟩
    exact ⟨by decide, ⟨some t⟩, bind_of_eq_ok ht _⟩

/-- A type takes a rule for all names, and the two flags for being shown as one text. -/
def ContainerAttributes.Takes (k : String) (e : Entry) : Prop :=
  (k = "rename_all" ∧ ∃ r, e.ruleValue = .ok r) ∨ (k = "display" ∧ ∃ b, e.flagValue = .ok b) ∨
    (k = "error" ∧ ∃ b, e.flagValue = .ok b)

/-- Unions have no attributes to read; those of any other type can be read if each of them can. -/
theorem ContainerAttributes.read_eq_ok_iff {d : Definition} (hd : d.body ≠ .union) :
    (∃ a, read d = .ok a) ↔ Readable Takes d.attributes := by
  have hread : read d = (reader.all ⟨none, false, false⟩ d.attributes).finish := by
    rw [read]
    split
    · exact absurd ‹_› hd
    · rfl
  rw [hread]
  refine reader.finish_eq_ok_iff fun k e s => ?_
  constructor
  · rintro ⟨hk, s', h⟩
    rcases reader_read_eq_ok hk h with ⟨hk, r, hr, _⟩ | ⟨hk, b, hb, _⟩ | ⟨hk, b, hb, _⟩
    · exact Or.inl ⟨hk, r, hr⟩
    · exact Or.inr (Or.inl ⟨hk, b, hb⟩)
    · exact Or.inr (Or.inr ⟨hk, b, hb⟩)
  · rintro (⟨rfl, r, hr⟩ | ⟨rfl, b, hb⟩ | ⟨rfl, b, hb⟩)
    · exact ⟨by decide, { s with renameAll := some r }, bind_of_eq_ok hr _⟩
    · exact ⟨by decide, { s with display := b }, bind_of_eq_ok hb _⟩
    · exact ⟨by decide, { s with error := b }, bind_of_eq_ok hb _⟩

end Abridge.Derive

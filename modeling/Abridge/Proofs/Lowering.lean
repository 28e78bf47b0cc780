import Abridge.Derive.Plan
import Abridge.Proofs.Attributes
import Abridge.Proofs.Serializer

/-!
From definitions to plans. A field is skipped by an entry of its own attributes or by a flag of the
serializer; one that is not is planned under its resolved name. The plans of a struct are those of
its fields, in order, and the indices of a tuple struct are those at which a field is not skipped.
-/
namespace Abridge.Derive

variable {useSerializer : Bool} {rule : Option RenameRule}

/-! ### Skipped fields -/

/-- An entry of the field's own attributes asks for it to be skipped, or a flag of the serializer is
reached. -/
inductive Skipped (useSerializer : Bool) (attributes : List Attribute) : Prop
  | own {e} : e ∈ entriesAt trimPath attributes → e.key? = some "skip" →
    e.flagValue = .ok true → Skipped useSerializer attributes
  | serializer {w} : useSerializer = true → w = "skip" ∨ w = "skip_serializing" →
    SerializerField.keys.Reaches w attributes → Skipped useSerializer attributes

theorem resolved_skip_iff {attributes : List Attribute} {a : FieldAttributes}
    (h : FieldAttributes.read attributes = .ok a) :
    (resolved useSerializer a attributes).2 = true ↔ Skipped useSerializer attributes := by
  have hother : (serializerField useSerializer attributes).shouldSkip = true ↔
      useSerializer = true ∧
        ∃ w, (w = "skip" ∨ w = "skip_serializing") ∧ SerializerField.keys.Reaches w attributes := by
    rw [serializerField, ← SerializerField.shouldSkip_iff]
    cases useSerializer <;> simp [SerializerField.shouldSkip]
  rw [resolved, SerializerField.merge, Bool.or_eq_true, FieldAttributes.skip_iff h, hother]
  constructor
  · rintro (⟨e, he, hkey, hb⟩ | ⟨hu, w, hw, hr⟩)
    · exact .own he hkey hb
    · exact .serializer hu hw hr
  · rintro (⟨he, hkey, hb⟩ | ⟨hu, hw, hr⟩)
    · exact Or.inl ⟨_, he, hkey, hb⟩
    · exact Or.inr ⟨hu, _, hw, hr⟩

/-! ### Named fields -/

/-- The name given by the field's own attributes, else by those of the serializer, else the declared
name under the rule of the type. -/
def resolvedName (useSerializer : Bool) (rule : Option RenameRule) (f : NamedField)
    (a : FieldAttributes) : String :=
  (a.rename.or (serializerField useSerializer f.attributes).rename).getD
    (RenameRule.applyOption rule (unraw f.name))

theorem namedField_of_read {f : NamedField} {a : FieldAttributes}
    (h : FieldAttributes.read f.attributes = .ok a) : namedField useSerializer rule f =
      .ok (if (resolved useSerializer a f.attributes).2 then none
        else some ⟨f.name, unraw f.name, resolvedName useSerializer rule f a, a.tag⟩) := by
  have hname : (resolved useSerializer a f.attributes).1.getD
      (a.emittedName rule (unraw f.name)) = resolvedName useSerializer rule f a := by
    rw [resolved, SerializerField.merge, resolvedName, FieldAttributes.emittedName]
    cases a.rename <;> rfl
  rw [namedField, h, ← hname]
  simp only
  split <;> rfl

/-- A plan comes from a field that is not skipped, and carries its name and tag. -/
theorem namedField_eq_some {f : NamedField} {plan : FieldPlan}
    (h : namedField useSerializer rule f = .ok (some plan)) :
    ∃ a, FieldAttributes.read f.attributes = .ok a ∧ ¬ Skipped useSerializer f.attributes ∧
      plan = ⟨f.name, unraw f.name, resolvedName useSerializer rule f a, a.tag⟩ := by
  cases ha : FieldAttributes.read f.attributes with
  | error fs => rw [namedField, ha] at h; cases h
  | ok a =>
    rw [namedField_of_read ha] at h
    split at h
    · cases h
    · rename_i hskip
      rw [resolved_skip_iff ha] at hskip
      exact ⟨a, rfl, hskip, (Option.some.inj (Except.ok.inj h)).symm⟩

/-- The plan of a field that can be read and is not skipped. -/
theorem namedField_of_not_skipped {f : NamedField} {o : Option FieldPlan}
    (h : namedField useSerializer rule f = .ok o)
    (hs : ¬ Skipped useSerializer f.attributes) : ∃ plan, o = some plan := by
  cases ha : FieldAttributes.read f.attributes with
  | error fs => rw [namedField, ha] at h; cases h
  | ok a =>
    rw [namedField_of_read ha, if_neg fun hskip => hs ((resolved_skip_iff ha).mp hskip)] at h
    exact ⟨_, (Except.ok.inj h).symm⟩

theorem namedField_of_mem {f : NamedField} : ∀ {fs : List NamedField} {plans : List FieldPlan},
    namedFields useSerializer rule fs = .ok plans → f ∈ fs →
      ∃ o, namedField useSerializer rule f = .ok o
  | g :: fs, plans, h, hf => by
    rw [namedFields] at h
    obtain ⟨o, ho, h⟩ := bind_eq_ok h
    obtain ⟨rest, hrest, _⟩ := bind_eq_ok h
    rcases List.mem_cons.mp hf with rfl | hf
    · exact ⟨o, ho⟩
    · exact namedField_of_mem hrest hf

theorem mem_namedFields {plan : FieldPlan} : ∀ {fs : List NamedField} {plans : List FieldPlan},
    namedFields useSerializer rule fs = .ok plans →
      (plan ∈ plans ↔ ∃ f ∈ fs, namedField useSerializer rule f = .ok (some plan))
  | [], _, h => by cases h; simp
  | f :: fs, plans, h => by
    rw [namedFields] at h
    obtain ⟨o, ho, h⟩ := bind_eq_ok h
    obtain ⟨rest, hrest, h⟩ := bind_eq_ok h
    cases h
    rw [List.mem_append, Option.mem_toList, mem_namedFields hrest]
    simp [ho]

/-! ### Positional fields -/

/-- A field that can be read is kept unless it is skipped. -/
theorem keepsPosition_eq_ok {f : PositionalField} {keep : Bool}
    (h : keepsPosition useSerializer f = .ok keep) :
    keep = true ↔ ¬ Skipped useSerializer f.attributes := by
  rw [keepsPosition] at h
  split at h
  · cases h
  · rename_i a ha
    rw [← resolved_skip_iff ha, ← Except.ok.inj h, Bool.not_eq_true', Bool.not_eq_true]

theorem mem_keptIndices {j : Nat} : ∀ {fs : List PositionalField} {i : Nat} {is : List Nat},
    keptIndices useSerializer i fs = .ok is →
      (j ∈ is ↔ ∃ n f, j = i + n ∧ fs[n]? = some f ∧ ¬ Skipped useSerializer f.attributes)
  | [], _, _, h => by cases h; simp
  | f :: fs, i, is, h => by
    rw [keptIndices] at h
    obtain ⟨keep, hkeep, h⟩ := bind_eq_ok h
    obtain ⟨rest, hrest, h⟩ := bind_eq_ok h
    have hmem : j ∈ is ↔ (keep = true ∧ j = i) ∨ j ∈ rest := by
      cases h
      cases keep <;> simp
    rw [hmem, mem_keptIndices hrest, keepsPosition_eq_ok hkeep]
    constructor
    · rintro (⟨hk, rfl⟩ | ⟨n, g, rfl, hg, hk⟩)
      · exact ⟨0, f, rfl, rfl, hk⟩
      · exact ⟨n + 1, g, by omega, hg, hk⟩
    · rintro ⟨n, g, rfl, hg, hk⟩
      cases n with
      | zero =>
        cases hg
        exact Or.inl ⟨hk, rfl⟩
      | succ n => exact Or.inr ⟨n, g, by omega, hg, hk⟩

/-- Is the field at an index of a tuple struct part of what its values show? -/
def Presentation.ShowsPosition (p : Presentation) (i : Nat) : Prop :=
  p = .transparent i ∨ ∃ is, p = .sequence is ∧ i ∈ is

/-- What a tuple struct shows: its only field, or those at some indices. -/
theorem positionalFields_eq_ok {fs : List PositionalField} {p : Presentation}
    (h : positionalFields useSerializer fs = .ok p) :
    ∃ is, keptIndices useSerializer 0 fs = .ok is ∧
      (p = .sequence is ∨ ∃ i, is = [i] ∧ p = .transparent i) := by
  rw [positionalFields] at h
  obtain ⟨is, his, h⟩ := bind_eq_ok h
  refine ⟨is, his, ?_⟩
  split at h
  · exact Or.inr ⟨_, rfl, (Except.ok.inj h).symm⟩
  · exact Or.inl (Except.ok.inj h).symm

/-- A tuple struct shows the fields that are not skipped. -/
theorem showsPosition_iff {fs : List PositionalField} {p : Presentation}
    (h : positionalFields useSerializer fs = .ok p) {i : Nat} :
    p.ShowsPosition i ↔ ∃ f, fs[i]? = some f ∧ ¬ Skipped useSerializer f.attributes := by
  obtain ⟨is, his, hp⟩ := positionalFields_eq_ok h
  have hshows : p.ShowsPosition i ↔ i ∈ is := by
    rw [Presentation.ShowsPosition]
    rcases hp with rfl | ⟨j, rfl, rfl⟩
    · simp
    · simp [eq_comm]
  rw [hshows, mem_keptIndices his]
  simp

/-! ### Structs -/

theorem rendering_eq_ok {a : ContainerAttributes} {content : Except DefinitionFault Presentation}
    {p : Presentation} (h : rendering a content = .ok p) :
    p = .display ∨ p = .error ∨ content = .ok p := by
  rw [rendering] at h
  split at h
  · cases h
  · split at h
    · exact Or.inl (Except.ok.inj h).symm
    · split at h
      · exact Or.inr (Or.inl (Except.ok.inj h).symm)
      · exact Or.inr (Or.inr h)

/-- A struct that is looked into shows its fields. -/
theorem structFields_of_ofStruct {d : Definition} {plan : Plan}
    (h : Plan.ofStruct useSerializer d = .ok plan) (hdisplay : plan.presentation ≠ .display)
    (herror : plan.presentation ≠ .error) {fields : Fields} (hd : d.body = .struct fields) :
    ∃ rule, structFields useSerializer rule fields = .ok plan.presentation := by
  rw [Plan.ofStruct] at h
  split at h
  · cases h
  · rw [hd] at h
    obtain ⟨p, hp, h⟩ := bind_eq_ok h
    cases h
    rcases rendering_eq_ok hp with rfl | rfl | hp
    · exact absurd rfl hdisplay
    · exact absurd rfl herror
    · exact ⟨_, hp⟩

end Abridge.Derive

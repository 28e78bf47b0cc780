import Abridge.Proofs.Lowering
import Mathlib

/-!
What a struct is planned as. A struct with named fields is a record: one plan for each field that is
not skipped, in order, under the first name that is given for it. A tuple struct with a single field
stands for that field, if it is not skipped; any other is the sequence of the indices at which a
field is not skipped. A unit struct is the record without fields.
-/
namespace Abridge.Derive

variable {useSerializer : Bool} {rule : Option RenameRule}

/-! ### Names -/

/-- The name that comes first: one's own, the one for the serializer, what the rule makes of the
declared name, and the declared name if there is no rule. -/
def chosenName (own other : Option String) (rule : Option RenameRule) (declared : String) :
    String :=
  ([own, other, rule.map (·.apply declared)].findSome? id).getD declared

/-- The rule for the names of a type: its own, or else that of the serializer. -/
def typeRule (useSerializer : Bool) (attributes : List Attribute) : Option RenameRule :=
  (ownValue Entry.ruleValue "rename_all" attributes).or
    (if useSerializer then (SerializerContainer.read attributes).renameAll else none)

theorem renameAll_eq_typeRule {d : Definition} {a : ContainerAttributes}
    (h : ContainerAttributes.read d = .ok a) :
    renameAll useSerializer a d.attributes = typeRule useSerializer d.attributes := by
  rw [renameAll, typeRule, ← ContainerAttributes.renameAll_eq h]
  cases useSerializer <;> simp

/-- What a field that is not skipped is planned as. -/
def NamedField.planned (useSerializer : Bool) (rule : Option RenameRule) (f : NamedField) :
    FieldPlan where
  member := f.name
  declared := unraw f.name
  emitted := chosenName (ownValue Entry.textValue "rename" f.attributes)
    (serializerField useSerializer f.attributes).rename rule (unraw f.name)
  rawTag := ownValue Entry.textValue "tag" f.attributes

theorem resolvedName_eq {f : NamedField} {a : FieldAttributes}
    (h : FieldAttributes.read f.attributes = .ok a) : resolvedName useSerializer rule f a =
      chosenName (ownValue Entry.textValue "rename" f.attributes)
        (serializerField useSerializer f.attributes).rename rule (unraw f.name) := by
  rw [resolvedName, chosenName, ← FieldAttributes.rename_eq h]
  cases a.rename <;> cases (serializerField useSerializer f.attributes).rename <;>
    cases rule <;> rfl

/-! ### Named fields -/

open Classical in
theorem namedField_eq_ok {f : NamedField} {o : Option FieldPlan}
    (h : namedField useSerializer rule f = .ok o) :
    o = if Skipped useSerializer f.attributes then none
      else some (f.planned useSerializer rule) := by
  cases ha : FieldAttributes.read f.attributes with
  | error fs => rw [namedField, ha] at h; cases h
  | ok a =>
    rw [namedField_of_read ha, resolvedName_eq ha, FieldAttributes.tag_eq ha] at h
    rw [← Except.ok.inj h]
    by_cases hs : Skipped useSerializer f.attributes
    · rw [if_pos hs, if_pos ((resolved_skip_iff ha).mpr hs)]
    · rw [if_neg hs, if_neg fun h => hs ((resolved_skip_iff ha).mp h)]
      rfl

open Classical in
/-- The plans of the fields of a record are those of its fields that are not skipped, in order. -/
theorem namedFields_eq_ok : ∀ {fs : List NamedField} {plans : List FieldPlan},
    namedFields useSerializer rule fs = .ok plans →
      plans = (fs.filter fun f => ¬ Skipped useSerializer f.attributes).map
        (NamedField.planned useSerializer rule)
  | [], _, h => by cases h; rfl
  | f :: fs, plans, h => by
    rw [namedFields] at h
    obtain ⟨o, ho, h⟩ := bind_eq_ok h
    obtain ⟨rest, hrest, h⟩ := bind_eq_ok h
    obtain rfl := Except.ok.inj h
    rw [namedField_eq_ok ho, namedFields_eq_ok hrest, List.filter_cons]
    by_cases hs : Skipped useSerializer f.attributes <;> simp [hs]

/-! ### Positional fields -/

/-- A struct that is looked into is planned by its fields, under the rule of the type. -/
theorem structFields_eq_ok {d : Definition} {plan : Plan}
    (h : Plan.ofStruct useSerializer d = .ok plan) (hdisplay : plan.presentation ≠ .display)
    (herror : plan.presentation ≠ .error) {fields : Fields} (hd : d.body = .struct fields) :
    structFields useSerializer (typeRule useSerializer d.attributes) fields =
      .ok plan.presentation := by
  rw [Plan.ofStruct] at h
  split at h
  · cases h
  · rename_i a ha
    rw [hd] at h
    obtain ⟨p, hp, h⟩ := bind_eq_ok h
    obtain rfl := Except.ok.inj h
    rcases rendering_eq_ok hp with rfl | rfl | hp
    · exact absurd rfl hdisplay
    · exact absurd rfl herror
    · rw [← renameAll_eq_typeRule ha]
      exact hp

open Classical in
theorem named_eq_record {d : Definition} {plan : Plan}
    (h : Plan.ofStruct useSerializer d = .ok plan) (hdisplay : plan.presentation ≠ .display)
    (herror : plan.presentation ≠ .error) {fs : List NamedField}
    (hd : d.body = .struct (.named fs)) :
    plan.presentation = .record ((fs.filter fun f => ¬ Skipped useSerializer f.attributes).map
      (NamedField.planned useSerializer (typeRule useSerializer d.attributes))) := by
  obtain ⟨plans, hplans, hp⟩ := bind_eq_ok (structFields_eq_ok h hdisplay herror hd)
  rw [← namedFields_eq_ok hplans]
  exact (Except.ok.inj hp).symm

end Abridge.Derive

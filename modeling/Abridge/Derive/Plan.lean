import Abridge.Derive.Attribute
import Abridge.Derive.Serializer
import Abridge.Descriptor

/-!
Plans: how values of a defined type will show themselves. A struct with named fields is a record, a
tuple struct a sequence or, with a single field, whatever that field is; an enum without data is the
name of its variant; and a type may be shown as one text instead.
-/
namespace Abridge.Derive

structure FieldPlan where
  /-- The identifier by which the field is read. -/
  member : String
  /-- The identifier without the mark of a raw one. -/
  declared : String
  emitted : String
  rawTag : Option String

namespace FieldPlan

/-- The tag that makes the field appear under its emitted name. A raw tag stands as it is; a dash
alone would hide the field, so that it is followed by a comma. -/
def tag (f : FieldPlan) : Option String :=
  match f.rawTag with
  | some t => some t
  | none =>
    if f.emitted = f.declared then none
    else if f.emitted = "-" then some "-,"
    else some f.emitted

def descriptor (f : FieldPlan) : Descriptor := ⟨f.declared, f.tag⟩

end FieldPlan

structure VariantPlan where
  identifier : String
  name : String

inductive Presentation where
  | record (fields : List FieldPlan)
  | unitRecord
  /-- The shape of the field at an index. -/
  | transparent (index : Nat)
  /-- The fields at the indices. -/
  | sequence (indices : List Nat)
  | unitEnum (variants : List VariantPlan)
  | display
  | error

structure Plan where
  identifier : String
  generics : Generics
  presentation : Presentation

/-- Are values looked into? -/
def Presentation.traversesFields : Presentation → Bool
  | .record _ => true
  | .transparent _ => true
  | .sequence _ => true
  | _ => false

/-! ### From a definition -/

/-- The rule for all names of a type: its own first, then that of the serializer if it is asked. -/
def renameAll (useSerializer : Bool) (a : ContainerAttributes) (attributes : List Attribute) :
    Option RenameRule :=
  if useSerializer then a.renameAll.or (SerializerContainer.read attributes).renameAll
  else a.renameAll

/-- What the serializer says of a field, if it is asked. -/
def serializerField (useSerializer : Bool) (attributes : List Attribute) : SerializerField :=
  if useSerializer then SerializerField.read attributes else ⟨none, false, false⟩

/-- The name of a field, if one is given, and whether the field is skipped. -/
def resolved (useSerializer : Bool) (a : FieldAttributes) (attributes : List Attribute) :
    Option String × Bool :=
  SerializerField.merge a.rename a.skip (serializerField useSerializer attributes)

/-- The plan of a named field, none if it is skipped. -/
def namedField (useSerializer : Bool) (rule : Option RenameRule) (f : NamedField) :
    Except DefinitionFault (Option FieldPlan) :=
  match FieldAttributes.read f.attributes with
  | .error fs => .error (.fieldAttributes fs)
  | .ok a =>
    let (rename, skip) := resolved useSerializer a f.attributes
    let declared := unraw f.name
    if skip then .ok none
    else .ok (some ⟨f.name, declared, rename.getD (a.emittedName rule declared), a.tag⟩)

/-- The plans of the named fields that are not skipped, in order. -/
def namedFields (useSerializer : Bool) (rule : Option RenameRule) :
    List NamedField → Except DefinitionFault (List FieldPlan)
  | [] => .ok []
  | f :: fs => do
    let p ← namedField useSerializer rule f
    let ps ← namedFields useSerializer rule fs
    return p.toList ++ ps

/-- Is a positional field kept? -/
def keepsPosition (useSerializer : Bool) (f : PositionalField) : Except DefinitionFault Bool :=
  match FieldAttributes.read f.attributes with
  | .error fs => .error (.fieldAttributes fs)
  | .ok a => .ok (!(resolved useSerializer a f.attributes).2)

/-- The indices of the positional fields that are not skipped; `index` is that of the first one. -/
def keptIndices (useSerializer : Bool) (index : Nat) :
    List PositionalField → Except DefinitionFault (List Nat)
  | [] => .ok []
  | f :: fs => do
    let keep ← keepsPosition useSerializer f
    let is ← keptIndices useSerializer (index + 1) fs
    return if keep then index :: is else is

/-- A single field that is kept stands for the whole. -/
def positionalFields (useSerializer : Bool) (fs : List PositionalField) :
    Except DefinitionFault Presentation := do
  match fs.length, ← keptIndices useSerializer 0 fs with
  | 1, [i] => return .transparent i
  | _, is => return .sequence is

def structFields (useSerializer : Bool) (rule : Option RenameRule) :
    Fields → Except DefinitionFault Presentation
  | .named fs => return .record (← namedFields useSerializer rule fs)
  | .positional fs => positionalFields useSerializer fs
  | .unit => return .unitRecord

/-- A variant with data has no plan. The name comes from the attributes of the variant, then from
those of the serializer, then from the rule of the type. -/
def variant (useSerializer : Bool) (rule : Option RenameRule) (v : Variant) :
    Except DefinitionFault VariantPlan :=
  match v.fields with
  | .unit =>
    match VariantAttributes.read v.attributes with
    | .error fs => .error (.variantAttributes fs)
    | .ok a =>
      let other := if useSerializer then (SerializerVariant.read v.attributes).rename else none
      let name :=
        match a.rename, other with
        | none, some n => n
        | _, _ => a.emittedName rule v.name
      .ok ⟨v.name, name⟩
  | _ => .error (.dataVariant v.name)

/-- How a type is shown: as one text if its attributes say so, else by its fields or variants. -/
def rendering (a : ContainerAttributes) (content : Except DefinitionFault Presentation) :
    Except DefinitionFault Presentation :=
  if a.display && a.error then .error .conflictingRendering
  else if a.display then .ok .display
  else if a.error then .ok .error
  else content

namespace Plan

/-- The plan of a struct. -/
def ofStruct (useSerializer : Bool) (d : Definition) : Except DefinitionFault Plan :=
  match ContainerAttributes.read d with
  | .error fs => .error (.containerAttributes fs)
  | .ok a =>
    match d.body with
    | .enum _ => .error (.notAStruct "enum")
    | .union => .error (.notAStruct "union")
    | .struct fields => do
      let rule := renameAll useSerializer a d.attributes
      let p ← rendering a (structFields useSerializer rule fields)
      return ⟨d.name, d.generics, p⟩

/-- The plan of an enum. -/
def ofEnum (useSerializer : Bool) (d : Definition) : Except DefinitionFault Plan :=
  match ContainerAttributes.read d with
  | .error fs => .error (.containerAttributes fs)
  | .ok a =>
    match d.body with
    | .struct _ => .error (.notAnEnum "struct")
    | .union => .error (.notAnEnum "union")
    | .enum vs => do
      let rule := renameAll useSerializer a d.attributes
      let p ← rendering a ((vs.mapM (variant useSerializer rule)).map .unitEnum)
      return ⟨d.name, d.generics, p⟩

/-- The plan of any definition but a union. -/
def ofDefinition (useSerializer : Bool) (d : Definition) : Except DefinitionFault Plan :=
  match d.body with
  | .struct _ => ofStruct useSerializer d
  | .enum _ => ofEnum useSerializer d
  | .union => .error .union

end Plan

end Abridge.Derive

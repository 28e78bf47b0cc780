import Abridge.Derive.Rename
import Abridge.Derive.Serializer.Keys

/-!
The attributes of a serializer that the same type may have, read for names and skipped fields.
-/
namespace Abridge.Derive

structure SerializerContainer where
  renameAll : Option RenameRule

namespace SerializerContainer

/-- A name that is no rule takes an earlier rule away. -/
def keys : SerializerKeys SerializerContainer where
  nameKey := "rename_all"
  setName n _ := ⟨RenameRule.ofSpelling? n⟩
  flag? _ := none

def read (attributes : List Attribute) : SerializerContainer := keys.read ⟨none⟩ attributes

end SerializerContainer

structure SerializerField where
  rename : Option String
  skip : Bool
  skipSerializing : Bool

namespace SerializerField

def keys : SerializerKeys SerializerField where
  nameKey := "rename"
  setName n s := { s with rename := some n }
  flag? k :=
    if k = "skip" then some fun s => { s with skip := true }
    else if k = "skip_serializing" then some fun s => { s with skipSerializing := true }
    else none

def read (attributes : List Attribute) : SerializerField :=
  keys.read ⟨none, false, false⟩ attributes

/-- A field that is never written is never emitted. -/
def shouldSkip (s : SerializerField) : Bool := s.skip || s.skipSerializing

/-- Name and flag of a field: a name given by the field's own attributes comes first, and either
side can skip. -/
def merge (rename : Option String) (skip : Bool) (s : SerializerField) : Option String × Bool :=
  (rename.or s.rename, skip || s.shouldSkip)

end SerializerField

structure SerializerVariant where
  rename : Option String

namespace SerializerVariant

def keys : SerializerKeys SerializerVariant where
  nameKey := "rename"
  setName n _ := ⟨some n⟩
  flag? _ := none

def read (attributes : List Attribute) : SerializerVariant := keys.read ⟨none⟩ attributes

end SerializerVariant

end Abridge.Derive

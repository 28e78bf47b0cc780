import Abridge.Derive.Entry
import Abridge.Derive.Fault
import Abridge.Derive.Rename

/-!
Reading `trim` attributes. The entries of all of them are read in order and every fault is kept, so
that one reading reports all that is wrong.
-/
namespace Abridge.Derive

/-! ### Values of entries -/

/-- A text. -/
def Entry.textValue : Entry → Except ItemCause String
  | .value _ (.literal (.text s)) => .ok s
  | .value _ e => .error (.wrongType e.kindName)
  | .word _ => .error (.wrongForm "word")
  | .list _ _ => .error (.wrongForm "list")
  | .brokenList _ f => .error (.malformed f)
  | .lone => .error (.wrongForm "literal")

/-- A flag: the word alone sets it. -/
def Entry.flagValue : Entry → Except ItemCause Bool
  | .word _ => .ok true
  | .value _ (.literal (.bool b)) => .ok b
  | .value _ (.literal (.text s)) =>
    if s = "true" then .ok true
    else if s = "false" then .ok false
    else .error (.unknownValue s [])
  | .value _ e => .error (.wrongType e.kindName)
  | .list _ _ => .error (.wrongForm "list")
  | .brokenList _ f => .error (.malformed f)
  | .lone => .error (.wrongForm "literal")

def ruleNames : List String := RenameRule.all.map RenameRule.spelling

/-- The rule that the single entry of a list names. -/
def ruleOfEntries : List Entry → Except ItemCause RenameRule
  | [] => .error .tooFew
  | [e] =>
    match e.key? with
    | none => .error (.wrongForm "literal")
    | some k =>
      match RenameRule.ofSpelling? k with
      | none => .error (.unknownKey k ruleNames)
      | some r => if e.isWord then .ok r else .error (.wrongForm "non-path")
  | _ => .error .tooMany

/-- A rule, as a text or as the only word of a list. -/
def Entry.ruleValue : Entry → Except ItemCause RenameRule
  | .value _ (.literal (.text s)) =>
    match RenameRule.ofSpelling? s with
    | some r => .ok r
    | none => .error (.unknownValue s ruleNames)
  | .value _ e => .error (.wrongType e.kindName)
  | .list _ es => ruleOfEntries es
  | .word _ => .error (.wrongForm "word")
  | .brokenList _ f => .error (.malformed f)
  | .lone => .error (.wrongForm "literal")

/-! ### Entries of all attributes -/

/-- How the attributes of one kind of place are read: the keys known there, and what the entry of a
known key changes. -/
structure Reader (σ : Type) where
  keys : List String
  read : String → Entry → σ → Except ItemCause σ

/-- What has been read so far. -/
structure Progress (σ : Type) where
  result : σ
  seen : List String
  faults : List ItemFault

variable {σ : Type}

def Progress.fail (p : Progress σ) (f : ItemFault) : Progress σ :=
  { p with faults := p.faults ++ [f] }

/-- One entry. A key counts as used even if its value is refused. -/
def Reader.entry (r : Reader σ) (p : Progress σ) (e : Entry) : Progress σ :=
  match e.key? with
  | none => p.fail ⟨.wrongForm "literal", none⟩
  | some k =>
    if !r.keys.contains k then p.fail ⟨.unknownKey k r.keys, none⟩
    else if p.seen.contains k then p.fail ⟨.duplicate k, none⟩
    else
      let p := { p with seen := k :: p.seen }
      match r.read k e p.result with
      | .ok s => { p with result := s }
      | .error c => p.fail ⟨c, some k⟩

/-- The attributes that are read here. -/
def trimPath : String := "trim"

def Reader.attribute (r : Reader σ) (p : Progress σ) (a : Attribute) : Progress σ :=
  if a.path = trimPath then
    match a.arguments with
    | .nothing => p
    | .equals _ => p.fail ⟨.valueGiven a.path, none⟩
    | .items is =>
      match entriesOfItems is with
      | .ok es => es.foldl r.entry p
      | .error f => p.fail ⟨.malformed f, none⟩
  else p

/-- All attributes, on top of what holds without any. -/
def Reader.all (r : Reader σ) (start : σ) (attributes : List Attribute) : Progress σ :=
  attributes.foldl r.attribute ⟨start, [], []⟩

def Progress.finish (p : Progress σ) : Except (List ItemFault) σ :=
  if p.faults.isEmpty then .ok p.result else .error p.faults

/-! ### Attributes of types, fields and variants -/

structure ContainerAttributes where
  renameAll : Option RenameRule
  display : Bool
  error : Bool

namespace ContainerAttributes

/-- The type is shown as one text instead of being looked into. -/
def isRendered (a : ContainerAttributes) : Bool := a.display || a.error

def reader : Reader ContainerAttributes where
  keys := ["rename_all", "display", "error"]
  read k e a :=
    if k = "rename_all" then return { a with renameAll := some (← e.ruleValue) }
    else if k = "display" then return { a with display := ← e.flagValue }
    else return { a with error := ← e.flagValue }

/-- The attributes of a definition. A union has none, which is a fault after all others. -/
def read (d : Definition) : Except (List ItemFault) ContainerAttributes :=
  let p := reader.all ⟨none, false, false⟩ d.attributes
  match d.body with
  | .union => (p.fail ⟨.unsupported "union", none⟩).finish
  | _ => p.finish

end ContainerAttributes

structure FieldAttributes where
  rename : Option String
  skip : Bool
  tag : Option String

namespace FieldAttributes

def reader : Reader FieldAttributes where
  keys := ["rename", "skip", "tag"]
  read k e a :=
    if k = "rename" then return { a with rename := some (← e.textValue) }
    else if k = "skip" then return { a with skip := ← e.flagValue }
    else return { a with tag := some (← e.textValue) }

def read (attributes : List Attribute) : Except (List ItemFault) FieldAttributes :=
  (reader.all ⟨none, false, none⟩ attributes).finish

/-- The given name, or the declared name under the rule of the type. -/
def emittedName (a : FieldAttributes) (rule : Option RenameRule) (declared : String) : String :=
  a.rename.getD (RenameRule.applyOption rule declared)

end FieldAttributes

structure VariantAttributes where
  rename : Option String

namespace VariantAttributes

def reader : Reader VariantAttributes where
  keys := ["rename"]
  read _ e _ := return ⟨some (← e.textValue)⟩

def read (attributes : List Attribute) : Except (List ItemFault) VariantAttributes :=
  (reader.all ⟨none⟩ attributes).finish

/-- The given name, or the identifier under the rule of the type. -/
def emittedName (a : VariantAttributes) (rule : Option RenameRule) (identifier : String) : String :=
  a.rename.getD (RenameRule.applyOption rule identifier)

end VariantAttributes

end Abridge.Derive

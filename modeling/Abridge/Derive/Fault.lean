import Abridge.Derive.Similar
import Abridge.Derive.Syntax.Reading
import Abridge.Policy

/-!
What is wrong with a type definition, and the diagnostics that say so.
-/
namespace Abridge.Derive

/-- What is wrong with one item of an attribute. -/
inductive ItemCause where
  /-- A key that is not known here. -/
  | unknownKey (key : String) (known : List String)
  /-- A value that is none of the known ones. -/
  | unknownValue (value : String) (known : List String)
  /-- The second use of a key. -/
  | duplicate (key : String)
  /-- An item of the wrong form. -/
  | wrongForm (form : String)
  /-- A value of the wrong type. -/
  | wrongType (type : String)
  | tooFew
  | tooMany
  /-- An attribute given a value instead of items. -/
  | valueGiven (path : String)
  /-- A kind of type that has no attributes to read. -/
  | unsupported (kind : String)
  /-- Items that cannot be read. -/
  | malformed (fault : SyntaxFault)
  | other (message : String)

namespace ItemCause

/-- Either the most similar known name, of several the first in order, or all of them in order. -/
def alternatives (name : String) (known : List String) : String :=
  let names := nameSet known
  match suggestion? name names with
  | some s => ". Did you mean `" ++ s ++ "`?"
  | none =>
    if names.isEmpty then ""
    else ". Available values: " ++ String.intercalate ", " (names.map fun n => "`" ++ n ++ "`")

def message : ItemCause → String
  | .unknownKey k known => "Unknown field: `" ++ k ++ "`" ++ alternatives k known
  | .unknownValue v known => "Unknown value: `" ++ v ++ "`" ++ alternatives v known
  | .duplicate k => "Duplicate field `" ++ k ++ "`"
  | .wrongForm f => "Unexpected meta-item format `" ++ f ++ "`"
  | .wrongType t => "Unexpected type `" ++ t ++ "`"
  | .tooFew => "Too few items: Expected at least 1"
  | .tooMany => "Too many items: Expected no more than 1"
  | .valueGiven path =>
    "Name-value arguments are not supported. Use #[" ++ path ++ "(...)]"
  | .unsupported kind =>
    "Unsupported shape `" ++ kind ++ "`. Expected struct with named fields, unnamed fields, or " ++
      "no fields or enum with named fields, unnamed fields, or no fields."
  | .malformed f => f.message
  | .other m => m

end ItemCause

/-- A cause, and the key at which it was met. -/
structure ItemFault where
  cause : ItemCause
  key : Option String

def ItemFault.message (f : ItemFault) : String :=
  match f.key with
  | some k => f.cause.message ++ " at " ++ k
  | none => f.cause.message

/-- One fault stands alone; several are listed. -/
def faultsMessage : List ItemFault → String
  | [f] => f.message
  | fs => "Multiple errors: (" ++ String.intercalate ", " (fs.map ItemFault.message) ++ ")"

/-- Why a definition has no presentation. -/
inductive DefinitionFault where
  | union
  | containerAttributes (faults : List ItemFault)
  | fieldAttributes (faults : List ItemFault)
  | variantAttributes (faults : List ItemFault)
  | notAStruct (found : String)
  | notAnEnum (found : String)
  | namelessField (index : Nat)
  | dataVariant (name : String)
  | conflictingRendering

namespace DefinitionFault

def message : DefinitionFault → String
  | .union => "Trim cannot be derived for unions"
  | .containerAttributes fs => "Failed to parse container attributes: " ++ faultsMessage fs
  | .fieldAttributes fs => "Failed to parse field attributes: " ++ faultsMessage fs
  | .variantAttributes fs => "Failed to parse variant attributes: " ++ faultsMessage fs
  | .notAStruct found => "Expected struct, found " ++ found
  | .notAnEnum found => "Expected enum, found " ++ found
  | .namelessField i => "Field at index " ++ toString i ++ " has no identifier"
  | .dataVariant name =>
    "Variant '" ++ name ++ "' carries data, which has no structural form"
  | .conflictingRendering => "`display` and `error` cannot be combined"

/-- What the author of the definition might do. -/
def advice : DefinitionFault → List String
  | .conflictingRendering => ["keep only one of `display` and `error`"]
  | .dataVariant _ =>
    ["add #[trim(display)] to log the Display form, or #[trim(error)] for an error type"]
  | _ => []

end DefinitionFault

/-- A message with suggestions. -/
structure Diagnostic where
  message : String
  suggestions : List String

namespace Diagnostic

def new (message : String) : Diagnostic := ⟨message, []⟩

def ofFault (f : DefinitionFault) : Diagnostic := ⟨f.message, f.advice⟩

def suggest (d : Diagnostic) (s : String) : Diagnostic :=
  { d with suggestions := d.suggestions ++ [s] }

/-- Message and suggestions as one text. -/
def text (d : Diagnostic) : String :=
  if d.suggestions.isEmpty then d.message
  else d.message ++ "\nSuggestions:" ++ String.join (d.suggestions.map fun s => "\n  - " ++ s)

/-- Message and suggestions as separate errors of a compiler. -/
def errors (d : Diagnostic) : List String :=
  d.message :: d.suggestions.map fun s => "suggestion: " ++ s

end Diagnostic

end Abridge.Derive

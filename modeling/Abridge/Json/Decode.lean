import Abridge.Json

/-!
Reading typed data out of a JSON document: what was found where something else was expected. A
record is read from an object, whose unknown members are ignored, or from an array with its fields
in order; the members of an object are visited in the order of their keys, so that the first bad one
in that order is the one named.
-/
namespace Abridge

/-- Why a document does not hold the data. -/
inductive Mismatch where
  | wrongType (found : Json) (expected : String)
  /-- An integer that the expected type cannot hold. -/
  | wrongInteger (z : Int) (expected : String)
  /-- Not an object with exactly one member. -/
  | wrongMap (expected : String)
  | wrongLength (length : Nat) (expected : String)
  | missingField (name : String)
  | unknownVariant (name : String) (known : List String)

namespace Json

/-- The kind of a document, with its value if it is short. -/
def described : Json → String
  | .null => "null"
  | .bool b => "boolean `" ++ (if b then "true" else "false") ++ "`"
  | .integer z => "integer `" ++ toString z ++ "`"
  | .float x => "floating point `" ++ String.ofList (x.text .json) ++ "`"
  | .text s => "string " ++ Text.inspectQuoted s
  | .array _ => "sequence"
  | .object _ => "map"

end Json

namespace Mismatch

/-- Names in backticks, separated by commas. -/
def quotedNames (names : List String) : String :=
  String.intercalate ", " (names.map fun n => "`" ++ n ++ "`")

def message : Mismatch → String
  | .wrongType found expected => "invalid type: " ++ found.described ++ ", expected " ++ expected
  | .wrongInteger z expected =>
    "invalid value: integer `" ++ toString z ++ "`, expected " ++ expected
  | .wrongMap expected => "invalid value: map, expected " ++ expected
  | .wrongLength n expected => "invalid length " ++ toString n ++ ", expected " ++ expected
  | .missingField name => "missing field `" ++ name ++ "`"
  | .unknownVariant name known =>
    "unknown variant `" ++ name ++ "`, expected one of " ++ quotedNames known

end Mismatch

namespace Json

/-- A signed 64-bit integer. -/
def signed : Json → Except Mismatch Int
  | .integer z => if z ≤ Word.maxSigned then .ok z else .error (.wrongInteger z "i64")
  | d => .error (.wrongType d "i64")

/-- A float, or the nearest one to an integer. -/
def double : Json → Except Mismatch Binary64
  | .integer z => .ok (Binary64.ofInt z)
  | .float x => .ok x
  | d => .error (.wrongType d "f64")

def string : Json → Except Mismatch String
  | .text s => .ok s
  | d => .error (.wrongType d "a string")

/-- A list of texts. -/
def strings : Json → Except Mismatch (List String)
  | .array xs => xs.mapM string
  | d => .error (.wrongType d "a sequence")

/-- More items than fields. -/
def tooLong (items : List Json) : Mismatch :=
  .wrongLength items.length "fewer elements in array"

end Json

end Abridge

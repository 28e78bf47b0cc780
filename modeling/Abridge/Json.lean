import Abridge.Binary64.Text
import Abridge.Entries
import Abridge.Text.Quoted

/-!
JSON documents and their compact text: no blanks, and the members of an object in the order of
their keys.
-/
namespace Abridge

/-! ### Words of 64 bits, with and without a sign -/

namespace Word

/-- The smallest signed word. -/
def minSigned : Int := -9223372036854775808

/-- The largest signed word. -/
def maxSigned : Nat := 9223372036854775807

/-- The largest unsigned word. -/
def maxUnsigned : Nat := 18446744073709551615

/-- Does a signed word hold the number? -/
def holdsSigned (z : Int) : Bool := decide (minSigned ≤ z) && decide (z ≤ maxSigned)

end Word

/-! ### Documents -/

/-- A JSON document. Integers are those that a 64-bit word holds, with or without sign; every other
number is a float. -/
inductive Json where
  | null
  | bool (b : Bool)
  | integer (z : Int)
  | float (x : Binary64)
  | text (s : String)
  | array (items : List Json)
  | object (members : List (String × Json))

namespace Json

/-- Decimal digits behind the sign, if there is one. -/
def integerText (z : Int) : List Char :=
  if z < 0 then '-' :: Nat.toDigits 10 z.natAbs else Nat.toDigits 10 z.toNat

/-- A number that is not finite has no text of its own. -/
def floatText (x : Binary64) : List Char :=
  if x.isFinite then x.text .json else ['n', 'u', 'l', 'l']

mutual

def chars : Json → List Char
  | .null => ['n', 'u', 'l', 'l']
  | .bool true => ['t', 'r', 'u', 'e']
  | .bool false => ['f', 'a', 'l', 's', 'e']
  | .integer z => integerText z
  | .float x => floatText x
  | .text s => Text.jsonQuoted s.toList
  | .array xs => '[' :: (itemChars xs ++ [']'])
  | .object es => '\x7b' :: (memberChars es ++ ['\x7d'])

def itemChars : List Json → List Char
  | [] => []
  | [x] => chars x
  | x :: y :: rest => chars x ++ ',' :: itemChars (y :: rest)

def memberChars : List (String × Json) → List Char
  | [] => []
  | [(k, x)] => Text.jsonQuoted k.toList ++ ':' :: chars x
  | (k, x) :: y :: rest =>
    Text.jsonQuoted k.toList ++ ':' :: (chars x ++ ',' :: memberChars (y :: rest))

end

/-- The compact text of a document. -/
def render (d : Json) : String := String.ofList d.chars

/-- The member `k` of an object. -/
def member? (k : String) : Json → Option Json
  | .object es => Entries.find? k es
  | _ => none

end Json

end Abridge

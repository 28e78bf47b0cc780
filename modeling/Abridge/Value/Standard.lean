import Abridge.Address
import Abridge.Json
import Abridge.Json.Reader
import Abridge.Text.Utf8
import Abridge.Value

/-!
How data of common kinds show themselves: numbers of any width, JSON documents, maps and sets, times
and addresses, and the errors of reading numbers and text.
-/
namespace Abridge

/-- Keys of maps: which comes before which, and the text of one. -/
class MapKey (κ : Type) where
  before : κ → κ → Bool
  text : κ → String

instance : MapKey String := ⟨fun a b => decide (a < b), id⟩

instance : MapKey Bool := ⟨fun a b => !a && b, toString⟩

instance : MapKey Char := ⟨fun a b => decide (a < b), Char.toString⟩

/-- Integers of any width. -/
instance : MapKey Int := ⟨fun a b => decide (a < b), toString⟩

instance : MapKey Uuid := ⟨fun a b => decide (a.text < b.text), Uuid.text⟩

namespace Value

/-- A signed integer of any width; one that a 64-bit word cannot hold shows its digits. -/
def ofInt (z : Int) : Value :=
  if Word.holdsSigned z then .scalar (.int z) else .text (toString z)

/-- An unsigned integer of any width. -/
def ofNat (n : Nat) : Value :=
  if n ≤ Word.maxUnsigned then .scalar (.uint n) else .text (toString n)

def ofError (message : String) : Value := .special (.error message)

/-- A value with a text of its own, such as an address. -/
def ofText (s : String) : Value := .special (.text s)

/-- A missing value is absent, a present one optional. -/
def ofOption : Option Value → Value
  | none => .absent
  | some v => .optional v

/-! ### JSON documents -/

mutual

/-- Null is absent; an integer is unsigned only if it must be. -/
def ofJson : Json → Value
  | .null => .absent
  | .bool b => .scalar (.bool b)
  | .integer z => if z ≤ Word.maxSigned then .scalar (.int z) else .scalar (.uint z.toNat)
  | .float x => .scalar (.float x)
  | .text s => .scalar (.text s)
  | .array xs => .seq xs.length (ofItems xs)
  | .object es => .map (ofMembers es)

def ofItems : List Json → List Value
  | [] => []
  | x :: xs => ofJson x :: ofItems xs

def ofMembers : List (String × Json) → List (String × Value)
  | [] => []
  | (k, x) :: es => (k, ofJson x) :: ofMembers es

end

/-! ### Maps and sets -/

/-- Inserts into a list in the order of `key`, in place of an equal one. -/
def insertBy {α κ : Type} (before : κ → κ → Bool) (key : α → κ) (x : α) : List α → List α
  | [] => [x]
  | y :: rest =>
    if before (key x) (key y) then x :: y :: rest
    else if before (key y) (key x) then y :: insertBy before key x rest
    else x :: rest

/-- In the order of their keys, the last of several with the same key. -/
def orderBy {α κ : Type} (before : κ → κ → Bool) (key : α → κ) (xs : List α) : List α :=
  xs.foldl (fun acc x => insertBy before key x acc) []

/-- A map with keys of one type, in their order; each is shown by its text. -/
def ofKeyed {κ : Type} [MapKey κ] (es : List (κ × Value)) : Value :=
  .map ((orderBy MapKey.before Prod.fst es).map fun (k, v) => (MapKey.text k, v))

/-- A set of texts. -/
def ofTextSet (xs : List String) : Value :=
  .list ((orderBy (fun a b : String => decide (a < b)) id xs).map .text)

/-- A set of integers. -/
def ofIntSet (xs : List Int) : Value :=
  .list ((orderBy (fun a b : Int => decide (a < b)) id xs).map ofInt)

/-! ### Times -/

def ofSpan (d : Span) : Value := .special (.span d)

def ofStamp (t : Stamp) : Value := .special (.stamp t)

def ofDelta (d : Delta) : Value :=
  match d.span? with
  | some s => ofSpan s
  | none => ofText d.negativeText

/-- The panic of a time that no clock can show. -/
def noSuchTime : Fault := .text "No such local time"

/-- A time given by its distance from the start of 1970. -/
def ofClock (before : Bool) (d : Span) : Value :=
  match if before then Stamp.beforeEpoch? d.secs d.nanos else Stamp.ofEpoch? d.secs d.nanos with
  | some t => ofStamp t
  | none => .faulty noSuchTime

/-! ### Errors of reading -/

/-- Digits of a 32-bit integer, added to or taken from `n`. The value so far is checked at every
digit, after the digit itself. -/
def intFaultFrom (negative : Bool) (n : Int) : List Char → Option String
  | [] => none
  | c :: rest =>
    if !c.isDigit then some "invalid digit found in string"
    else
      let d : Int := (c.toNat - 48 : Nat)
      let m := if negative then n * 10 - d else n * 10 + d
      if m < -2147483648 then some "number too small to fit in target type"
      else if 2147483647 < m then some "number too large to fit in target type"
      else intFaultFrom negative m rest

/-- Why a text is no 32-bit integer, if it is none. -/
def intFault? (s : String) : Option String :=
  match s.toList with
  | [] => some "cannot parse integer from empty string"
  | ['-'] => some "invalid digit found in string"
  | ['+'] => some "invalid digit found in string"
  | '-' :: ds => intFaultFrom true 0 ds
  | '+' :: ds => intFaultFrom false 0 ds
  | ds => intFaultFrom false 0 ds

/-- Why a text that is no float is none. -/
def floatFault (s : String) : String :=
  if s = "" then "cannot parse float from empty string" else "invalid float literal"

end Value

end Abridge

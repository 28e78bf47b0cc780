import Abridge.Text.Character

/-!
Literals of a source text: which kind one is, and what a text literal stands for.
-/
namespace Abridge.Derive

inductive Literal where
  | text (s : String)
  | bytes
  | terminated
  | byte
  | char
  | int
  | float
  | bool (b : Bool)

namespace Literal

/-! ### Text literals -/

def hexValue (c : Char) : Nat :=
  if c.isDigit then c.toNat - 48 else if c.isUpper then c.toNat - 55 else c.toNat - 87

/-- The number that hexadecimal digits stand for; gaps do not count. -/
def hexNumber (cs : List Char) : Nat :=
  (cs.filter (· ≠ '_')).foldl (fun n c => n * 16 + hexValue c) 0

/-- The letters that stand for a character behind a backslash. -/
def simpleEscape (c : Char) : Char :=
  match c with
  | 'n' => '\n'
  | 'r' => '\r'
  | 't' => '\t'
  | '0' => '\x00'
  | c => c

/-- The characters that the inside of a text literal stands for, up to its closing quotation mark.
A backslash at the end of a line takes the blanks that follow away. Every step uses up a character,
so the length of the literal is fuel enough. -/
def unescape : Nat → List Char → List Char
  | 0, _ => []
  | _ + 1, [] => []
  | n + 1, '\\' :: 'x' :: a :: b :: rest => Char.ofNat (hexNumber [a, b]) :: unescape n rest
  | n + 1, '\\' :: 'u' :: rest =>
    Char.ofNat (hexNumber ((rest.drop 1).takeWhile (· ≠ '\x7d'))) ::
      unescape n ((rest.dropWhile (· ≠ '\x7d')).drop 1)
  | n + 1, '\\' :: c :: rest =>
    if c = '\n' ∨ c = '\r' then unescape n (rest.dropWhile Text.isBlank)
    else simpleEscape c :: unescape n rest
  | n + 1, '\r' :: '\n' :: rest => '\n' :: unescape n rest
  | n + 1, c :: rest => if c = '"' then [] else c :: unescape n rest

/-- What comes before the first place where `closing` stands. -/
def upTo (closing : List Char) : List Char → List Char
  | [] => []
  | c :: rest => if closing.isPrefixOf (c :: rest) then [] else c :: upTo closing rest

/-- The inside of a raw text literal, from behind the letter that announces it. -/
def rawBody (cs : List Char) : List Char :=
  upTo ('"' :: cs.takeWhile (· = '#')) ((cs.dropWhile (· = '#')).drop 1)

/-! ### Kinds -/

/-- Behind the digits of a whole number, does a part follow that makes it a float? A letter that is
no power of ten begins a suffix. -/
def isFloat (cs : List Char) : Bool :=
  match cs.dropWhile fun c => c.isDigit || c = '_' with
  | '.' :: _ => true
  | e :: rest =>
    (e = 'e' || e = 'E') &&
      ((rest.dropWhile (· = '_')).head?.any fun c => c.isDigit || c = '+' || c = '-')
  | [] => false

/-- The literal that a number stands for; only decimal numbers can be floats. -/
def ofNumber (cs : List Char) : Literal :=
  match cs with
  | '0' :: 'x' :: _ => .int
  | '0' :: 'o' :: _ => .int
  | '0' :: 'b' :: _ => .int
  | _ => if isFloat cs then .float else .int

/-- The base of a whole number and its text from behind the mark for that base. -/
def baseAndDigits (cs : List Char) : Nat × List Char :=
  match cs with
  | '0' :: 'x' :: rest => (16, rest)
  | '0' :: 'o' :: rest => (8, rest)
  | '0' :: 'b' :: rest => (2, rest)
  | _ => (10, cs)

/-- A whole number as its value and the suffix behind its digits. -/
def wholeNumber (s : String) : Nat × String :=
  let (base, cs) := baseAndDigits s.toList
  let isDigit (c : Char) : Bool :=
    c.isDigit || c = '_' || (base = 16 && "abcdefABCDEF".toList.contains c)
  let digits := (cs.takeWhile isDigit).filter (· ≠ '_')
  (digits.foldl (fun n c => n * base + hexValue c) 0, String.ofList (cs.dropWhile isDigit))

/-- The literal that is written so. -/
def ofSource (s : String) : Literal :=
  match s.toList with
  | '"' :: rest => .text (String.ofList (unescape s.length rest))
  | 'r' :: rest => .text (String.ofList (rawBody rest))
  | 'b' :: '\'' :: _ => .byte
  | 'b' :: _ => .bytes
  | 'c' :: _ => .terminated
  | '\'' :: _ => .char
  | cs => ofNumber cs

/-- What a refusal calls the kind. -/
def kindName : Literal → String
  | .text _ => "string"
  | .bytes => "byte string"
  | .terminated => "unknown"
  | .byte => "byte"
  | .char => "char"
  | .int => "int"
  | .float => "float"
  | .bool _ => "bool"

end Literal

end Abridge.Derive

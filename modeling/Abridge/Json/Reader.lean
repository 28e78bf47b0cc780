import Abridge.Json

/-!
Reading the text of a JSON document. The members of an object are put in the order of their keys,
the last of several equal keys wins, and a text that is no document is refused with the place where
reading stopped.
-/
namespace Abridge.Json

/-- Why a text is no document. -/
inductive Cause where
  | endInValue | endInArray | endInObject | endInString
  | expectedValue | expectedIdent | expectedColon | expectedItemEnd | expectedMemberEnd
  | keyNotText | trailingComma | trailingCharacters
  | badNumber | numberTooLarge | badEscape | loneSurrogate | pairCutShort | controlInString
  | tooDeep
  deriving DecidableEq

def Cause.message : Cause → String
  | .endInValue => "EOF while parsing a value"
  | .endInArray => "EOF while parsing a list"
  | .endInObject => "EOF while parsing an object"
  | .endInString => "EOF while parsing a string"
  | .expectedValue => "expected value"
  | .expectedIdent => "expected ident"
  | .expectedColon => "expected `:`"
  | .expectedItemEnd => "expected `,` or `]`"
  | .expectedMemberEnd => "expected `,` or `\x7d`"
  | .keyNotText => "key must be a string"
  | .trailingComma => "trailing comma"
  | .trailingCharacters => "trailing characters"
  | .badNumber => "invalid number"
  | .numberTooLarge => "number out of range"
  | .badEscape => "invalid escape"
  | .loneSurrogate => "lone leading surrogate in hex escape"
  | .pairCutShort => "unexpected end of hex escape"
  | .controlInString => "control character (\\u0000-\\u001F) found while parsing a string"
  | .tooDeep => "recursion limit exceeded"

/-- Reading stopped with `left` bytes to go; the first `blamed` of them belong to the place that is
reported. -/
structure Stop where
  cause : Cause
  left : Nat
  blamed : Nat

def sizeInBytes (cs : List Char) : Nat := cs.foldl (fun n c => n + c.utf8Size) 0

/-- The next byte is to blame. -/
def stopAt {α : Type} (c : Cause) (rest : List Char) : Except Stop α :=
  .error ⟨c, sizeInBytes rest, 1⟩

/-- What was read last is to blame. -/
def stopAfter {α : Type} (c : Cause) (rest : List Char) : Except Stop α :=
  .error ⟨c, sizeInBytes rest, 0⟩

namespace Reader

def skipBlanks (cs : List Char) : List Char :=
  cs.dropWhile fun c => c = ' ' || c = '\n' || c = '\t' || c = '\r'

/-! ### Words -/

/-- The rest of a word that stands for a document. -/
def word (d : Json) : List Char → List Char → Except Stop (Json × List Char)
  | [], cs => .ok (d, cs)
  | _ :: _, [] => stopAfter .endInValue []
  | w :: ws, c :: cs => if w = c then word d ws cs else stopAt .expectedIdent (c :: cs)

/-! ### Numbers

A number is read into a 64-bit word of leading digits and a power of ten. Digits behind those that
the word can hold count as zeros. The word becomes a float, which is then multiplied or divided by
the float nearest to the power: two roundings, so that the result is not always the float nearest to
the number.
-/

/-- The digits in front and what follows them. -/
def takeDigits (cs : List Char) : List Char × List Char :=
  (cs.takeWhile Char.isDigit, cs.dropWhile Char.isDigit)

def digitValue (c : Char) : Nat := c.toNat - 48

/-- `n` continued by as many digits as `limit` allows, and the digits that are left. -/
def continued (limit n : Nat) : List Char → Nat × List Char
  | [] => (n, [])
  | c :: rest =>
    let m := n * 10 + digitValue c
    if m ≤ limit then continued limit m rest else (n, c :: rest)

/-- The digits behind the point, if there is one. -/
def fraction (cs : List Char) : Except Stop (Option (List Char) × List Char) :=
  match cs with
  | '.' :: rest =>
    match takeDigits rest with
    | ([], []) => stopAt .endInValue []
    | ([], r) => stopAt .badNumber r
    | (ds, r) => .ok (some ds, r)
  | _ => .ok (none, cs)

/-- An exponent as it is written. -/
structure Exponent where
  negative : Bool
  digits : List Char

/-- The exponent, if there is one. -/
def exponentPart (cs : List Char) : Except Stop (Option Exponent × List Char) :=
  match cs with
  | c :: rest =>
    if c = 'e' ∨ c = 'E' then
      let (negative, rest) : Bool × List Char :=
        match rest with
        | '-' :: r => (true, r)
        | '+' :: r => (false, r)
        | r => (false, r)
      match takeDigits rest, rest with
      | ([], _), [] => stopAfter .endInValue []
      | ([], _), r => stopAt .badNumber r
      | (ds, r), _ => .ok (some ⟨negative, ds⟩, r)
    else .ok (none, cs)
  | [] => .ok (none, cs)

/-- The largest power of ten that a float holds. -/
def largestPower : Int := 308

/-- `x` times a power of ten, if it is finite. A power below all that a float holds is taken in
several divisions; after three of them nothing is left of any 64-bit word. -/
def scaled : Nat → Binary64 → Int → Option Binary64
  | 0, x, _ => some x
  | n + 1, x, exp =>
    if 0 ≤ exp then
      if exp ≤ largestPower then
        let y := x.times (.ofDecimal false 1 exp)
        if y.isFinite then some y else none
      else if x.isZero then some x
      else none
    else if -largestPower ≤ exp then some (x.dividedBy (.ofDecimal false 1 (-exp)))
    else if x.isZero then some x
    else scaled n (x.dividedBy (.ofDecimal false 1 largestPower)) (exp + largestPower)

/-- The digits of an exponent as a number, or where they pass the limit of a signed 32-bit word: the
digits behind that place. -/
def exponentValue (ds : List Char) : Nat × Option (List Char) :=
  match continued 2147483647 0 ds with
  | (n, []) => (n, none)
  | (n, _ :: rest) => (n, some rest)

/-- A float from its leading digits and powers of ten, in front of `rest`. An exponent beyond all
bounds makes zero of a zero and, if it is negative, of every number. -/
def floatOf (negative : Bool) (digits : Nat) (exp : Int) (written : Option Exponent)
    (rest : List Char) : Except Stop Json :=
  let signed (x : Binary64) : Json :=
    .float (if negative then .ofSign true x.bits else x)
  let finish (e : Int) : Except Stop Json :=
    match scaled 4 (.ofRatio false digits 1) e with
    | some x => .ok (signed x)
    | none => stopAfter .numberTooLarge rest
  match written with
  | none => finish exp
  | some w =>
    match exponentValue w.digits with
    | (n, none) => finish (if w.negative then exp - n else exp + n)
    | (_, some unread) =>
      if digits = 0 ∨ w.negative then .ok (signed .zero)
      else stopAfter .numberTooLarge (unread ++ rest)

/-- A number without fraction and exponent is an integer if a 64-bit word holds it. Minus zero is
a float, because no integer has its sign. -/
def numberOf (negative : Bool) (whole : List Char) (frac : Option (List Char))
    (written : Option Exponent) (rest : List Char) : Except Stop Json :=
  let (n, dropped) := continued Word.maxUnsigned 0 whole
  let z : Int := if negative then -(n : Int) else n
  let isWord := dropped = [] ∧ (negative → 0 < n ∧ Word.minSigned ≤ z)
  if frac = none ∧ written.isNone ∧ isWord then .ok (.integer z)
  else
    let fs := frac.getD []
    let (m, ignored) := continued Word.maxUnsigned n fs
    floatOf negative m (dropped.length - (fs.length - ignored.length : Nat)) written rest

/-- A number, from its first digit. -/
def number (negative : Bool) (cs : List Char) : Except Stop (Json × List Char) := do
  match takeDigits cs, cs with
  | ([], _), [] => stopAfter .endInValue []
  | ([], _), r => stopAt .badNumber r
  | (ds, r), _ =>
    if ds.head? = some '0' ∧ 1 < ds.length then stopAt .badNumber (cs.drop 1)
    else
      let (frac, r) ← fraction r
      let (written, r) ← exponentPart r
      .ok (← numberOf negative ds frac written r, r)

/-! ### Strings -/

def hexValue? (c : Char) : Option Nat :=
  if c.isDigit then some (c.toNat - 48)
  else if 'a' ≤ c ∧ c ≤ 'f' then some (c.toNat - 87)
  else if 'A' ≤ c ∧ c ≤ 'F' then some (c.toNat - 55)
  else none

/-- Four hexadecimal digits; four bytes are looked at together. -/
def hexFour (cs : List Char) : Except Stop (Nat × List Char) :=
  match cs.take 4 |>.mapM hexValue? with
  | some [w, x, y, z] => .ok (((w * 16 + x) * 16 + y) * 16 + z, cs.drop 4)
  | _ =>
    if sizeInBytes cs < 4 then stopAfter .endInString []
    else .error ⟨.badEscape, sizeInBytes cs, 4⟩

/-- The lower half of a pair, for its upper half `n`. -/
def lowerHalf (n : Nat) (cs : List Char) : Except Stop (Char × List Char) := do
  match cs with
  | [] => stopAfter .endInString []
  | '\\' :: r =>
    match r with
    | [] => stopAfter .endInString []
    | 'u' :: r' =>
      let (m, rest) ← hexFour r'
      if 0xdc00 ≤ m ∧ m < 0xe000 then
        .ok (Char.ofNat (0x10000 + (n - 0xd800) * 1024 + (m - 0xdc00)), rest)
      else stopAfter .loneSurrogate rest
    | r' => stopAt .pairCutShort r'
  | r => stopAt .pairCutShort r

/-- The character after a backslash and `u`; a code of the upper half of a pair needs the lower half
behind it. -/
def escaped (cs : List Char) : Except Stop (Char × List Char) := do
  let (n, rest) ← hexFour cs
  if 0xd800 ≤ n ∧ n < 0xdc00 then lowerHalf n rest
  else if 0xdc00 ≤ n ∧ n < 0xe000 then stopAfter .loneSurrogate rest
  else .ok (Char.ofNat n, rest)

def simpleEscape? (c : Char) : Option Char :=
  match c with
  | '"' => some '"'
  | '\\' => some '\\'
  | '/' => some '/'
  | 'b' => some '\x08'
  | 'f' => some '\x0c'
  | 'n' => some '\n'
  | 'r' => some '\r'
  | 't' => some '\t'
  | _ => none

/-- The characters up to the closing quotation mark, in reverse behind `acc`. -/
def stringFrom : Nat → List Char → List Char → Except Stop (String × List Char)
  | 0, _, _ => stopAfter .endInString []
  | _ + 1, _, [] => stopAfter .endInString []
  | n + 1, acc, c :: rest =>
    if c = '"' then .ok (String.ofList acc.reverse, rest)
    else if c = '\\' then
      match rest with
      | [] => stopAfter .endInString []
      | 'u' :: r =>
        match escaped r with
        | .ok (d, r') => stringFrom n (d :: acc) r'
        | .error e => .error e
      | e :: r =>
        match simpleEscape? e with
        | some d => stringFrom n (d :: acc) r
        | none => stopAt .badEscape rest
    else if c.toNat < 32 then stopAfter .controlInString rest
    else stringFrom n (c :: acc) rest

/-- A string, from behind its opening quotation mark. -/
def string (cs : List Char) : Except Stop (String × List Char) := stringFrom (cs.length + 1) [] cs

/-! ### Documents -/

/-- A string and the colon behind it. -/
def key (cs : List Char) : Except Stop (String × List Char) := do
  let (k, rest) ← string cs
  match skipBlanks rest with
  | [] => stopAt .endInObject []
  | ':' :: r => .ok (k, r)
  | r => stopAt .expectedColon r

/-- The items of an array, in reverse behind `acc`, from the start of one; `item` reads one. Every
item uses up a character, so the length of the text is fuel enough. -/
def items (item : List Char → Except Stop (Json × List Char)) :
    Nat → List Json → List Char → Except Stop (Json × List Char)
  | 0, _, cs => stopAt .endInArray cs
  | n + 1, acc, cs => do
    let (x, rest) ← item cs
    match skipBlanks rest with
    | [] => stopAt .endInArray []
    | ']' :: r => .ok (.array (x :: acc).reverse, r)
    | ',' :: r =>
      match skipBlanks r with
      | [] => stopAt .endInValue []
      | ']' :: r' => stopAt .trailingComma (']' :: r')
      | _ => items item n (x :: acc) r
    | r => stopAt .expectedItemEnd r

/-- The members of an object on top of `acc`, from behind the opening quotation mark of a key. -/
def members (item : List Char → Except Stop (Json × List Char)) :
    Nat → Entries Json → List Char → Except Stop (Json × List Char)
  | 0, _, cs => stopAt .endInObject cs
  | n + 1, acc, cs => do
    let (k, rest) ← key cs
    let (x, rest) ← item rest
    let acc := Entries.insert k x acc
    match skipBlanks rest with
    | [] => stopAt .endInObject []
    | '\x7d' :: r => .ok (.object acc, r)
    | ',' :: r =>
      match skipBlanks r with
      | [] => stopAt .endInValue []
      | '"' :: r' => members item n acc r'
      | '\x7d' :: r' => stopAt .trailingComma ('\x7d' :: r')
      | r' => stopAt .keyNotText r'
    | r => stopAt .expectedMemberEnd r

/-- A document with at most `depth` arrays and objects around its innermost parts. -/
def value : Nat → List Char → Except Stop (Json × List Char)
  | depth, cs =>
    match skipBlanks cs with
    | [] => stopAt .endInValue []
    | c :: rest =>
      if c = 'n' then word .null ['u', 'l', 'l'] rest
      else if c = 't' then word (.bool true) ['r', 'u', 'e'] rest
      else if c = 'f' then word (.bool false) ['a', 'l', 's', 'e'] rest
      else if c = '"' then do
        let (s, r) ← string rest
        .ok (.text s, r)
      else if c = '-' then number true rest
      else if c.isDigit then number false (c :: rest)
      else if c = '[' then
        match depth with
        | 0 => stopAt .tooDeep (c :: rest)
        | d + 1 =>
          match skipBlanks rest with
          | [] => stopAt .endInArray []
          | ']' :: r => .ok (.array [], r)
          | _ => items (fun r => value d r) (rest.length + 1) [] rest
      else if c = '\x7b' then
        match depth with
        | 0 => stopAt .tooDeep (c :: rest)
        | d + 1 =>
          match skipBlanks rest with
          | [] => stopAt .endInObject []
          | '\x7d' :: r => .ok (.object [], r)
          | '"' :: r => members (fun r => value d r) (rest.length + 1) [] r
          | r => stopAt .keyNotText r
      else stopAt .expectedValue (c :: rest)

end Reader

/-- Cause and place of a refusal; lines count from one, columns are bytes since the line began. -/
structure ReadError where
  cause : Cause
  line : Nat
  column : Nat

def ReadError.message (e : ReadError) : String :=
  e.cause.message ++ " at line " ++ toString e.line ++ " column " ++ toString e.column

/-- The place of a stop in the whole text. -/
def Stop.locate (whole : List Char) (s : Stop) : ReadError :=
  let bytes := whole.flatMap String.utf8EncodeChar
  let seen := bytes.take (bytes.length - s.left + s.blamed)
  ⟨s.cause, 1 + seen.count 10, (seen.reverse.takeWhile (· ≠ 10)).length⟩

/-- Arrays and objects that may lie inside each other. -/
def maxDepth : Nat := 127

/-- The document that a text stands for. -/
def read (s : String) : Except ReadError Json :=
  let cs := s.toList
  match Reader.value maxDepth cs with
  | .error e => .error (e.locate cs)
  | .ok (d, rest) =>
    match Reader.skipBlanks rest with
    | [] => .ok d
    | r => .error (Stop.locate cs ⟨.trailingCharacters, sizeInBytes r, 1⟩)

end Abridge.Json

import Abridge.Derive.Token
import Abridge.Text.Character

/-!
The smallest parts of a source text: words, marks of one character, lifetimes, literals and groups
in brackets. Blanks and comments separate them and are left out, but a comment that documents
something stands for an attribute with its text.
-/
namespace Abridge.Derive

inductive Lexeme where
  /-- A keyword or name. -/
  | word (s : String)
  /-- A mark; `joint` if another mark follows without a gap. -/
  | mark (c : Char) (joint : Bool)
  /-- A lifetime with its apostrophe. -/
  | lifetime (s : String)
  /-- A literal as it is written. -/
  | literal (s : String)
  | group (d : Delimiter) (inner : List Lexeme)

namespace Lexeme

mutual

/-- How many lexemes there are, with those inside of groups. -/
def size : Lexeme → Nat
  | .group _ inner => sizeAll inner + 1
  | _ => 1

def sizeAll : List Lexeme → Nat
  | [] => 0
  | l :: ls => size l + sizeAll ls

end

/-! ### Characters -/

/-- What separates lexemes: blanks and the marks for the direction of writing. -/
def isGap (c : Char) : Bool := Text.isBlank c || c = '\u200e' || c = '\u200f'

def isWordChar (c : Char) : Bool := c.isAlphanum || c = '_' || (127 < c.toNat && !isGap c)

def isWordStart (c : Char) : Bool := isWordChar c && !c.isDigit

def isMarkChar (c : Char) : Bool := "~!@#$%^&*-=+|;:,<.>/?'".toList.contains c

/-- Does a mark follow? The beginning of a comment is none. -/
def markFollows : List Char → Bool
  | '/' :: '/' :: _ => false
  | '/' :: '*' :: _ => false
  | c :: _ => isMarkChar c
  | [] => false

/-- A bracket that opens or closes a group. -/
inductive Bracket where
  | opening (d : Delimiter)
  | closing

def bracket? (c : Char) : Option Bracket :=
  match c with
  | '(' => some (.opening .round)
  | '[' => some (.opening .square)
  | '\x7b' => some (.opening .curly)
  | ')' => some .closing
  | ']' => some .closing
  | '\x7d' => some .closing
  | _ => none

/-! ### Comments -/

/-- What is left behind a comment, which may hold others; `n` of them are open. -/
def afterComment : Nat → List Char → List Char
  | _, [] => []
  | n, '/' :: '*' :: rest => afterComment (n + 1) rest
  | 0, '*' :: '/' :: rest => rest
  | n + 1, '*' :: '/' :: rest => afterComment n rest
  | n, _ :: rest => afterComment n rest

/-- A line without the first half of a line break at its end. -/
def lineText (cs : List Char) : List Char := if cs.getLast? = some '\r' then cs.dropLast else cs

/-- The attribute that documents with a text what follows it or, if `inner`, what it stands in. -/
def documenting (inner : Bool) (text : List Char) : List Lexeme :=
  let content := [.word "doc", .mark '=' false,
    .literal (Text.literalQuoted (String.ofList text))]
  .mark '#' false :: (if inner then [.mark '!' false] else []) ++ [.group .square content]

/-- What the inside of a comment stands for. One that begins with a second `m`, but not with a third
one, documents what follows it, one with an exclamation mark what it stands in. -/
def ofComment (m : Char) : List Char → List Lexeme
  | [] => []
  | c :: text =>
    if c = '!' then documenting true text
    else if c = m ∧ text.head? ≠ some m ∧ (m = '/' ∨ text ≠ []) then documenting false text
    else []

/-! ### Literals

Each function splits off a literal and gives its text and what is left.
-/

/-- What follows a literal without a gap belongs to it. -/
def withSuffix (text : List Char) (rest : List Char) : List Char × List Char :=
  if rest.head?.any isWordStart then
    (text ++ rest.takeWhile isWordChar, rest.dropWhile isWordChar)
  else (text, rest)

/-- Up to and with the closing quotation mark; a backslash takes the next character with it. -/
def quoted (close : Char) : List Char → List Char × List Char
  | [] => ([], [])
  | '\\' :: c :: rest =>
    let (body, rest') := quoted close rest
    ('\\' :: c :: body, rest')
  | c :: rest =>
    if c = close then ([c], rest)
    else
      let (body, rest') := quoted close rest
      (c :: body, rest')

/-- Up to and with a quotation mark that `n` hash signs follow. -/
def rawQuoted (n : Nat) : List Char → List Char × List Char
  | [] => ([], [])
  | c :: rest =>
    if c = '"' ∧ rest.take n = List.replicate n '#' then (c :: rest.take n, rest.drop n)
    else
      let (body, rest') := rawQuoted n rest
      (c :: body, rest')

/-- A raw text, from behind the letter that announces it. -/
def raw? (cs : List Char) : Option (List Char × List Char) :=
  let hashes := cs.takeWhile (· = '#')
  match cs.dropWhile (· = '#') with
  | '"' :: rest =>
    let (body, rest') := rawQuoted hashes.length rest
    some (hashes ++ '"' :: body, rest')
  | _ => none

/-- A character literal, from behind its opening apostrophe. -/
def character? (cs : List Char) : Option (List Char × List Char) :=
  match cs with
  | '\\' :: _ => some (quoted '\'' cs)
  | c :: '\'' :: rest => some ([c, '\''], rest)
  | _ => none

def isDigitOrUnderscore (c : Char) : Bool := c.isDigit || c = '_'

/-- The power of ten behind the letter for it: a sign, if there is one, and digits. -/
def power (signed hasDigit : Bool) : List Char → Option (List Char × List Char)
  | [] => if hasDigit then some ([], []) else none
  | c :: rest =>
    let more (r : Option (List Char × List Char)) := r.map fun (t, rest') => (c :: t, rest')
    if c.isDigit then more (power signed true rest)
    else if c = '_' then more (power signed hasDigit rest)
    else if (c = '+' || c = '-') && !hasDigit then
      if signed then none else more (power true false rest)
    else if hasDigit then some ([], c :: rest)
    else none

/-- A number with a point or a power of ten. A point before a name or another point does not belong
to the number. -/
def float? (cs : List Char) : Option (List Char × List Char) :=
  let whole := cs.takeWhile isDigitOrUnderscore
  let (text, rest, pointed) : List Char × List Char × Bool :=
    match cs.dropWhile isDigitOrUnderscore with
    | '.' :: rest =>
      if rest.head?.any fun c => c = '.' || isWordStart c then (whole, '.' :: rest, false)
      else
        (whole ++ '.' :: rest.takeWhile isDigitOrUnderscore, rest.dropWhile isDigitOrUnderscore,
          true)
    | rest => (whole, rest, false)
  let plain := if pointed then some (text, rest) else none
  match rest with
  | e :: rest' =>
    if e = 'e' ∨ e = 'E' then
      match power false false rest' with
      | some (p, rest'') => some (text ++ e :: p, rest'')
      | none => plain
    else plain
  | [] => plain

def number (cs : List Char) : List Char × List Char :=
  match float? cs with
  | some (text, rest) => withSuffix text rest
  | none => (cs.takeWhile isWordChar, cs.dropWhile isWordChar)

/-- The literal in front, if there is one. -/
def literal? (cs : List Char) : Option (List Char × List Char) :=
  let opened (front : List Char) (r : List Char × List Char) : Option (List Char × List Char) :=
    some (withSuffix (front ++ r.1) r.2)
  match cs with
  | '"' :: rest => opened ['"'] (quoted '"' rest)
  | 'r' :: rest => (raw? rest).bind (opened ['r'])
  | 'b' :: '"' :: rest => opened ['b', '"'] (quoted '"' rest)
  | 'b' :: 'r' :: rest => (raw? rest).bind (opened ['b', 'r'])
  | 'c' :: '"' :: rest => opened ['c', '"'] (quoted '"' rest)
  | 'c' :: 'r' :: rest => (raw? rest).bind (opened ['c', 'r'])
  | 'b' :: '\'' :: rest => (character? rest).bind (opened ['b', '\''])
  | '\'' :: rest => (character? rest).bind (opened ['\''])
  | c :: rest => if c.isDigit then some (number (c :: rest)) else none
  | [] => none

/-! ### Whole texts -/

/-- The name in front, with the mark for one that is a keyword elsewhere, and what is left. -/
def wordText (cs : List Char) : List Char × List Char :=
  match cs with
  | 'r' :: '#' :: rest => ('r' :: '#' :: rest.takeWhile isWordChar, rest.dropWhile isWordChar)
  | _ => (cs.takeWhile isWordChar, cs.dropWhile isWordChar)

/-- A lexeme that is neither a group nor a blank, and what is left. A character that can begin none
is taken alone. -/
def leaf (c : Char) (rest : List Char) : Lexeme × List Char :=
  match literal? (c :: rest) with
  | some (text, rest') => (.literal (String.ofList text), rest')
  | none =>
    if c = '\'' then
      let (text, rest') := wordText rest
      (.lifetime (String.ofList (c :: text)), rest')
    else if isMarkChar c then (.mark c (markFollows rest), rest)
    else if isWordStart c then
      let (text, rest') := wordText (c :: rest)
      (.word (String.ofList text), rest')
    else (.word (String.singleton c), rest)

/-- Lexemes up to the end or a closing bracket, in reverse behind `acc`, and what is left. Every
step uses up a character, so the length of the text is fuel enough. -/
def scanFrom : Nat → List Lexeme → List Char → List Lexeme × List Char
  | 0, acc, cs => (acc.reverse, cs)
  | _ + 1, acc, [] => (acc.reverse, [])
  | n + 1, acc, c :: rest =>
    match c, rest with
    | '/', '/' :: rest' =>
      let inside := lineText (rest'.takeWhile (· ≠ '\n'))
      scanFrom n ((ofComment '/' inside).reverse ++ acc) (rest'.dropWhile (· ≠ '\n'))
    | '/', '*' :: rest' =>
      let behind := afterComment 0 rest'
      let inside := rest'.take (rest'.length - behind.length - 2)
      scanFrom n ((ofComment '*' inside).reverse ++ acc) behind
    | _, _ =>
      if isGap c then scanFrom n acc rest
      else
        match bracket? c with
        | some .closing => (acc.reverse, rest)
        | some (.opening d) =>
          let (inner, rest') := scanFrom n [] rest
          scanFrom n (.group d inner :: acc) rest'
        | none =>
          let (l, rest') := leaf c rest
          scanFrom n (l :: acc) rest'

/-- The lexemes of a text. -/
def scan (s : String) : List Lexeme := (scanFrom (s.length + 1) [] s.toList).1

/-! ### Lexemes as they stand -/

mutual

/-- A lexeme as a token: a mark that another one follows without a gap stays with it. -/
def spelled : Lexeme → Token
  | .word s => .word s
  | .mark c joint => if joint then .joint (String.singleton c) else .mark (String.singleton c)
  | .lifetime s => .mark s
  | .literal s => .literal s
  | .group d inner => .group d (spell inner)

/-- The tokens of lexemes, unchanged. -/
def spell : List Lexeme → List Token
  | [] => []
  | l :: ls => spelled l :: spell ls

end

end Lexeme

end Abridge.Derive

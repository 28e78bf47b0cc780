import Abridge.Derive.Lexeme
import Abridge.Derive.Literal

/-!
Reading lexemes step by step. What is read is written out again at the same time, one token for each
mark of the grammar, so that a reading gives the form in which a text appears in generated code.
-/
namespace Abridge.Derive

/-- What stands in the way of reading a text. -/
inductive SyntaxFault where
  /-- Something is missing; `atEnd` if nothing at all follows. -/
  | expected (what : String) (atEnd : Bool)
  /-- A group holds more than belongs there. -/
  | leftover (d : Delimiter)
  | chainedComparison
  | other (message : String)

namespace SyntaxFault

def closing : Delimiter → String
  | .round => "`)`"
  | .square => "`]`"
  | .curly => "`\x7d`"

def message : SyntaxFault → String
  | .expected what atEnd =>
    (if atEnd then "unexpected end of input, " else "") ++ "expected " ++ what
  | .leftover d => "unexpected token, expected " ++ closing d
  | .chainedComparison => "comparison operators cannot be chained"
  | .other m => m

/-- Alternatives as one text. -/
def oneOf : List String → String
  | [] => ""
  | [a] => a
  | [a, b] => a ++ " or " ++ b
  | as => "one of: " ++ String.intercalate ", " as

end SyntaxFault

namespace Syntax

/-- A reading in progress: what is left of the innermost group, what was written of it, the last
token first, and the first group that was left before its end. -/
structure Reading where
  rest : List Lexeme
  written : List Token
  leftover : Option Delimiter

abbrev Parse (α : Type) : Type := StateT Reading (Except SyntaxFault) α

/-! ### Looking ahead -/

/-- Words that are no names. -/
def keywords : List String := [
  "_", "abstract", "as", "async", "await", "become", "box", "break", "const", "continue",
  "crate", "do", "dyn", "else", "enum", "extern", "false", "final", "fn", "for", "if", "impl",
  "in", "let", "loop", "macro", "match", "mod", "move", "mut", "override", "priv", "pub", "ref",
  "return", "Self", "self", "static", "struct", "super", "trait", "true", "try", "type",
  "typeof", "unsafe", "unsized", "use", "virtual", "where", "while", "yield"]

/-- Do these marks stand in front, without gaps? -/
def seesMarks : List Char → List Lexeme → Bool
  | [], _ => true
  | [c], .mark d _ :: _ => c = d
  | c :: cs, .mark d true :: rest => c = d && seesMarks cs rest
  | _, _ => false

def sees (s : String) (ls : List Lexeme) : Bool := seesMarks s.toList ls

def seesAny (ss : List String) (ls : List Lexeme) : Bool := ss.any fun s => sees s ls

def seesWord (s : String) : List Lexeme → Bool
  | .word w :: _ => w = s
  | _ => false

def seesSomeWord (ss : List String) : List Lexeme → Bool
  | .word w :: _ => ss.contains w
  | _ => false

def seesAnyWord : List Lexeme → Bool
  | .word _ :: _ => true
  | _ => false

def seesName : List Lexeme → Bool
  | .word w :: _ => !keywords.contains w
  | _ => false

def seesLifetime : List Lexeme → Bool
  | .lifetime _ :: _ => true
  | _ => false

def seesGroup (d : Delimiter) : List Lexeme → Bool
  | .group e _ :: _ => d = e
  | _ => false

def isNumber (s : String) : Bool := s.toList.head?.any Char.isDigit

/-- The number in front, whether a minus stands before it, and the lexemes behind it. -/
def number? : List Lexeme → Option (Bool × String × List Lexeme)
  | .literal s :: rest => if isNumber s then some (false, s, rest) else none
  | .mark '-' _ :: .literal s :: rest => if isNumber s then some (true, s, rest) else none
  | _ => none

/-- The literal in front, its tokens and the lexemes behind it. A minus belongs to the number after
it. -/
def literal? : List Lexeme → Option (Literal × List Token × List Lexeme)
  | .literal s :: rest => some (Literal.ofSource s, [.literal s], rest)
  | .word w :: rest =>
    if w = "true" then some (.bool true, [.word w], rest)
    else if w = "false" then some (.bool false, [.word w], rest)
    else none
  | .mark '-' _ :: .literal s :: rest =>
    if isNumber s then some (Literal.ofSource s, [.mark "-", .literal s], rest) else none
  | _ => none

def seesLiteral (ls : List Lexeme) : Bool := (literal? ls).isSome

/-- A text literal. -/
def seesText : List Lexeme → Bool
  | .literal s :: _ =>
    match Literal.ofSource s with
    | .text _ => true
    | _ => false
  | _ => false

/-- One point, not several. -/
def seesPoint (ls : List Lexeme) : Bool := sees "." ls && !sees ".." ls

/-- An exclamation mark that does not compare. -/
def seesBang (ls : List Lexeme) : Bool := sees "!" ls && !sees "!=" ls

/-! ### Steps -/

def rest : Parse (List Lexeme) := return (← get).rest

def atEnd : Parse Bool := return (← rest).isEmpty

def write (ts : List Token) : Parse Unit :=
  modify fun r => { r with written := ts.reverse ++ r.written }

def skip (n : Nat) : Parse Unit := modify fun r => { r with rest := r.rest.drop n }

/-- Something is missing here. -/
def missing {α : Type} (what : String) : Parse α := do throw (.expected what (← atEnd))

/-- Nothing that could stand here does. -/
def unexpected {α : Type} : Parse α := do
  throw (.other (if ← atEnd then "unexpected end of input" else "unexpected token"))

/-- A mark. Where it is missing, the end of the text is not mentioned. -/
def mark (s : String) : Parse Unit := do
  if sees s (← rest) then
    skip s.length
    write [.mark s]
  else throw (.expected ("`" ++ s ++ "`") false)

/-- A mark, if it follows. -/
def mark? (s : String) : Parse Bool := do
  if sees s (← rest) then
    mark s
    return true
  else return false

def anyWord : Parse Unit := do
  match ← rest with
  | .word w :: _ =>
    skip 1
    write [.word w]
  | _ => missing "identifier"

def word (s : String) : Parse Unit := do
  if seesWord s (← rest) then anyWord else missing ("`" ++ s ++ "`")

/-- A word, if it follows. -/
def word? (s : String) : Parse Bool := do
  if seesWord s (← rest) then
    anyWord
    return true
  else return false

def name : Parse Unit := do
  match ← rest with
  | .word w :: _ =>
    if keywords.contains w then missing ("identifier, found keyword `" ++ w ++ "`") else anyWord
  | _ => missing "identifier"

def lifetime : Parse Unit := do
  match ← rest with
  | .lifetime s :: _ =>
    skip 1
    write [.mark s]
  | _ => missing "lifetime"

def literal : Parse Literal := do
  match literal? (← rest) with
  | some (l, ts, after) =>
    modify fun r => { r with rest := after }
    write ts
    return l
  | none => missing "literal"

def groupName : Delimiter → String
  | .round => "parentheses"
  | .square => "square brackets"
  | .curly => "curly braces"

/-- A group, the inside of which is read by `p`. -/
def within {α : Type} (d : Delimiter) (p : Parse α) : Parse α := do
  match ← rest with
  | .group e inner :: after =>
    if d = e then
      let outer ← get
      set { outer with rest := inner, written := [] }
      let a ← p
      let r ← get
      set
        { rest := after
          written := .group d r.written.reverse :: outer.written
          leftover := r.leftover.or (if r.rest.isEmpty then none else some d) : Reading }
      return a
    else missing (groupName d)
  | _ => missing (groupName d)

/-- A group that is not looked into. -/
def sealedGroup : Parse Delimiter := do
  match ← rest with
  | .group d inner :: _ =>
    skip 1
    write [.group d (Lexeme.spell inner)]
    return d
  | _ => missing "delimiter"

/-! ### Looking and writing in other ways -/

/-- What `p` writes, kept aside. -/
def aside {α : Type} (p : Parse α) : Parse (α × List Token) := do
  let outer := (← get).written
  modify fun r => { r with written := [] }
  let a ← p
  let ts := (← get).written.reverse
  modify fun r => { r with written := outer }
  return (a, ts)

/-- What `p` reads is written as it stands if `p` asks for it, and in its parts otherwise. -/
def orSpelled {α : Type} (p : Parse (Bool × α)) : Parse α := do
  let before ← rest
  let ((raw, a), ts) ← aside p
  if raw then
    let after ← rest
    write (Lexeme.spell (before.take (before.length - after.length)))
  else write ts
  return a

/-- What `p` gives and the lexemes behind what it reads, without going there. -/
def lookPast {α : Type} (p : Parse α) : Parse (α × List Lexeme) := do
  let here ← get
  let a ← p
  let behind ← rest
  set here
  return (a, behind)

/-- What `p` gives. Where it fails, nothing is read and nothing is wrong. -/
def attempt {α : Type} (p : Parse α) : Parse (Option α) := fun r =>
  match p.run r with
  | .ok (a, r) => .ok (some a, r)
  | .error _ => .ok (none, r)

/-! ### Repetition -/

/-- A step that is repeated until it says that it was the last, at most `n` times. -/
def repeated {α : Type} (step : α → Parse (α × Bool)) : Nat → α → Parse α
  | 0, a => return a
  | n + 1, a => do
    let (b, more) ← step a
    if more then repeated step n b else return b

/-- A step that is repeated as long as it asks for it. Every repetition uses up a lexeme. -/
def repeating {α : Type} (step : α → Parse (α × Bool)) (a : α) : Parse α := do
  repeated step ((← rest).length + 1) a

def whileTrue (step : Parse Bool) : Parse Unit :=
  repeating (fun _ => return ((), ← step)) ()

/-- Parts separated by commas up to the end of the group; a last comma may follow. -/
def commaSeparated (p : Parse Unit) : Parse Unit :=
  whileTrue do
    if ← atEnd then return false
    p
    if ← atEnd then return false
    mark ","
    return true

/-- Parts separated by a mark. -/
def separatedBy (s : String) (p : Parse Unit) : Parse Unit :=
  whileTrue do
    p
    mark? s

/-- All that is left of the group, as it stands. -/
def everything : Parse Unit := do
  write (Lexeme.spell (← rest))
  modify fun r => { r with rest := [] }

end Syntax

end Abridge.Derive

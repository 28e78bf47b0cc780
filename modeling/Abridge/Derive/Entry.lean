import Abridge.Derive.Definition
import Abridge.Derive.Syntax.Grammar

/-!
Entries of attributes: items after their values have been read. Items without source text are
entries as they stand; a list with source text in it is read as a whole, because a value may end
elsewhere than the text that was given for it.
-/
namespace Abridge.Derive

/-- An item that has been read. -/
inductive Entry where
  /-- A literal alone. -/
  | lone
  | word (key : String)
  | value (key : String) (e : Syntax.Expression)
  | list (key : String) (entries : List Entry)
  /-- A list that cannot be read. -/
  | brokenList (key : String) (fault : SyntaxFault)

namespace Entry

/-- The key of an entry, if it is not a literal alone. -/
def key? : Entry → Option String
  | .lone => none
  | .word k => some k
  | .value k _ => some k
  | .list k _ => some k
  | .brokenList k _ => some k

/-- Is the entry the word alone? -/
def isWord : Entry → Bool
  | .word _ => true
  | _ => false

end Entry

/-! ### Items as they stand -/

/-- A key that cannot be taken for something else. -/
def isPlainKey (k : String) : Bool := k ≠ "true" && k ≠ "false" && k.toList.head? ≠ some ':'

mutual

/-- The entry that an item is, unless it has to be read first. A number below zero has to, because
what its sign means depends on what follows. -/
def Item.entry? : Item → Option Entry
  | .lone _ => some .lone
  | .word k => if isPlainKey k then some (.word k) else none
  | .text k s => if isPlainKey k then some (.value k (.literal (.text s))) else none
  | .int k z => if isPlainKey k && 0 ≤ z then some (.value k (.literal .int)) else none
  | .bool k b => if isPlainKey k then some (.value k (.literal (.bool b))) else none
  | .expr _ _ => none
  | .list k items => if isPlainKey k then (plainEntries? items).map (.list k) else none

/-- The entries that items are, if none of them has to be read first. -/
def plainEntries? : List Item → Option (List Entry)
  | [] => some []
  | i :: is => do
    let e ← i.entry?
    let es ← plainEntries? is
    return e :: es

end

/-! ### Items as source text -/

def quotedLexeme (s : String) : Lexeme := .literal (Text.literalQuoted s)

/-- A key with its value. -/
def assigned (key : String) (value : List Lexeme) : List Lexeme :=
  Lexeme.scan key ++ .mark '=' false :: value

mutual

def Item.lexemes : Item → List Lexeme
  | .lone s => [quotedLexeme s]
  | .word k => Lexeme.scan k
  | .text k s => assigned k [quotedLexeme s]
  | .int k z => assigned k (Lexeme.scan (toString z))
  | .bool k b => assigned k [.word (toString b)]
  | .expr k source => assigned k (Lexeme.scan source)
  | .list k items => Lexeme.scan k ++ [.group .round (itemLexemes items)]

/-- Items separated by commas. -/
def itemLexemes : List Item → List Lexeme
  | [] => []
  | [i] => i.lexemes
  | i :: j :: rest => i.lexemes ++ .mark ',' false :: itemLexemes (j :: rest)

end

namespace Syntax

variable (g : Productions)

/-! ### Entries -/

def keyWord : Parse String := do
  match ← rest with
  | .word w :: _ =>
    anyWord
    return w
  | _ => missing "ident"

/-- Words joined by double colons, one of which may also stand in front. Keywords are welcome. -/
def key : Parse String := do
  let rooted ← mark? "::"
  repeating
    (fun k => do
      if ← mark? "::" then return (k ++ "::" ++ (← keyWord), true) else return (k, false))
    ((if rooted then "::" else "") ++ (← keyWord))

/-- A literal alone. A truth value before an equals sign is a key. -/
def seesLone (ls : List Lexeme) : Bool :=
  match literal? ls with
  | some (.bool _, _, behind) => !sees "=" behind
  | some _ => true
  | none => false

/-- An entry, with `inside` for the entries of a list. -/
def entry (inside : List Lexeme → Except SyntaxFault (List Entry)) : Parse Entry := do
  let ls ← rest
  if seesLone ls then
    discard literal
    return .lone
  else if seesAnyWord ls then
    let k ← key
    match ← rest with
    | .group _ inner :: _ =>
      skip 1
      match inside inner with
      | .ok es => return .list k es
      | .error f => return .brokenList k f
    | _ => if ← mark? "=" then return .value k (← value g) else return .word k
  else missing "identifier or literal"

def entries (inside : List Lexeme → Except SyntaxFault (List Entry)) : Parse (List Entry) :=
  repeating
    (fun es => do
      if ← atEnd then return (es, false)
      let e ← entry g inside
      if ← atEnd then return (es ++ [e], false)
      mark ","
      return (es ++ [e], true))
    []

/-- The entries of lexemes, with at most `n` levels of lists in one another. -/
def entriesOf : Nat → List Lexeme → Except SyntaxFault (List Entry)
  | 0, _ => .error (.other "too many levels")
  | n + 1, ls => do
    let (es, r) ← start (fun g => entries g (entriesOf n)) ls
    match r.leftover with
    | some d => .error (.leftover d)
    | none => return es

end Syntax

/-- The entries that items stand for. A fault in one of them spoils all. -/
def entriesOfItems (items : List Item) : Except SyntaxFault (List Entry) :=
  match plainEntries? items with
  | some es => .ok es
  | none =>
    let ls := itemLexemes items
    Syntax.entriesOf (Lexeme.sizeAll ls + 1) ls

end Abridge.Derive

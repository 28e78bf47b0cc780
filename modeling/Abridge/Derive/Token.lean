import Abridge.Text.Quoted

/-!
Tokens of generated code and their text: one space between two tokens, but none inside a mark of
several characters, behind a mark that is joined to the next token, and inside round and square
brackets.
-/
namespace Abridge.Derive

inductive Delimiter where | round | square | curly
  deriving DecidableEq

inductive Token where
  /-- A keyword or name. -/
  | word (s : String)
  /-- Punctuation of one or more characters. -/
  | mark (s : String)
  /-- Punctuation that the next token follows without a space. -/
  | joint (s : String)
  /-- A literal that is written as it stands. -/
  | literal (s : String)
  /-- A text literal, without its quotation marks. -/
  | text (s : String)
  | group (d : Delimiter) (inner : List Token)

namespace Token

/-- What separates a token from the next one. -/
def gap : Token → String
  | .joint _ => ""
  | _ => " "

mutual

def render : Token → String
  | .word s => s
  | .mark s => s
  | .joint s => s
  | .literal s => s
  | .text s => Text.literalQuoted s
  | .group .round inner => "(" ++ renderAll inner ++ ")"
  | .group .square inner => "[" ++ renderAll inner ++ "]"
  | .group .curly inner =>
    "\x7b " ++ renderAll inner ++ (if inner.isEmpty then "\x7d" else " \x7d")

/-- Tokens with the spaces between them. -/
def renderAll : List Token → String
  | [] => ""
  | [t] => render t
  | t :: u :: rest => render t ++ t.gap ++ renderAll (u :: rest)

end

/-! ### Equality -/

mutual

def same : Token → Token → Bool
  | .word s, .word t => s = t
  | .mark s, .mark t => s = t
  | .joint s, .joint t => s = t
  | .literal s, .literal t => s = t
  | .text s, .text t => s = t
  | .group d ts, .group e us => d = e && sameAll ts us
  | _, _ => false

def sameAll : List Token → List Token → Bool
  | [], [] => true
  | t :: ts, u :: us => same t u && sameAll ts us
  | _, _ => false

end

mutual

theorem same_iff : (t u : Token) → (same t u = true ↔ t = u)
  | .word s, u => by cases u <;> simp [same]
  | .mark s, u => by cases u <;> simp [same]
  | .joint s, u => by cases u <;> simp [same]
  | .literal s, u => by cases u <;> simp [same]
  | .text s, u => by cases u <;> simp [same]
  | .group d ts, u => by cases u <;> simp [same, sameAll_iff ts]

theorem sameAll_iff : (ts us : List Token) → (sameAll ts us = true ↔ ts = us)
  | [], us => by cases us <;> simp [sameAll]
  | t :: ts, us => by cases us <;> simp [sameAll, same_iff t, sameAll_iff ts]

end

instance : DecidableEq Token := fun t u => decidable_of_iff _ (same_iff t u)

/-! ### Lists in angle brackets -/

/-- An entry of a list, with the comma that follows it, if one does. -/
structure Listed where
  isLifetime : Bool
  tokens : List Token
  comma : Bool

def Listed.all (e : Listed) : List Token := e.tokens ++ if e.comma then [.mark ","] else []

/-- Lifetimes first. Each entry keeps its comma; one is added behind the lifetimes if the last of
them had none and others follow. -/
def lifetimesFirst (es : List Listed) : List Token :=
  let lifetimes := es.filter (·.isLifetime)
  let others := es.filter (!·.isLifetime)
  let bridge := if !others.isEmpty && lifetimes.getLast?.any (!·.comma) then [.mark ","] else []
  lifetimes.flatMap Listed.all ++ bridge ++ others.flatMap Listed.all

end Token

end Abridge.Derive

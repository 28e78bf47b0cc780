import Abridge.Derive.Syntax.Reading

/-!
The parts of the grammar that contain each other. A production is given all of them as they are one
level further down, and so can be defined on its own.
-/
namespace Abridge.Derive.Syntax

/-- How strongly an operator binds, the weakest first. -/
inductive Precedence where
  | lowest | assign | range | or | and | compare | bitOr | bitXor | bitAnd | shift | sum | product
  | cast
  deriving DecidableEq

def Precedence.rank : Precedence → Nat
  | .lowest => 0
  | .assign => 1
  | .range => 2
  | .or => 3
  | .and => 4
  | .compare => 5
  | .bitOr => 6
  | .bitXor => 7
  | .bitAnd => 8
  | .shift => 9
  | .sum => 10
  | .product => 11
  | .cast => 12

/-- What kind of expression one is, by its outermost part. -/
inductive Expression where
  | literal (l : Literal)
  | binary (p : Precedence)
  /-- The call of a macro, with its brackets. -/
  | invocation (d : Delimiter)
  | range
  | other (kind : String)

namespace Expression

/-- What a refusal calls the kind. -/
def kindName : Expression → String
  | .literal l => l.kindName
  | .binary _ => "binary"
  | .invocation _ => "macro"
  | .range => "range"
  | .other kind => kind

def isRange : Expression → Bool
  | .range => true
  | _ => false

def isComparison : Expression → Bool
  | .binary .compare => true
  | _ => false

/-- Kinds that end with their block, so that they can stand as a statement of their own. -/
def isBlockLike : Expression → Bool
  | .other kind =>
    ["if", "while", "for_loop", "loop", "match", "try_block", "unsafe", "const", "block"].contains
      kind
  | _ => false

/-- Must a semicolon follow, before the next statement? -/
def needsSemicolon : Expression → Bool
  | .invocation d => d ≠ .curly
  | e => !e.isBlockLike

/-- A part of a text that has no form of its own, so that it is written as it stands. -/
def isSpelled : Expression → Bool
  | .other kind => kind = "verbatim"
  | _ => false

end Expression

/-- What a type looks like, as far as its neighbours care. -/
inductive TypeForm where
  /-- A name with or without arguments in angle brackets. -/
  | named
  /-- Any other path that does not begin with a type in angle brackets. -/
  | path
  /-- A trait with the lifetimes that hold for it. -/
  | bound
  /-- A trait in round brackets. -/
  | wrappedBound
  | other
  deriving DecidableEq

/-- What a pattern looks like, as far as its neighbours care. -/
inductive PatternForm where
  /-- A range with a single bound. -/
  | openRange
  /-- A pattern that is written as it stands. -/
  | spelled
  | other
  deriving DecidableEq

/-- An expression at the beginning of a statement. -/
structure Leading where
  expression : Expression
  /-- Is its first operand written as it stands? -/
  startsSpelled : Bool

structure Productions where
  /-- A type; with `plus`, bounds may be added to it. -/
  type : (plus : Bool) → Parse TypeForm
  /-- Arguments in angle brackets; are there any? -/
  arguments : Parse Bool
  /-- A bound; is it a trait? The names that a type holds on to, and traits that hold for constants,
  are not allowed everywhere. -/
  bound : (captures constants : Bool) → Parse Bool
  /-- An expression; without `fields`, a curly bracket behind a path does not belong to it. -/
  expression : (fields : Bool) → Parse Expression
  /-- An expression that binds at least as strongly as a sign in front of it. -/
  operand : (fields : Bool) → Parse Expression
  /-- What operators of at least the given precedence make of an operand. -/
  extended : (fields : Bool) → Expression → Precedence → Parse Expression
  /-- An expression at the beginning of a statement, which ends with a block. -/
  leading : Parse Leading
  /-- A pattern without alternatives. -/
  pattern : Parse PatternForm
  /-- Statements in curly brackets; with `inner`, attributes of the block come first. -/
  block : (inner : Bool) → Parse Unit
  /-- A declaration with its attributes. -/
  item : Parse Unit

/-- No level is left. -/
def Productions.exhausted : Productions :=
  let stop {α : Type} : Parse α := throw (.other "too many levels")
  ⟨fun _ => stop, stop, fun _ _ => stop, fun _ => stop, fun _ => stop, fun _ _ _ => stop, stop,
    stop, fun _ => stop, stop⟩

end Abridge.Derive.Syntax

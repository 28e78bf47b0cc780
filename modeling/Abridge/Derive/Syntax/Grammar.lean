import Abridge.Derive.Syntax.Statement

/-!
The whole grammar, and the parts of a definition that are read with it.
-/
namespace Abridge.Derive.Syntax

/-- All productions, for at most the given number of levels. -/
def grammar : Nat → Productions
  | 0 => Productions.exhausted
  | n + 1 =>
    let g := grammar n
    { type := typeOf g
      arguments := argumentsOf g
      bound := boundOf g
      expression := expressionOf g
      operand := operandOf g
      extended := extendedBy g
      leading := leadingOf g
      pattern := patternOf g
      block := blockOf g
      item := itemOf g }

/-- All productions, for a text. Every level uses up a lexeme before the one after the next. -/
def grammarFor (ls : List Lexeme) : Productions := grammar (2 * Lexeme.sizeAll ls + 2)

/-- Reads lexemes and gives the reading that is left. -/
def start {α : Type} (p : Productions → Parse α) (ls : List Lexeme) :
    Except SyntaxFault (α × Reading) :=
  (p (grammarFor ls)).run ⟨ls, [], none⟩

/-- The tokens of a whole text as they appear in generated code. A text that cannot be read stands
there as it is. -/
def tokensOf {α : Type} (p : Productions → Parse α) (source : String) : List Token :=
  let ls := Lexeme.scan source
  match start p ls with
  | .ok (_, r) =>
    if r.rest.isEmpty && r.leftover.isNone then r.written.reverse else Lexeme.spell ls
  | .error _ => Lexeme.spell ls

def typeTokens (source : String) : List Token := tokensOf (·.type true) source

/-- What a predicate is about: a type, behind the parameters that hold for it and its bounds. -/
def subjectTokens (source : String) : List Token :=
  tokensOf
    (fun g => do
      discard (binder? g)
      g.type true)
    source

/-- A bound, or several with plus signs between them. -/
def boundTokens (source : String) : List Token :=
  tokensOf (fun g => bounds g true true true) source

end Abridge.Derive.Syntax

import Abridge.Derive.Syntax.Pattern

/-!
Operators: how expressions are joined, and what binds more strongly than what.
-/
namespace Abridge.Derive.Syntax

variable (g : Productions)

/-- Operators with two operands; one that begins like another stands before it. -/
def operators : List (String × Precedence) := [
  ("+=", .assign), ("-=", .assign), ("*=", .assign), ("/=", .assign), ("%=", .assign),
  ("^=", .assign), ("&=", .assign), ("|=", .assign), ("<<=", .assign), (">>=", .assign),
  ("&&", .and), ("||", .or), ("<<", .shift), (">>", .shift), ("==", .compare), ("<=", .compare),
  ("!=", .compare), (">=", .compare), ("+", .sum), ("-", .sum), ("*", .product), ("/", .product),
  ("%", .product), ("^", .bitXor), ("&", .bitAnd), ("|", .bitOr), ("<", .compare), (">", .compare)]

/-- The operator in front, if there is one. -/
def operator? (ls : List Lexeme) : Option (String × Precedence) :=
  operators.find? fun o => sees o.1 ls

/-- An equals sign that is not part of an arrow. -/
def seesEquals (ls : List Lexeme) : Bool := sees "=" ls && !sees "=>" ls

/-- How strongly what stands in front binds; most weakly if it joins nothing. -/
def Precedence.ofFront (ls : List Lexeme) : Precedence :=
  match operator? ls with
  | some (_, p) => p
  | none =>
    if seesEquals ls then .assign
    else if sees ".." ls then .range
    else if seesWord "as" ls then .cast
    else .lowest

/-- The operand behind an operator, with all that binds more strongly. Assignments group to the
right. -/
def rightOperand (fields : Bool) (p : Precedence) : Parse Expression := do
  repeating
    (fun e => do
      let ls ← rest
      let next := Precedence.ofFront ls
      if p.rank < next.rank ∨ (next = .assign ∧ p = .assign) then
        let e' ← g.extended fields e next
        return (e', (← rest).length < ls.length)
      else return (e, false))
    (← g.operand fields)

/-! ### Ranges -/

/-- Can a range without an upper bound end here? -/
def seesRangeEnd (fields : Bool) (ls : List Lexeme) : Bool :=
  ls.isEmpty || seesPoint ls || (!fields && seesGroup .curly ls) || seesWord "as" ls ||
    seesAny
      [",", ";", "?", "=>", "=", "+", "/", "%", "^", ">", "<=", "!=", "-=", "*=", "&=", "|=", "<<="]
      ls

/-- A range from behind its lower bound. -/
def range (fields : Bool) : Parse Expression := do
  let ls ← rest
  if sees "..=" ls then
    mark "..="
    discard (rightOperand g fields .range)
  else if sees "..." ls then missing "`..=`"
  else
    mark ".."
    if !seesRangeEnd fields (← rest) then discard (rightOperand g fields .range)
  return .range

/-! ### Casts -/

/-- What may not stand behind a cast, if it does. -/
def castFollower? (ls : List Lexeme) : Option String :=
  if seesPoint ls then
    let next := ls.drop 1
    let further := ls.drop 2
    if seesWord "await" next then some "`.await`"
    else if seesName next && (seesGroup .round further || sees "::" further) then
      some "a method call"
    else some "a field access"
  else if sees "?" ls then some "`?`"
  else if seesGroup .square ls then some "indexing"
  else if seesGroup .round ls then some "a function call"
  else none

/-- A change of type from behind the value. -/
def cast : Parse Expression := do
  word "as"
  discard (g.type false)
  match castFollower? (← rest) with
  | some what => throw (.other ("casts cannot be followed by " ++ what))
  | none => return .other "cast"

/-! ### Joined expressions -/

/-- One operator behind an expression, if it binds at least as strongly as `base`. A range is no
left operand. -/
def joined (fields : Bool) (base : Precedence) (e : Expression) : Parse (Expression × Bool) := do
  let ls ← rest
  if e.isRange then return (e, false)
  match operator? ls with
  | some (o, p) =>
    if p.rank < base.rank then return (e, false)
    if p = .compare ∧ e.isComparison then throw .chainedComparison
    mark o
    discard (rightOperand g fields p)
    return (.binary p, true)
  | none =>
    if base.rank ≤ Precedence.assign.rank ∧ seesEquals ls then
      mark "="
      discard (rightOperand g fields .assign)
      return (.other "assign", true)
    else if base.rank ≤ Precedence.range.rank ∧ sees ".." ls then return (← range g fields, true)
    else if base.rank ≤ Precedence.cast.rank ∧ seesWord "as" ls then return (← cast g, true)
    else return (e, false)

/-- What operators of at least the given precedence make of an operand. -/
def extendedBy (fields : Bool) (e : Expression) (base : Precedence) : Parse Expression :=
  repeating (joined g fields base) e

end Abridge.Derive.Syntax

import Abridge.Derive.Syntax.Operator

/-!
Expressions without operators between them: names, literals, brackets, blocks and what can follow
them.
-/
namespace Abridge.Derive.Syntax

variable (g : Productions)

/-- An expression inside another one. -/
def anyExpression : Parse Unit := discard (g.expression true)

/-- Can an expression begin here? -/
def seesExpression (ls : List Lexeme) : Bool :=
  (seesAnyWord ls && !seesWord "as" ls) ||
    seesGroup .round ls || seesGroup .square ls || seesGroup .curly ls || seesLiteral ls ||
    seesLifetime ls || seesAny ["..", "::", "#"] ls ||
    (sees "!" ls && !sees "!=" ls) || (sees "-" ls && !seesAny ["-=", "->"] ls) ||
    (sees "*" ls && !sees "*=" ls) || (sees "|" ls && !sees "|=" ls) ||
    (sees "&" ls && !sees "&=" ls) || (sees "<" ls && !seesAny ["<=", "<<="] ls)

/-! ### Behind an expression -/

/-- Arguments in round brackets. -/
def callArguments : Parse Unit := within .round (commaSeparated (anyExpression g))

/-- The positions of fields in one another, with points between them. A minus stands before the
first one. -/
def positions (negative : Bool) : List String → Parse Unit
  | [] => return
  | [s] => position negative s
  | s :: ss => do
    position negative s
    write [.mark "."]
    positions false ss

/-- A member by its name or its position. A name is called if round brackets follow. -/
def memberName : Parse Expression := do
  if ← word? "await" then return .other "await"
  if ← fieldName then
    let ls ← rest
    if ← mark? "::" then discard g.arguments
    if sees "::" ls ∨ seesGroup .round ls then
      callArguments g
      return .other "method_call"
  return .other "field"

/-- A member. Two positions with a point between them look like a number with a point; a last point
in it stands before the next member. -/
def member : Parse Expression := do
  mark "."
  match number? (← rest) with
  | some (negative, s, after) =>
    match Literal.ofSource s with
    | .float =>
      modify fun r => { r with rest := after }
      let parts := s.splitOn "."
      if parts.getLast? = some "" then
        positions negative parts.dropLast
        write [.mark "."]
        memberName g
      else
        positions negative parts
        return .other "field"
    | _ => memberName g
  | none => memberName g

/-- A call, a member, an index or a question mark behind an expression, if there is one. -/
def trailer (e : Expression) : Parse (Expression × Bool) := do
  let ls ← rest
  if seesGroup .round ls then
    callArguments g
    return (.other "call", true)
  else if seesPoint ls && !e.isRange then return (← member g, true)
  else if seesGroup .square ls then
    within .square (anyExpression g)
    return (.other "index", true)
  else if sees "?" ls && !e.isRange then
    mark "?"
    return (.other "try", true)
  else return (e, false)

def trailed (e : Expression) : Parse Expression := repeating (trailer g) e

/-! ### Names -/

/-- A field of a struct with its value; a name alone stands for the value of that name. -/
def fieldValue : Parse Unit := do
  attributes g
  let named ← fieldName
  if !named || sees ":" (← rest) then
    mark ":"
    anyExpression g

/-- The fields of a struct; behind two points stands the value that gives all others. -/
def fieldValues : Parse Unit :=
  whileTrue do
    if ← atEnd then return false
    if ← mark? ".." then
      if !(← atEnd) then anyExpression g
      return false
    fieldValue g
    if ← atEnd then return false
    mark ","
    return true

/-- An expression that begins with a path. -/
def pathExpression (fields : Bool) : Parse Expression := do
  let p ← valuePath g
  let ls ← rest
  if p.isInvoked ls then return .invocation (← invocation)
  else if fields && seesGroup .curly ls then
    within .curly (fieldValues g)
    return .other "struct"
  else return .other "path"

/-! ### Brackets -/

/-- One expression, or several with commas, or none. -/
def parenthesized : Parse Expression :=
  within .round do
    if ← atEnd then return .other "tuple"
    anyExpression g
    if ← atEnd then return .other "paren"
    mark ","
    commaSeparated (anyExpression g)
    return .other "tuple"

/-- Items with commas, or one item and how often it stands there. -/
def arrayItems : Parse Expression :=
  within .square do
    if ← atEnd then return .other "array"
    anyExpression g
    let ls ← rest
    if ls.isEmpty then return .other "array"
    else if ← mark? "," then
      commaSeparated (anyExpression g)
      return .other "array"
    else if ← mark? ";" then
      anyExpression g
      return .other "repeat"
    else missing "`,` or `;`"

/-! ### Closures -/

/-- Does a closure begin here? -/
def seesClosure (ls : List Lexeme) : Bool :=
  let next := ls.drop 1
  sees "|" ls || seesSomeWord ["move", "static"] ls ||
    (seesWord "for" ls && seesParameters next) ||
    (seesWord "const" ls && !seesGroup .curly next) ||
    (seesWord "async" ls && (sees "|" next || seesWord "move" next))

/-- An input of a closure, which may have a type; are there more? Attributes of a pattern that is
written as it stands are lost. -/
def closureInput : Parse Bool := do
  if sees "|" (← rest) then return false
  let (_, marks) ← aside (attributes g)
  let (form, ts) ← aside g.pattern
  let typed := sees ":" (← rest)
  if typed || form ≠ .spelled then write marks
  write ts
  if typed then
    mark ":"
    discard (g.type true)
  if sees "|" (← rest) then return false
  mark ","
  return true

def closure (fields : Bool) : Parse Expression := do
  discard (binder? g)
  for w in ["const", "static", "async", "move"] do discard (word? w)
  mark "|"
  whileTrue (closureInput g)
  mark "|"
  if ← mark? "->" then
    discard (g.type true)
    g.block false
  else discard (g.expression fields)
  return .other "closure"

/-! ### Control -/

/-- A condition, after which a curly bracket opens a block. -/
def condition : Parse Unit := discard (g.expression false)

def conditional : Parse Expression := do
  whileTrue do
    word "if"
    condition g
    g.block false
    if ← word? "else" then
      let ls ← rest
      if seesWord "if" ls then return true
      else if seesGroup .curly ls then
        g.block false
        return false
      else missing (SyntaxFault.oneOf ["`if`", "curly braces"])
    else return false
  return .other "if"

/-- An arm: a pattern, a condition if there is one, and the result. Only the last result and those
that end with their block do without a comma. -/
def arm : Parse Unit := do
  attributes g
  anyPattern g
  if ← word? "if" then anyExpression g
  mark "=>"
  let result := (← g.leading).expression
  if result.isBlockLike ∨ (← atEnd) then discard (mark? ",") else mark ","

def choice : Parse Expression := do
  word "match"
  condition g
  within .curly do
    innerAttributes g
    whileTrue do
      if ← atEnd then return false
      arm g
      return true
  return .other "match"

def whileLoop : Parse Expression := do
  word "while"
  condition g
  g.block true
  return .other "while"

def forLoop : Parse Expression := do
  word "for"
  anyPattern g
  word "in"
  condition g
  g.block true
  return .other "for_loop"

/-- A block behind a word; with `inner`, attributes of the block come first. -/
def blockBehind (inner : Bool) (w kind : String) : Parse Expression := do
  word w
  g.block inner
  return .other kind

/-- A loop or a block with a name. -/
def labeled : Parse Expression := do
  lifetime
  mark ":"
  let ls ← rest
  if seesWord "while" ls then whileLoop g
  else if seesWord "for" ls then forLoop g
  else if seesWord "loop" ls then blockBehind g true "loop" "loop"
  else if seesGroup .curly ls then
    g.block true
    return .other "block"
  else missing "loop or block expression"

/-- The value that a word takes along, if one follows. -/
def valueBehind (w kind : String) : Parse Expression := do
  word w
  if seesExpression (← rest) then anyExpression g
  return .other kind

/-- Leaves a loop or a block, with a value if one follows. -/
def leave (fields : Bool) : Parse Expression := do
  word "break"
  let ls ← rest
  if seesLifetime ls then
    if sees ":" (ls.drop 1) then
      anyExpression g
      throw (.other "parentheses required")
    lifetime
  let ls ← rest
  if seesExpression ls && (fields || !seesGroup .curly ls) then anyExpression g
  return .other "break"

def continuation : Parse Expression := do
  word "continue"
  if seesLifetime (← rest) then lifetime
  return .other "continue"

/-- A comparison with a pattern. -/
def binding (fields : Bool) : Parse Expression := do
  word "let"
  anyPattern g
  mark "="
  discard (g.extended fields (← g.operand fields) .compare)
  return .other "let"

/-- A part of the language that is not spelled out. -/
def builtin : Parse Expression := do
  word "builtin"
  mark "#"
  name
  within .round everything
  return .other "verbatim"

/-- A call that takes the place of the function that it stands in. -/
def tailCall : Parse Expression :=
  orSpelled do
    word "become"
    anyExpression g
    return (true, .other "verbatim")

/-! ### Atoms -/

/-- An expression that begins with a word. -/
def wordAtom (fields : Bool) (w : String) : Parse Expression := do
  match w with
  | "if" => conditional g
  | "match" => choice g
  | "while" => whileLoop g
  | "for" => forLoop g
  | "loop" => blockBehind g true "loop" "loop"
  | "unsafe" => blockBehind g true "unsafe" "unsafe"
  | "const" => blockBehind g true "const" "const"
  | "return" => valueBehind g "return" "return"
  | "yield" => valueBehind g "yield" "yield"
  | "break" => leave g fields
  | "continue" => continuation
  | "let" => binding g fields
  | "become" => tailCall g
  | "_" =>
    anyWord
    return .other "infer"
  | _ => missing "an expression"

/-- Does a block behind a word begin here that runs on its own? -/
def seesAsyncBlock (ls : List Lexeme) : Bool :=
  let next := ls.drop 1
  seesWord "async" ls &&
    (seesGroup .curly next || (seesWord "move" next && seesGroup .curly (next.drop 1)))

/-- An expression without operators and without anything behind it. -/
def atom (fields : Bool) : Parse Expression := do
  let ls ← rest
  let next := ls.drop 1
  if seesLiteral ls then return .literal (← literal)
  else if seesAsyncBlock ls then
    anyWord
    discard (word? "move")
    g.block false
    return .other "async"
  else if seesWord "try" ls && seesGroup .curly next then blockBehind g false "try" "try_block"
  else if seesClosure ls then closure g fields
  else if seesWord "builtin" ls && sees "#" next then builtin
  else if seesPath ls || (seesWord "try" ls && seesAny ["!", "::"] next) then
    pathExpression g fields
  else if seesGroup .round ls then parenthesized g
  else if seesGroup .square ls then arrayItems g
  else if seesGroup .curly ls then
    g.block true
    return .other "block"
  else if sees ".." ls then range g fields
  else if seesLifetime ls then labeled g
  else
    match ls with
    | .word w :: _ => wordAtom g fields w
    | _ => missing "an expression"

/-! ### Operands -/

/-- A reference to what follows. -/
def reference (fields : Bool) : Parse Expression := do
  mark "&"
  let ls ← rest
  if seesWord "raw" ls && seesSomeWord ["const", "mut"] (ls.drop 1) then
    anyWord
    anyWord
    discard (g.operand fields)
    return .other "unknown"
  else
    discard (word? "mut")
    discard (g.operand fields)
    return .other "reference"

/-- The signs with one operand. -/
def signs : List String := ["*", "!", "-"]

/-- An expression that binds at least as strongly as a sign in front of it. One without a form of
its own is written as it stands, with its attributes. -/
def operandOf (fields : Bool) : Parse Expression :=
  orSpelled do
    let marked := sees "#" (← rest)
    attributes g
    let ls ← rest
    if sees "&" ls then return (false, ← reference g fields)
    match signs.find? fun s => sees s ls with
    | some s =>
      mark s
      discard (g.operand fields)
      return (false, .other "unary")
    | none =>
      let e ← trailed g (← atom g fields)
      if marked && e.isRange then
        throw (.other "attributes are not allowed on range expressions starting with `..`")
      return (e.isSpelled, e)

def expressionOf (fields : Bool) : Parse Expression := do
  extendedBy g fields (← operandOf g fields) .lowest

/-! ### At the beginning of a statement -/

/-- The first operand, which ends with its block if it begins with the word for one, unless a member
or a question mark follows; can operators follow? -/
def leadingOperand : Parse (Expression × Bool) := do
  let ls ← rest
  let starts := ["if", "while", "for", "loop", "match", "unsafe"]
  let e ←
    if seesClosure ls then operandOf g true
    else if seesSomeWord starts ls || seesGroup .curly ls || seesLifetime ls ||
        (seesSomeWord ["try", "const"] ls && seesGroup .curly (ls.drop 1)) then
      atom g true
    else operandOf g true
  let ls ← rest
  if !e.isBlockLike then return (e, true)
  else if seesPoint ls || sees "?" ls then return (← trailed g e, true)
  else return (e, false)

/-- An expression at the beginning of a statement. Its attributes are lost if its first operand is
written as it stands. -/
def leadingOf : Parse Leading := do
  let (_, marks) ← aside (attributes g)
  let ((first, goesOn), ts) ← aside (leadingOperand g)
  if !first.isSpelled then write marks
  write ts
  let e ← if goesOn then extendedBy g true first .lowest else pure first
  return ⟨e, first.isSpelled⟩

end Abridge.Derive.Syntax

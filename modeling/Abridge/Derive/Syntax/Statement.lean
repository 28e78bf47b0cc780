import Abridge.Derive.Syntax.Item

/-!
Statements of a block.
-/
namespace Abridge.Derive.Syntax

variable (g : Productions)

/-! ### Lookahead -/

/-- Does a declaration that is no expression begin here? -/
def seesItem (ls : List Lexeme) : Bool :=
  let next := ls.drop 1
  let third := ls.drop 2
  seesSomeWord
    ["pub", "extern", "use", "fn", "mod", "type", "struct", "enum", "trait", "impl", "macro"] ls ||
  (seesWord "crate" ls && !sees "::" next) ||
  (seesWord "static" ls && (seesWord "mut" next || seesName next)) ||
  (seesWord "const" ls &&
    !(seesGroup .curly next || seesSomeWord ["static", "move"] next || sees "|" next ||
      (seesWord "async" next && !seesSomeWord ["unsafe", "extern", "fn"] third))) ||
  (seesWord "unsafe" ls && !seesGroup .curly next) ||
  (seesWord "async" ls && seesSomeWord ["unsafe", "extern", "fn"] next) ||
  (seesWord "union" ls && seesName next) || (seesWord "auto" ls && seesWord "trait" next) ||
  (seesWord "default" ls && seesSomeWord ["unsafe", "impl"] next)

/-- How the call of a macro stands at the beginning of a statement. -/
inductive Call where
  /-- It is a statement of its own. -/
  | statement
  /-- It declares something by its name. -/
  | named
  /-- It is part of an expression, or there is none. -/
  | other

/-- The kind of call, by what stands behind the path in front. -/
def Call.ofBehind (ls : List Lexeme) : Call :=
  let next := ls.drop 1
  let third := ls.drop 2
  if !sees "!" ls then .other
  else if seesName next || seesWord "try" next then .named
  else if seesGroup .curly next && !seesPoint third && !sees "?" third then .statement
  else .other

/-- The kind of call that stands here. -/
def call : Parse Call := do
  match ← attempt (lookPast simplePath) with
  | some (_, ls) => return Call.ofBehind ls
  | none => return .other

/-! ### Statements -/

/-- Does the last thing that was written end with a curly bracket? -/
def endsCurly : Parse Bool := do
  match (← get).written with
  | .group .curly _ :: _ => return true
  | _ => return false

/-- Names for a value, or for its parts. -/
def declaration : Parse Unit := do
  word "let"
  discard g.pattern
  if ← mark? ":" then discard (g.type true)
  if ← mark? "=" then
    anyExpression g
    if !(← endsCurly) then
      if ← word? "else" then g.block false
  mark ";"

/-- An expression behind its attributes; must a semicolon follow before the next statement? The
attributes are lost if they belong to a part that is written as it stands. -/
def expressionStatement (marks : List Token) : Parse Bool := do
  let (e, ts) ← aside g.leading
  if !e.startsSpelled || e.expression.isRange then write marks
  write ts
  if ← mark? ";" then return false else return e.expression.needsSemicolon

/-- A statement; must a semicolon follow before the next one? -/
def statement : Parse Bool :=
  orSpelled do
    let (_, marks) ← aside (attributes g)
    let ls ← rest
    match ← call with
    | .statement =>
      write marks
      simplePath
      discard invocation
      discard (mark? ";")
      return (false, false)
    | .named =>
      write marks
      return (← bareItem g, false)
    | .other =>
      if seesItem ls then
        write marks
        return (← bareItem g, false)
      else if seesWord "let" ls then
        write marks
        declaration g
        return (false, false)
      else return (false, ← expressionStatement g marks)

/-- Statements up to the end of the group. -/
def statements : Parse Unit :=
  whileTrue do
    whileTrue (mark? ";")
    if ← atEnd then return false
    let isOpen ← statement g
    if ← atEnd then return false
    if isOpen then throw (.other "unexpected token, expected `;`")
    return true

/-- Statements in curly brackets; with `inner`, attributes of the block come first. -/
def blockOf (inner : Bool) : Parse Unit :=
  within .curly do
    if inner then innerAttributes g
    statements g

end Abridge.Derive.Syntax

import Abridge.Derive.Syntax.Expression

/-!
The parts of declarations: visibility, fields, functions, and what traits, implementations and
foreign blocks hold. A member that is valid only as a text, such as a function of an implementation
without a body, is written as it stands, with its attributes.
-/
namespace Abridge.Derive.Syntax

variable (g : Productions)

/-! ### Visibility -/

/-- From where something can be seen; does anything stand here that tells it? Only some round
brackets belong to it. -/
def visibility : Parse Bool := do
  if ← word? "pub" then
    match ← rest with
    | .group .round (.word "in" :: _) :: _ =>
      within .round do
        word "in"
        simplePath
    | .group .round [.word w] :: _ =>
      if ["crate", "self", "super"].contains w then discard sealedGroup
    | _ => pure ()
    return true
  else return false

/-! ### Lookahead -/

/-- What can begin the call of a macro. -/
def callStarts : List String := ["identifier", "`self`", "`super`", "`crate`", "`::`"]

def seesCallStart (ls : List Lexeme) : Bool :=
  seesName ls || seesSomeWord ["self", "super", "crate"] ls || sees "::" ls

/-- What stands behind a word, if it is in front. -/
def behindWord (w : String) (ls : List Lexeme) : List Lexeme :=
  if seesWord w ls then ls.drop 1 else ls

/-- What stands behind the convention of a function, if one is in front. -/
def behindConvention (ls : List Lexeme) : List Lexeme :=
  if seesWord "extern" ls then
    if seesText (ls.drop 1) then ls.drop 2 else ls.drop 1
  else ls

/-- Does a function begin here? With `safe`, it may be called so. -/
def seesFunction (safe : Bool) (ls : List Lexeme) : Bool :=
  let ls := behindWord "async" (behindWord "const" ls)
  let ls := if safe && seesWord "safe" ls then ls.drop 1 else behindWord "unsafe" ls
  seesWord "fn" (behindConvention ls)

/-! ### Fields -/

/-- A field with a name. A field without one can have fields of its own instead of a type, which are
read by `inner` and written as they stand. -/
def namedField (inner : Parse Unit) : Parse Unit := do
  attributes g
  discard visibility
  let nameless ← word? "_"
  if !nameless then name
  mark ":"
  let ls ← rest
  if nameless &&
      (seesWord "struct" ls || (seesWord "union" ls && seesGroup .curly (ls.drop 1))) then
    orSpelled do
      anyWord
      inner
      return (true, ())
  else discard (g.type true)

/-- Fields with names; at most `n` levels of fields lie in one another. -/
def namedFieldsWithin : Nat → Parse Unit
  | 0 => throw (.other "too many levels")
  | n + 1 => within .curly (commaSeparated (namedField g (namedFieldsWithin n)))

def namedFields : Parse Unit := do namedFieldsWithin g (Lexeme.sizeAll (← rest) + 1)

/-- Fields that are known by their position. -/
def positionalFields : Parse Unit :=
  within .round do
    commaSeparated do
      attributes g
      discard visibility
      discard (g.type true)

/-- A variant with its fields and its number. A visibility in front of its name is dropped. -/
def variant : Parse Unit := do
  attributes g
  discard (aside visibility)
  name
  let ls ← rest
  if seesGroup .curly ls then namedFields g
  else if seesGroup .round ls then positionalFields g
  if ← mark? "=" then anyExpression g

/-! ### Functions -/

/-- The value that a function belongs to. -/
def receiver : Parse Unit := do
  let borrowed ← mark? "&"
  if borrowed && seesLifetime (← rest) then lifetime
  discard (word? "mut")
  word "self"
  if !borrowed then
    if ← mark? ":" then discard (g.type true)

/-- Three points, which stand for all further inputs; a comma may follow. -/
def openEnd : Parse Unit := do
  mark "..."
  if !(← atEnd) then mark ","

/-- What an input of a function is. -/
inductive Input where
  | receiver
  | typed
  /-- Three points. -/
  | openEnd

/-- An input of a function. A type with arguments may stand alone; it gets an empty pattern. -/
def input : Parse Input := do
  if sees "..." (← rest) then
    openEnd
    return .openEnd
  if let some () ← attempt (receiver g) then return .receiver
  let ls ← rest
  if seesName ls && sees "<" (ls.drop 1) then
    write [.word "_", .mark ":"]
    discard (g.type true)
    return .typed
  discard g.pattern
  mark ":"
  if sees "..." (← rest) then
    openEnd
    return .openEnd
  discard (g.type true)
  return .typed

/-- The inputs of a function, of which only the first one can be its receiver. -/
def functionParameters : Parse Unit := do
  discard <| repeating
    (fun (first, received) => do
      if ← atEnd then return ((first, received), false)
      attributes g
      let i ← input g
      match i with
      | .openEnd => return ((first, received), false)
      | .typed => pure ()
      | .receiver =>
        if received then throw (.other "unexpected second method receiver")
        if !first then throw (.other "unexpected method receiver")
      if ← atEnd then return ((first, received), false)
      mark ","
      return ((false, received || i matches .receiver), true))
    (true, false)

/-- A function up to its body; is it called safe, where that is allowed? -/
def signature (allowSafe : Bool) : Parse Bool := do
  discard (word? "const")
  discard (word? "async")
  let hazardous ← word? "unsafe"
  let safe ← if allowSafe && !hazardous then word? "safe" else pure false
  convention
  word "fn"
  name
  discard (parameters g)
  within .round (functionParameters g)
  result g true
  discard (predicates g)
  return safe

/-! ### Constants and types -/

/-- What was found of a declaration. -/
structure Declared where
  /-- Are there parameters, predicates or bounds that do not belong there? -/
  constrained : Bool
  /-- Is a value or a definition given? -/
  defined : Bool

/-- A value behind an equals sign, if there is one. -/
def valueBehind? : Parse Bool := do
  if ← mark? "=" then
    anyExpression g
    return true
  else return false

/-- A constant. -/
def constantDeclaration : Parse Declared := do
  word "const"
  let ls ← rest
  if seesName ls || seesWord "_" ls then anyWord
  else missing (SyntaxFault.oneOf ["identifier", "`_`"])
  let generic ← parameters g
  mark ":"
  discard (g.type true)
  let defined ← valueBehind? g
  let limited ← predicates g
  mark ";"
  return ⟨generic || limited, defined⟩

/-- Where the predicates of a type stand. -/
inductive PredicatePlace where | beforeDefinition | behindDefinition | anywhere
  deriving DecidableEq

/-- A name for a type, from behind its visibility. -/
def typeDeclaration (place : PredicatePlace) : Parse Declared := do
  word "type"
  name
  discard (parameters g)
  let ends (ls : List Lexeme) : Bool := seesWord "where" ls || seesAny ["=", ";"] ls
  let bounded ← afterColon (boundsUpTo ends (parameterBound g))
  let limited ← if place = .behindDefinition then pure false else predicates g
  let defined ← mark? "="
  if defined then discard (g.type true)
  if place ≠ .beforeDefinition && !limited then discard (predicates g)
  mark ";"
  return ⟨bounded, defined⟩

/-! ### Members -/

/-- The call of a macro that stands for members. -/
def memberCall : Parse Unit := do
  simplePath
  if (← invocation) ≠ .curly then mark ";"

/-- A body in curly brackets, or else a semicolon. -/
def bodyOrEnd : Parse Unit := do
  if seesGroup .curly (← rest) then g.block true
  else if !(← mark? ";") then missing (SyntaxFault.oneOf ["curly braces", "`;`"])

/-- Members in curly brackets, each of which tells whether it is written as it stands. -/
def members (p : Parse Bool) : Parse Unit :=
  within .curly do
    innerAttributes g
    whileTrue do
      if ← atEnd then return false
      orSpelled do return (← p, ())
      return true

/-- A member of a trait. -/
def traitMember : Parse Bool := do
  attributes g
  let visible ← visibility
  let preset ← word? "default"
  let marked := visible || preset
  let ls ← rest
  let next := ls.drop 1
  if seesFunction false ls ||
      (seesWord "const" ls && seesSomeWord ["async", "unsafe", "extern", "fn"] next) then
    discard (signature g false)
    bodyOrEnd g
    return marked
  else if seesWord "const" ls then
    if seesName next || seesWord "_" next then
      let d ← constantDeclaration g
      return marked || d.constrained
    else
      anyWord
      missing
        (SyntaxFault.oneOf ["identifier", "`_`", "`async`", "`unsafe`", "`extern`", "`fn`"])
  else if seesWord "type" ls then
    discard (typeDeclaration g .behindDefinition)
    return marked
  else if !marked && seesCallStart ls then
    memberCall
    return false
  else
    missing
      (SyntaxFault.oneOf (["`fn`", "`const`", "`type`"] ++ if marked then [] else callStarts))

/-- A member of an implementation. -/
def implementationMember : Parse Bool := do
  attributes g
  let visible ← visibility
  let ls ← rest
  let preset := seesWord "default" ls && !sees "!" (ls.drop 1)
  if preset then anyWord
  let ls ← rest
  if seesFunction false ls then
    discard (signature g false)
    if ← mark? ";" then return true
    g.block true
    return false
  else if seesWord "const" ls then
    let d ← constantDeclaration g
    return d.constrained || !d.defined
  else if seesWord "type" ls then
    let d ← typeDeclaration g .behindDefinition
    return d.constrained || !d.defined
  else if !visible && !preset && seesCallStart ls then
    memberCall
    return false
  else
    missing
      (SyntaxFault.oneOf
        ((if preset then [] else ["`default`"]) ++ ["`fn`", "`const`", "`type`"] ++
          if visible || preset then [] else callStarts))

/-- A variable of a foreign block; is there more to it than name and type? -/
def foreignVariable : Parse Bool := do
  let hazardous ← word? "unsafe"
  let safe ← if hazardous then pure false else word? "safe"
  word "static"
  discard (word? "mut")
  name
  mark ":"
  discard (g.type true)
  let defined ← valueBehind? g
  mark ";"
  return hazardous || safe || defined

/-- A member of a foreign block. -/
def foreignMember : Parse Bool := do
  attributes g
  let visible ← visibility
  let ls ← rest
  if seesFunction true ls then
    let safe ← signature g true
    if seesGroup .curly (← rest) then
      g.block true
      return true
    else
      mark ";"
      return safe
  else if seesWord "static" ls ||
      (seesSomeWord ["unsafe", "safe"] ls && seesWord "static" (ls.drop 1)) then
    foreignVariable g
  else if seesWord "type" ls then
    let d ← typeDeclaration g .anywhere
    return d.constrained || d.defined
  else if !visible && seesCallStart ls then
    memberCall
    return false
  else
    missing
      (SyntaxFault.oneOf (["`fn`", "`static`", "`type`"] ++ if visible then [] else callStarts))

end Abridge.Derive.Syntax

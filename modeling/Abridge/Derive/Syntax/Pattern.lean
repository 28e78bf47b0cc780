import Abridge.Derive.Syntax.Type

/-!
Patterns: what a value is compared with, and the names that it gives to parts of the value.
-/
namespace Abridge.Derive.Syntax

variable (g : Productions)

/-- A path among expressions or patterns. -/
def valuePath : Parse PathForm := path g true

/-- Can a path begin here? -/
def seesPath (ls : List Lexeme) : Bool :=
  seesName ls || seesAny ["::", "<"] ls || seesSomeWord ["self", "Self", "super", "crate"] ls

/-- Is a path together with what follows the call of a macro? -/
def PathForm.isInvoked (p : PathForm) (ls : List Lexeme) : Bool :=
  !p.qualified && p.simple && seesBang ls

/-! ### Ranges -/

/-- What can bound a range. -/
def boundStarts : List String := [
  "literal", "identifier", "`::`", "`<`", "`self`", "`Self`", "`super`", "`crate`", "`const`"]

/-- Can a pattern end here? -/
def seesPatternEnd (ls : List Lexeme) : Bool :=
  ls.isEmpty || seesAny ["|", "=", ",", ";"] ls || (sees ":" ls && !sees "::" ls) ||
    seesWord "if" ls

/-- A bound of a range; is there one? -/
def rangeBound : Parse Bool := do
  let ls ← rest
  if seesPatternEnd ls then return false
  if seesLiteral ls then discard literal
  else if seesPath ls then discard (valuePath g)
  else if ← word? "const" then g.block true
  else missing (SyntaxFault.oneOf boundStarts)
  return true

/-- A range from behind its lower bound; has it an upper one? Three points mean that the upper bound
belongs to it. -/
def rangeRest : Parse Bool := do
  let ls ← rest
  let closed := seesAny ["..=", "..."] ls
  if sees "..." ls then
    skip 3
    write [.mark "..="]
  else mark (if closed then "..=" else "..")
  let bounded ← rangeBound g
  if closed && !bounded then missing "range upper bound"
  return bounded

/-- A range behind its lower bound, if one follows. -/
def rangeBehind : Parse PatternForm := do
  if sees ".." (← rest) then
    if ← rangeRest g then return .other else return .openRange
  else return .other

/-! ### Alternatives -/

/-- A bar between alternatives, and no other mark. -/
def seesBar (ls : List Lexeme) : Bool := sees "|" ls && !seesAny ["||", "|="] ls

/-- Alternatives, with a bar also in front of the first one, if it is wanted. -/
def alternatives : Parse PatternForm := do
  let barred ← mark? "|"
  let form ← g.pattern
  let several ← repeating
    (fun several => do
      if seesBar (← rest) then
        mark "|"
        discard g.pattern
        return (true, true)
      else return (several, false))
    barred
  return if several then .other else form

def anyPattern : Parse Unit := discard (alternatives g)

/-! ### Parts -/

/-- The position of a field, which is written as a plain number. -/
def position (negative : Bool) (s : String) : Parse Unit :=
  match Literal.ofSource s with
  | .int =>
    let (n, suffix) := Literal.wholeNumber s
    if suffix ≠ "" then throw (.other "expected unsuffixed integer")
    else if negative then throw (.other "invalid digit found in string")
    else if 4294967295 < n then throw (.other "number too large to fit in target type")
    else write [.literal (toString n)]
  | _ => throw (.other "expected integer literal")

/-- A field by its name or its position; is it a name? -/
def fieldName : Parse Bool := do
  let ls ← rest
  if seesName ls then
    anyWord
    return true
  match number? ls with
  | some (negative, s, after) =>
    match Literal.ofSource s with
    | .int =>
      modify fun r => { r with rest := after }
      position negative s
      return false
    | _ => missing "identifier or integer"
  | none => missing "identifier or integer"

/-- A field of a pattern, with its own pattern or as the name that it gets. -/
def fieldPattern : Parse Unit := do
  if seesSomeWord ["box", "ref", "mut"] (← rest) then
    discard (word? "box")
    discard (word? "ref")
    discard (word? "mut")
    name
  else
    let named ← fieldName
    if !named || sees ":" (← rest) then
      mark ":"
      anyPattern g

/-- The fields of a pattern; two points stand for all others. -/
def fieldPatterns : Parse Unit :=
  whileTrue do
    if ← atEnd then return false
    attributes g
    if ← mark? ".." then return false
    fieldPattern g
    if ← atEnd then return false
    mark ","
    return true

/-- A pattern that begins with a path. -/
def pathPattern : Parse PatternForm := do
  let p ← valuePath g
  let ls ← rest
  if p.isInvoked ls then discard invocation
  else if seesGroup .curly ls then within .curly (fieldPatterns g)
  else if seesGroup .round ls then within .round (commaSeparated (anyPattern g))
  else return ← rangeBehind g
  return .other

/-- A name for the value, which may have a pattern behind it. -/
def namePattern : Parse Unit := do
  discard (word? "ref")
  discard (word? "mut")
  if !(← word? "self") then name
  if ← mark? "@" then discard g.pattern

/-- A pattern for what a box holds, which is written as it stands. -/
def boxPattern : Parse PatternForm :=
  orSpelled do
    word "box"
    discard g.pattern
    return (true, .spelled)

/-- A pattern in square brackets, where a range with a single bound could be taken for something
else. -/
def elementPattern : Parse Unit := do
  if (← alternatives g) = .openRange then
    throw (.other "range pattern is not allowed unparenthesized inside slice pattern")

/-- Two points, which stand for anything, or a range that has only an upper bound. -/
def pointsPattern : Parse PatternForm := do
  if ← rangeRest g then return .openRange else return .other

/-- Is the name in front the beginning of a longer pattern? -/
def seesLongPattern (ls : List Lexeme) : Bool :=
  let next := ls.drop 1
  (seesName ls &&
    (seesAny ["::", "!", ".."] next || seesGroup .curly next || seesGroup .round next)) ||
  (seesWord "self" ls && sees "::" next) || seesAny ["::", "<"] ls ||
  seesSomeWord ["Self", "super", "crate"] ls

/-- What can begin a pattern. -/
def patternStarts : List String := [
  "identifier", "`::`", "`<`", "`_`", "literal", "`const`", "`ref`", "`mut`", "`&`",
  "parentheses", "square brackets", "`..`", "`const`"]

/-- A pattern without alternatives. -/
def patternOf : Parse PatternForm := do
  let ls ← rest
  if seesLongPattern ls then return ← pathPattern g
  else if seesWord "box" ls then return ← boxPattern g
  else if sees "-" ls || seesLiteral ls || seesWord "const" ls then
    discard (rangeBound g)
    return ← rangeBehind g
  else if sees ".." ls && !sees "..." ls then return ← pointsPattern g
  else if seesWord "_" ls then anyWord
  else if seesSomeWord ["ref", "mut", "self"] ls || seesName ls then namePattern g
  else if ← mark? "&" then
    discard (word? "mut")
    discard g.pattern
  else if seesGroup .round ls then within .round (commaSeparated (anyPattern g))
  else if seesGroup .square ls then within .square (commaSeparated (elementPattern g))
  else missing (SyntaxFault.oneOf patternStarts)
  return .other

end Abridge.Derive.Syntax

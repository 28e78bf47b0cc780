import Abridge.Derive.Syntax.Generic

/-!
Paths, bounds and types. Arguments in angle brackets are written with their lifetimes first.
-/
namespace Abridge.Derive.Syntax

variable (g : Productions)

/-! ### Paths -/

/-- What stands behind the last name of a path. -/
inductive PathEnd where
  | bare
  /-- An empty list in angle brackets, which is written with so many tokens. -/
  | hollow (tokens : Nat)
  | arguments

/-- What a path looks like, as far as its neighbours care. -/
structure PathForm where
  /-- Does it begin with a type in angle brackets? -/
  qualified : Bool
  rooted : Bool
  segments : Nat
  /-- Has none of its segments a list in angle brackets? -/
  simple : Bool
  ending : PathEnd

/-- Words that are a segment on their own. -/
def pathWords : List String := ["super", "self", "crate", "try"]

/-- Does an argument list begin behind a double colon? -/
def seesTurbofish (ls : List Lexeme) : Bool := sees "::" ls && sees "<" (ls.drop 2)

/-- Do round brackets begin here, or behind a double colon? -/
def seesInputs (ls : List Lexeme) : Bool :=
  seesGroup .round ls || (sees "::" ls && seesGroup .round (ls.drop 2))

/-- A segment. In an expression, a list needs a double colon, because an angle bracket alone
compares. -/
def segment (inExpression : Bool) : Parse PathEnd := do
  if seesSomeWord pathWords (← rest) then
    anyWord
    return .bare
  if seesWord "Self" (← rest) then anyWord else name
  let ls ← rest
  if (!inExpression && sees "<" ls && !sees "<=" ls && !sees "<<=" ls) || seesTurbofish ls then
    let turbofish ← mark? "::"
    if ← g.arguments then return .arguments else return .hollow (if turbofish then 3 else 2)
  else return .bare

def PathForm.push (p : PathForm) : PathEnd → PathForm
  | .bare => { p with segments := p.segments + 1, ending := .bare }
  | e => { p with segments := p.segments + 1, simple := false, ending := e }

/-- Segments up to one that no double colon follows; `stops` holds where one does not count. -/
def segments (inExpression : Bool) (stops : List Lexeme → Bool) (p : PathForm) : Parse PathForm :=
  repeating
    (fun p => do
      let p := p.push (← segment g inExpression)
      let ls ← rest
      if sees "::" ls && !stops ls then
        mark "::"
        return (p, true)
      else return (p, false))
    p

/-- A path that does not begin with a type in angle brackets. -/
def plainPath (inExpression : Bool) : Parse PathForm := do
  let rooted ← mark? "::"
  segments g inExpression seesInputs ⟨false, rooted, 0, true, .bare⟩

def path (inExpression : Bool) : Parse PathForm := do
  if ← mark? "<" then
    discard (g.type true)
    if ← word? "as" then discard (plainPath g false)
    mark ">"
    mark "::"
    segments g inExpression (fun _ => false) ⟨true, false, 0, true, .bare⟩
  else plainPath g inExpression

/-- The type of a result, if one is given. -/
def result (plus : Bool) : Parse Unit := do
  if ← mark? "->" then discard (g.type plus)

/-- The types of inputs and result behind a path, if there are any; they take the place of an empty
list. The double colon in front of them is dropped. -/
def inputs? (p : PathForm) : Parse Bool := do
  let ls ← rest
  let hollow? : Option Nat :=
    match p.ending with
    | .bare => some 0
    | .hollow n => some n
    | .arguments => none
  match hollow? with
  | some n =>
    if seesInputs ls then
      modify fun r => { r with written := r.written.drop n }
      if sees "::" ls then skip 2
      within .round (commaSeparated (discard (g.type true)))
      result g false
      return true
    else return false
  | none => return false

/-! ### Bounds -/

/-- Can a bound begin here? -/
def seesBound (constants : Bool) (ls : List Lexeme) : Bool :=
  seesAnyWord ls || seesAny ["::", "?"] ls || seesLifetime ls || seesGroup .round ls ||
    (constants && seesGroup .square ls)

/-- A trait with what may stand in front of it; does it hold for constants? -/
def traitBound (constants : Bool) : Parse Bool := do
  let bound ← binder? g
  let conditional := seesGroup .square (← rest)
  if conditional then
    within .square (word "const")
    if !constants then throw (.other "`[const]` is not allowed here")
  let always ← if conditional then pure false else word? "const"
  if always && !constants then throw (.other "`const` is not allowed here")
  let optional ← mark? "?"
  let bound ← if optional && !bound then binder? g else pure bound
  discard (inputs? g (← plainPath g false))
  if optional && bound then
    throw (.other "`for<...>` binder not allowed with `?` trait polarity modifier")
  return conditional || always

/-- A name that a type holds on to; is it a lifetime? -/
def capturedName : Parse Bool := do
  let ls ← rest
  let isLifetime := seesLifetime ls
  if isLifetime then lifetime
  else if seesName ls || seesWord "Self" ls then anyWord
  else missing (SyntaxFault.oneOf ["lifetime", "identifier", "`>`"])
  if !seesAny [",", ">"] (← rest) then missing (SyntaxFault.oneOf ["`,`", "`>`"])
  return isLifetime

/-- A lifetime, the names that a type holds on to, or a trait, which may stand in round brackets; is
it a trait? A trait that holds for constants is written as it stands. -/
def boundOf (captures constants : Bool) : Parse Bool := do
  let ls ← rest
  if seesLifetime ls then
    lifetime
    return false
  else if ← word? "use" then
    writeListed (← listed capturedName)
    if !captures then
      throw (.other "`use<...>` precise capturing syntax is not allowed here")
    return false
  else
    orSpelled do
      let forConstants ←
        if seesGroup .round ls then within .round (traitBound g constants)
        else traitBound g constants
      return (forConstants, true)

/-- Bounds joined by plus signs, the last of which may have nothing behind it; is one a trait? -/
def bounds (captures constants plus : Bool) : Parse Bool :=
  repeating
    (fun found => do
      let isTrait ← g.bound captures constants
      if plus && sees "+" (← rest) then
        mark "+"
        return (found || isTrait, seesBound constants (← rest))
      else return (found || isTrait, false))
    false

/-! ### Arguments in angle brackets -/

/-- A constant, or else a type. -/
def constantOrType : Parse Unit := do
  let ls ← rest
  if seesLiteral ls || seesGroup .curly ls then constant g else discard (g.type true)

/-- A single argument; is it a lifetime? -/
def argument : Parse Bool := do
  let ls ← rest
  if seesLifetime ls && !sees "+" (ls.drop 1) then
    lifetime
    return true
  else if seesLiteral ls || seesGroup .curly ls then constant g
  else if (← g.type true) = .named then
    if ← mark? "=" then constantOrType g
    else if ← mark? ":" then boundsUntil (seesAny [",", ">"]) (parameterBound g)
  return false

/-- Arguments in angle brackets; are there any? -/
def argumentsOf : Parse Bool := do
  let es ← listed (argument g)
  writeListed es
  return !es.isEmpty

/-! ### Brackets -/

/-- Bounds of an object, one of which has to be a trait. -/
def objectBounds (plus : Bool) : Parse Unit := do
  if !(← bounds g false false plus) then
    throw (.other "at least one trait is required for an object type")

/-- A plus sign and a bound, as often as they follow; do they at all? -/
def addedBounds : Parse Bool :=
  repeating
    (fun found => do
      if ← mark? "+" then
        discard (g.bound false false)
        return (true, true)
      else return (found, false))
    false

/-- What stands in round brackets. -/
inductive Bracketed where
  /-- A trait that need not hold. -/
  | optionalTrait
  /-- A single type. -/
  | single (form : TypeForm)
  | other

def bracketedInside : Parse Bracketed := do
  let ls ← rest
  if ls.isEmpty then return .other
  else if seesLifetime ls then
    objectBounds g true
    return .other
  else if sees "?" ls then
    discard (traitBound g false)
    return .optionalTrait
  else
    let form ← g.type true
    if ← mark? "," then
      commaSeparated (discard (g.type true))
      return .other
    else return .single form

/-- Brackets around brackets that were written last are taken away. -/
def unwrapWritten : Parse Unit :=
  modify fun r =>
    match r.written with
    | .group .round [t] :: ts => { r with written := t :: ts }
    | _ => r

/-- A type in round brackets: none, several, or a single one, which can be the first of several
bounds. -/
def bracketed (plus : Bool) : Parse TypeForm := do
  match ← within .round (bracketedInside g) with
  | .optionalTrait => if ← addedBounds g then return .other else return .wrappedBound
  | .single form =>
    if plus && sees "+" (← rest) && form ≠ .other then
      if form = .wrappedBound then unwrapWritten
      discard (addedBounds g)
    return .other
  | .other => return .other

/-- A slice, or an array with its length. -/
def squareType : Parse Unit :=
  within .square do
    discard (g.type true)
    if ← mark? ";" then discard (g.expression true)

/-! ### Functions -/

/-- The convention by which a function is called, if one is given. -/
def convention : Parse Unit := do
  if ← word? "extern" then
    if seesText (← rest) then discard literal

/-- Is the function itself given here, so that it can be changed? -/
def seesMutableSelf (ls : List Lexeme) : Bool := seesWord "mut" ls && seesWord "self" (ls.drop 1)

/-- A name with a colon, if one follows. -/
def inputName (isName : List Lexeme → Bool) : Parse Bool := do
  let ls ← rest
  if isName ls && sees ":" (ls.drop 1) && !sees "::" (ls.drop 1) then
    anyWord
    mark ":"
    return true
  else return false

/-- Can this be the name of an input? -/
def seesInputName (ls : List Lexeme) : Bool := seesName ls || seesWord "_" ls

/-- An input of a function type. The first one may be called `self`; one that is changed is written
as it stands. -/
def functionInput (first : Bool) : Parse Unit :=
  orSpelled do
    let ls ← rest
    let changed := first && seesMutableSelf ls
    if changed then anyWord
    let isSelf := first && seesWord "self" (← rest)
    let named ← inputName fun ls => seesInputName ls || (first && seesWord "self" ls)
    if first && !(named && isSelf) && seesMutableSelf (← rest) then
      anyWord
      anyWord
      return (true, ())
    else if changed && !named then
      word "self"
      return (true, ())
    else
      discard (g.type true)
      return (changed, ())

/-- Do three points stand here, which may have a name, for all further inputs? -/
def seesOpenEnd (ls : List Lexeme) : Bool :=
  sees "..." ls || (seesInputName ls && sees ":" (ls.drop 1) && sees "..." (ls.drop 2))

/-- The inputs of a function type. -/
def functionInputs : Parse Unit := do
  discard <| repeating
    (fun first => do
      if ← atEnd then return (first, false)
      attributes g
      if seesOpenEnd (← rest) then
        discard (inputName seesInputName)
        mark "..."
        discard (mark? ",")
        return (first, false)
      functionInput g first
      if ← atEnd then return (first, false)
      mark ","
      return (false, true))
    true

def functionType : Parse Unit := do
  discard (word? "unsafe")
  convention
  word "fn"
  within .round (functionInputs g)
  result g false

/-! ### Types -/

/-- The call of a macro, from behind its path. -/
def invocation : Parse Delimiter := do
  mark "!"
  sealedGroup

/-- A plus sign and a bound, as often as they follow; the last sign may have nothing behind it. -/
def openBounds : Parse Unit :=
  whileTrue do
    if ← mark? "+" then
      if seesBound false (← rest) then
        discard (g.bound false false)
        return true
      else return false
    else return false

/-- A type that begins with a path, behind the parameters that hold for it. For the call of a macro
these are left out. -/
def pathType (plus bound : Bool) (binder : List Token) : Parse TypeForm := do
  let ((p, called), ts) ← aside do
    let p ← path g false
    return (p, ← inputs? g p)
  let ls ← rest
  if seesBang ls && p.simple && !p.qualified && !called then
    write ts
    discard invocation
    return .other
  write (binder ++ ts)
  if p.qualified then return .other
  else if plus && sees "+" ls then
    openBounds g
    return .other
  else if bound then return .bound
  else if p.segments = 1 && !p.rooted && !called then return .named
  else return .path

/-- An object of some trait. With an asterisk it is written as it stands. -/
def objectType (plus : Bool) : Parse TypeForm :=
  orSpelled do
    word "dyn"
    let starred ← mark? "*"
    objectBounds g plus
    return (starred, .other)

/-- Any type with the given bounds. -/
def impliedType (plus : Bool) : Parse TypeForm := do
  word "impl"
  if ← bounds g true true plus then return .other
  else throw (.other "at least one trait must be specified")

/-- A pointer tells whether its target may be changed. -/
def pointerType : Parse TypeForm := do
  mark "*"
  if seesSomeWord ["const", "mut"] (← rest) then anyWord
  else missing (SyntaxFault.oneOf ["`const`", "`mut`"])
  discard (g.type false)
  return .other

def referenceType : Parse TypeForm := do
  mark "&"
  if seesLifetime (← rest) then lifetime
  discard (word? "mut")
  discard (g.type false)
  return .other

/-- What can begin a type. -/
def typeStarts : List String := [
  "`for`", "parentheses", "`fn`", "`unsafe`", "`extern`", "identifier", "`::`", "`<`", "`dyn`",
  "square brackets", "`*`", "`&`", "`!`", "`impl`", "`_`", "lifetime"]

/-- What can follow the parameters that hold for a type. -/
def boundTypeStarts : List String := [
  "identifier", "`fn`", "`unsafe`", "`extern`", "`super`", "`self`", "`Self`", "`crate`"]

/-- A type behind the parameters that hold for it. -/
def boundType (plus : Bool) (binder : List Token) : Parse TypeForm := do
  let ls ← rest
  if seesSomeWord ["fn", "unsafe", "extern"] ls then
    write binder
    functionType g
    return .other
  else if seesName ls || seesSomeWord ["super", "self", "Self", "crate"] ls then
    pathType g plus true binder
  else missing (SyntaxFault.oneOf boundTypeStarts)

def typeOf (plus : Bool) : Parse TypeForm := do
  let (bound, binder) ← aside (binder? g)
  let ls ← rest
  if bound then boundType g plus binder
  else if seesGroup .round ls then bracketed g plus
  else if seesSomeWord ["fn", "unsafe", "extern"] ls then
    functionType g
    return .other
  else if seesName ls || seesSomeWord ["super", "self", "Self", "crate"] ls ||
      seesAny ["::", "<"] ls then
    pathType g plus false []
  else if seesWord "dyn" ls then objectType g plus
  else if seesWord "impl" ls then impliedType g plus
  else if sees "*" ls then pointerType g
  else if sees "&" ls then referenceType g
  else if seesGroup .square ls then
    squareType g
    return .other
  else if sees "!" ls then
    mark "!"
    return .other
  else if seesWord "_" ls then
    anyWord
    return .other
  else if seesLifetime ls then
    objectBounds g true
    return .other
  else missing (SyntaxFault.oneOf typeStarts)

end Abridge.Derive.Syntax

import Abridge.Derive.Syntax.Member

/-!
Declarations. One that is valid only as a text, such as a constant without a value, is written as it
stands, with its attributes.
-/
namespace Abridge.Derive.Syntax

variable (g : Productions)

/-! ### Names from elsewhere -/

/-- What is taken over from some path, with at most `n` parts in one another. A part inside of
brackets that begins with a double colon, which `mayBeRooted` allows, has no form of its own; is
there one? -/
def useTree : Nat → (mayBeRooted : Bool) → Parse Bool
  | 0, _ => throw (.other "too many levels")
  | n + 1, mayBeRooted => do
    let ls ← rest
    if seesName ls || seesSomeWord ["self", "super", "crate", "try"] ls then
      anyWord
      if ← mark? "::" then return ← useTree n false
      if ← word? "as" then
        let ls ← rest
        if seesName ls || seesWord "_" ls then anyWord else missing "identifier or underscore"
      return false
    else if sees "*" ls then
      mark "*"
      return false
    else if seesGroup .curly ls then
      within .curly do
        repeating
          (fun found => do
            if ← atEnd then return (found, false)
            let rooted ← if mayBeRooted then mark? "::" else pure false
            let inside ← useTree n (mayBeRooted && !rooted)
            let found := found || rooted || inside
            if ← atEnd then return (found, false)
            mark ","
            return (found, true))
          false
    else
      missing
        (SyntaxFault.oneOf
          ["identifier", "`self`", "`super`", "`crate`", "`try`", "`*`", "curly braces"])

def useItem : Parse Bool := do
  discard visibility
  word "use"
  let rooted ← mark? "::"
  let found ← useTree (Lexeme.sizeAll (← rest) + 1) (!rooted)
  mark ";"
  return found

/-- Another library. -/
def libraryItem : Parse Unit := do
  discard visibility
  word "extern"
  word "crate"
  if !(← word? "self") then name
  if ← word? "as" then
    if !(← word? "_") then name
  mark ";"

/-! ### Values -/

def functionItem : Parse Bool := do
  discard visibility
  discard (signature g false)
  if ← mark? ";" then return true
  g.block true
  return false

/-- A variable; type and value may not be missing. -/
def variableItem : Parse Bool := do
  discard visibility
  word "static"
  discard (word? "mut")
  name
  let typed := !sees "=" (← rest)
  if typed then
    mark ":"
    discard (g.type true)
    if ← mark? ";" then return true
  mark "="
  anyExpression g
  mark ";"
  return !typed

def constantItem : Parse Bool := do
  discard visibility
  let d ← constantDeclaration g
  return d.constrained || !d.defined

/-! ### Types -/

def typeItem : Parse Bool := do
  discard visibility
  let d ← typeDeclaration g .beforeDefinition
  return d.constrained || !d.defined

/-- A struct. Predicates stand in front of fields with names and behind others. -/
def structItem : Parse Unit := do
  discard visibility
  word "struct"
  name
  discard (parameters g)
  let limited ← predicates g
  let ls ← rest
  if !limited && seesGroup .round ls then
    positionalFields g
    let limited ← predicates g
    if !(← mark? ";") then
      missing (SyntaxFault.oneOf (if limited then ["`;`"] else ["`where`", "`;`"]))
  else if seesGroup .curly ls then namedFields g
  else if !(← mark? ";") then
    missing
      (SyntaxFault.oneOf
        ((if limited then [] else ["`where`", "parentheses"]) ++ ["curly braces", "`;`"]))

def enumItem : Parse Unit := do
  discard visibility
  word "enum"
  name
  discard (parameters g)
  discard (predicates g)
  within .curly (commaSeparated (variant g))

def unionItem : Parse Unit := do
  discard visibility
  word "union"
  name
  discard (parameters g)
  discard (predicates g)
  namedFields g

/-! ### Traits -/

/-- A trait from behind its parameters. -/
def traitRest : Parse Unit := do
  let ends (ls : List Lexeme) : Bool := seesWord "where" ls || seesGroup .curly ls
  discard (afterColon (boundsUpTo ends (parameterBound g)))
  discard (predicates g)
  members g (traitMember g)

/-- A trait that something is said about in front of its name. -/
def markedTraitItem : Parse Unit := do
  discard visibility
  discard (word? "unsafe")
  discard (word? "auto")
  word "trait"
  name
  discard (parameters g)
  traitRest g

/-- A trait, or another name for several. -/
def traitItem : Parse Unit := do
  discard visibility
  word "trait"
  name
  discard (parameters g)
  let ls ← rest
  if seesGroup .curly ls || sees ":" ls || seesWord "where" ls then traitRest g
  else if ← mark? "=" then
    boundsUpTo (fun ls => seesWord "where" ls || sees ";" ls) (discard (g.bound false false))
    discard (predicates g)
    mark ";"
  else missing (SyntaxFault.oneOf ["curly braces", "`:`", "`where`", "`=`"])

/-- An implementation. Only a path can be a trait, and neither visibility nor a trait that holds for
constants have a form of their own. -/
def implementationItem : Parse Bool := do
  let visible ← visibility
  discard (word? "default")
  discard (word? "unsafe")
  word "impl"
  if seesParameters (← rest) then discard (parameters g)
  let ls ← rest
  let forConstants := seesWord "const" ls || (sees "?" ls && seesWord "const" (ls.drop 1))
  if forConstants then
    discard (mark? "?")
    word "const"
  let ls ← rest
  let negative := sees "!" ls && !seesGroup .curly (ls.drop 1)
  if negative then mark "!"
  let form ← g.type true
  let ofTrait ← word? "for"
  if ofTrait then discard (g.type true)
  else if negative then throw (.other "inherent impls cannot be negative")
  discard (predicates g)
  members g (implementationMember g)
  return visible || forConstants || (ofTrait && form ≠ .named && form ≠ .path)

/-! ### Groups of declarations -/

def moduleItem : Parse Unit := do
  discard visibility
  discard (word? "unsafe")
  word "mod"
  if !(← word? "try") then name
  if seesGroup .curly (← rest) then
    within .curly do
      innerAttributes g
      whileTrue do
        if ← atEnd then return false
        g.item
        return true
  else if !(← mark? ";") then missing (SyntaxFault.oneOf ["`;`", "curly braces"])

def foreignItem : Parse Unit := do
  discard (word? "unsafe")
  if !seesWord "extern" (← rest) then missing "`extern`"
  convention
  members g (foreignMember g)

/-! ### Macros -/

/-- The definition of a macro by its name, its inputs and its body. -/
def ruleItem : Parse Unit := do
  discard visibility
  word "macro"
  name
  let inputs := seesGroup .round (← rest)
  if inputs then discard sealedGroup
  if seesGroup .curly (← rest) then discard sealedGroup
  else missing (SyntaxFault.oneOf ((if inputs then [] else ["parentheses"]) ++ ["curly braces"]))

/-- The call of a macro that declares something; it may give it a name. -/
def callItem : Parse Unit := do
  simplePath
  mark "!"
  let ls ← rest
  if seesName ls || seesWord "try" ls then anyWord
  if (← sealedGroup) ≠ .curly then mark ";"

/-! ### All declarations -/

/-- What can begin a declaration. -/
def itemStarts : List String := [
  "`fn`", "`extern`", "`use`", "`static`", "`const`", "`unsafe`", "`mod`", "`type`", "`struct`",
  "`enum`", "`union`", "`trait`", "`auto`", "`impl`", "`default`", "`macro`"]

/-- A foreign block or another library; `ls` is what stands behind the visibility. -/
def externItem (ls : List Lexeme) : Parse Unit := do
  let next := ls.drop 1
  if seesWord "crate" next then libraryItem
  else if seesGroup .curly next || (seesText next && seesGroup .curly (next.drop 1)) then
    foreignItem g
  else
    discard visibility
    word "extern"
    if seesText next then
      discard literal
      missing "curly braces"
    else missing (SyntaxFault.oneOf ["`crate`", "curly braces", "string literal"])

/-- A declaration that has to be marked as unsafe; `ls` is what stands behind the visibility. -/
def unsafeItem (ls : List Lexeme) : Parse Bool := do
  let next := ls.drop 1
  if seesWord "trait" next || (seesWord "auto" next && seesWord "trait" (next.drop 1)) then
    markedTraitItem g
    return false
  else if seesWord "impl" next then implementationItem g
  else if seesWord "extern" next then
    foreignItem g
    return false
  else if seesWord "mod" next then
    moduleItem g
    return false
  else
    discard visibility
    word "unsafe"
    missing (SyntaxFault.oneOf ["`trait`", "`auto`", "`impl`", "`extern`", "`mod`"])

/-- A declaration without its attributes; is it written as it stands? -/
def bareItem : Parse Bool := do
  let (visible, ls) ← lookPast visibility
  let next := ls.drop 1
  if seesFunction false ls then return ← functionItem g
  else if seesWord "use" ls then return ← useItem
  else if seesWord "static" ls then return ← variableItem g
  else if seesWord "const" ls then return ← constantItem g
  else if seesWord "unsafe" ls then return ← unsafeItem g ls
  else if seesWord "type" ls then return ← typeItem g
  else if seesWord "impl" ls || (seesWord "default" ls && !sees "!" next) then
    return ← implementationItem g
  else if seesWord "macro" ls then
    ruleItem
    return true
  else if seesWord "extern" ls then externItem g ls
  else if seesWord "mod" ls then moduleItem g
  else if seesWord "struct" ls then structItem g
  else if seesWord "enum" ls then enumItem g
  else if seesWord "union" ls && seesName next then unionItem g
  else if seesWord "trait" ls then traitItem g
  else if seesWord "auto" ls && seesWord "trait" next then markedTraitItem g
  else if !visible && seesCallStart ls then callItem
  else
    discard visibility
    missing (SyntaxFault.oneOf (itemStarts ++ if visible then [] else callStarts))
  return false

/-- A declaration with its attributes. -/
def itemOf : Parse Unit :=
  orSpelled do
    attributes g
    return (← bareItem g, ())

end Abridge.Derive.Syntax

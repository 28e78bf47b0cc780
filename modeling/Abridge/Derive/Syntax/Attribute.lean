import Abridge.Derive.Syntax.Production

/-!
Attributes: a path with nothing behind it, with brackets that are not looked into, or with a value.
-/
namespace Abridge.Derive.Syntax

variable (g : Productions)

/-! ### Plain paths -/

/-- Can a part of a plain path stand here? -/
def seesPathWord (ls : List Lexeme) : Bool :=
  seesName ls || seesSomeWord ["super", "self", "Self", "crate"] ls

/-- Words joined by double colons, one of which may also stand in front. -/
def simplePath : Parse Unit := do
  discard (mark? "::")
  if !seesPathWord (← rest) then name
  whileTrue do
    anyWord
    if ← mark? "::" then
      if seesPathWord (← rest) then return true
      else missing "path segment after `::`"
    else return false

/-! ### What an attribute holds -/

/-- A value. A literal that ends the list is taken with its sign. -/
def value : Parse Expression := do
  let ls ← rest
  match literal? ls with
  | some (_, _, []) => return .literal (← literal)
  | _ =>
    if sees "#" ls && seesGroup .square (ls.drop 1) then
      throw (.other "unexpected attribute inside of attribute")
    else g.expression true

def attributeContent : Parse Unit := do
  if !(← word? "unsafe") then simplePath
  match ← rest with
  | .group _ _ :: _ => discard sealedGroup
  | _ => if ← mark? "=" then discard (value g)

/-! ### Places -/

/-- Attributes in front of something. -/
def attributes : Parse Unit :=
  whileTrue do
    if ← mark? "#" then
      within .square (attributeContent g)
      return true
    else return false

/-- Attributes of the group that they stand in. -/
def innerAttributes : Parse Unit :=
  whileTrue do
    let ls ← rest
    if sees "#" ls && sees "!" (ls.drop 1) then
      mark "#"
      mark "!"
      within .square (attributeContent g)
      return true
    else return false

end Abridge.Derive.Syntax

/-!
Type definitions with their attributes. Names may carry the mark of a raw identifier; types, bounds
and expressions are kept as text.
-/
namespace Abridge.Derive

/-- An item of an attribute: `key`, `key = value`, `key(items)`, or a text alone. -/
inductive Item where
  | lone (s : String)
  | word (key : String)
  | text (key value : String)
  | int (key : String) (z : Int)
  | bool (key : String) (b : Bool)
  | expr (key source : String)
  | list (key : String) (items : List Item)

/-- The key of an item, if it is not a text alone. -/
def Item.key? : Item → Option String
  | .lone _ => none
  | .word k => some k
  | .text k _ => some k
  | .int k _ => some k
  | .bool k _ => some k
  | .expr k _ => some k
  | .list k _ => some k

/-- What follows the path of an attribute. -/
inductive Arguments where
  | nothing
  | equals (value : String)
  | items (items : List Item)

structure Attribute where
  path : String
  arguments : Arguments

structure NamedField where
  name : String
  type : String
  attributes : List Attribute

structure PositionalField where
  type : String
  attributes : List Attribute

inductive Fields where
  | named (fields : List NamedField)
  | positional (fields : List PositionalField)
  | unit

structure Variant where
  name : String
  fields : Fields
  attributes : List Attribute

inductive Parameter where
  | lifetime (name : String) (bounds : List String)
  | type (name : String) (bounds : List String) (standard : Option String)
  | const (name type : String) (standard : Option String)

/-- `type: bound + bound` -/
structure Predicate where
  type : String
  bounds : List String

structure Generics where
  parameters : List Parameter
  predicates : List Predicate

inductive Body where
  | struct (fields : Fields)
  | enum (variants : List Variant)
  | union

structure Definition where
  name : String
  attributes : List Attribute
  generics : Generics
  body : Body

/-- The name without the mark of a raw identifier. -/
def unraw (name : String) : String :=
  match name.toList with
  | 'r' :: '#' :: rest => String.ofList rest
  | _ => name

/-- The names of the type parameters. -/
def Generics.typeNames (g : Generics) : List String :=
  g.parameters.filterMap fun
    | .type n _ _ => some n
    | _ => none

end Abridge.Derive

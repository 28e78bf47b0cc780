import Abridge.Text.Quoted

/-!
Names of record fields. A field has a declared name and may have a tag, a list of items separated by
commas whose first item is the name to emit; the tag `-` keeps the field from being emitted.
-/
namespace Abridge

structure Descriptor where
  name : String
  tag : Option String
  deriving DecidableEq

namespace Descriptor

/-- The characters before the first comma. -/
def firstItem (tag : String) : String := String.ofList (tag.toList.takeWhile (· ≠ ','))

/-- The name under which a field is emitted, if it is. A tag whose first item is empty leaves the
declared name. -/
def emitted? (d : Descriptor) : Option String :=
  match d.tag with
  | none => some d.name
  | some tag =>
    if tag = "-" then none
    else if firstItem tag = "" then some d.name
    else some (firstItem tag)

def inspect (d : Descriptor) : String :=
  let tag :=
    match d.tag with
    | none => "None"
    | some t => "Some(" ++ Text.inspectQuoted t ++ ")"
  "FieldDescriptor \x7b name: " ++ Text.inspectQuoted d.name ++ ", tag: " ++ tag ++ " \x7d"

end Descriptor

end Abridge

import Abridge.Derive.Plan
import Abridge.Value

/-!
Values of defined types, shown according to the plan of their type.
-/
namespace Abridge.Derive

/-- A value of a defined type: its named fields, its positional fields, its variant, and its text. A
plan uses the part that fits its kind. -/
structure Instance where
  members : List (String × Value)
  positions : List Value
  variant : String
  rendering : String

/-- A named field; one that the value does not have is absent. -/
def Instance.member (x : Instance) (name : String) : Value :=
  (x.members.lookup name).getD .absent

def Instance.position (x : Instance) (i : Nat) : Value := x.positions[i]?.getD .absent

/-- How a value of the type shows itself. -/
def Plan.present (p : Plan) (x : Instance) : Value :=
  match p.presentation with
  | .record fs => .record (fs.map fun f => (f.descriptor, x.member f.member))
  | .unitRecord => .record []
  | .transparent i => x.position i
  | .sequence is => .list (is.map x.position)
  | .unitEnum vs =>
    match vs.find? (·.identifier = x.variant) with
    | some v => .text v.name
    | none => .unsupported
  | .display => .special (.text x.rendering)
  | .error => .special (.error x.rendering)

end Abridge.Derive

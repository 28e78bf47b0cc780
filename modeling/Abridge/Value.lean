import Abridge.Complex
import Abridge.Descriptor
import Abridge.Fault
import Abridge.Time.Span
import Abridge.Time.Stamp

/-!
Values as they show themselves to the trimmer: each value has a shape, and a container shows the
values in it. Looking may panic, so a value may also be one whose shape, or one whose content,
panics when it is asked for.
-/
namespace Abridge

/-- Plain data. -/
inductive Scalar where
  | bool (b : Bool)
  | int (z : Int)
  | uint (n : Nat)
  | float (x : Binary64)
  | complex (z : Complex)
  | text (s : String)

/-- Data with a text of its own. -/
inductive Special where
  | error (message : String)
  | stamp (t : Stamp)
  | span (d : Span)
  | text (s : String)

inductive ContainerKind where | record | map | seq
  deriving DecidableEq

inductive Value where
  | absent
  | scalar (s : Scalar)
  | special (s : Special)
  /-- Present, where it might have been absent. -/
  | optional (inner : Value)
  /-- A value whose type is known only when it is looked at. -/
  | dynamic (inner : Value)
  | record (fields : List (Descriptor × Value))
  | map (entries : List (String × Value))
  /-- A sequence and the length it claims to have. -/
  | seq (length : Nat) (items : List Value)
  | unsupported
  /-- Asking for the shape panics. -/
  | faulty (fault : Fault)
  /-- Asking for the fields, the entries, or the length or items panics. -/
  | broken (kind : ContainerKind) (fault : Fault)

namespace Value

/-- A sequence that knows its length. -/
def list (items : List Value) : Value := .seq items.length items

def text (s : String) : Value := .scalar (.text s)

/-- The name of the shape; none if asking for it panics. -/
def kind : Value → Except Fault String
  | .absent => .ok "absent"
  | .scalar _ => .ok "scalar"
  | .special _ => .ok "special"
  | .optional _ => .ok "optional"
  | .dynamic _ => .ok "dynamic"
  | .record _ => .ok "record"
  | .map _ => .ok "map"
  | .seq _ _ => .ok "sequence"
  | .unsupported => .ok "unsupported"
  | .faulty f => .error f
  | .broken .record _ => .ok "record"
  | .broken .map _ => .ok "map"
  | .broken .seq _ => .ok "sequence"

end Value

end Abridge

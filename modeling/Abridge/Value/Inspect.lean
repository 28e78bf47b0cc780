import Abridge.Value

/-!
Descriptions of values: data in full, containers by the name of their shape.
-/
namespace Abridge

def floatInspect (x : Binary64) : String := String.ofList (x.text .inspect)

def Scalar.inspect : Scalar → String
  | .bool b => "Bool(" ++ (if b then "true" else "false") ++ ")"
  | .int z => "Int(" ++ toString z ++ ")"
  | .uint n => "Uint(" ++ toString n ++ ")"
  | .float x => "Float(" ++ floatInspect x ++ ")"
  | .complex z =>
    "Complex(Complex \x7b re: " ++ floatInspect z.re ++ ", im: " ++ floatInspect z.im ++ " \x7d)"
  | .text s => "Str(" ++ Text.inspectQuoted s ++ ")"

def Special.inspect : Special → String
  | .error m => "Error(" ++ Text.inspectQuoted m ++ ")"
  | .stamp t => "Timestamp(" ++ t.inspect ++ ")"
  | .span d => "Duration(" ++ d.inspect ++ ")"
  | .text s => "Text(" ++ Text.inspectQuoted s ++ ")"

namespace Value

def inspect : Value → Except Fault String
  | .scalar s => .ok ("Scalar(" ++ s.inspect ++ ")")
  | .special s => .ok ("Special(" ++ s.inspect ++ ")")
  | v => v.kind

/-- A field of a record, without its value. -/
def fieldInspect (d : Descriptor) : String := "Field \x7b descriptor: " ++ d.inspect ++ ", .. \x7d"

end Value

end Abridge

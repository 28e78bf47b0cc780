import Abridge.Binary64.Text

/-!
Complex numbers of two floats.
-/
namespace Abridge

structure Complex where
  re : Binary64
  im : Binary64
  deriving DecidableEq

namespace Complex

def zero : Complex := ⟨Binary64.zero, Binary64.zero⟩

/-- Numeric equality of both parts. -/
def same (x y : Complex) : Bool := x.re.same y.re && x.im.same y.im

/-- `(re+imi)`; no plus stands before an imaginary part with its sign bit set. -/
def text (z : Complex) : String :=
  let plus := if z.im.isNegative then [] else ['+']
  String.ofList ('(' :: (z.re.text .plain ++ plus ++ z.im.text .plain ++ ['i', ')']))

/-- What is said of a number where only JSON can stand. -/
def refusal (z : Complex) : String := "unsupported value: complex number " ++ z.text

end Complex

end Abridge

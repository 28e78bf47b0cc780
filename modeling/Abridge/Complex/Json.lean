import Abridge.Complex
import Abridge.Json.Decode

/-!
Complex numbers as JSON documents: an object of both parts, or an array of the two.
-/
namespace Abridge.Complex

/-- The text of the object, real part first. A part that is not finite is null. -/
def jsonText (z : Complex) : String :=
  String.ofList ("\x7b\"re\":".toList ++ Json.floatText z.re ++ ",\"im\":".toList ++
    Json.floatText z.im ++ ['\x7d'])

/-- Both parts as far as they have been read. -/
def readMember (parts : Option Binary64 × Option Binary64) (m : String × Json) :
    Except Mismatch (Option Binary64 × Option Binary64) :=
  if m.1 = "re" then return (some (← m.2.double), parts.2)
  else if m.1 = "im" then return (parts.1, some (← m.2.double))
  else return parts

def ofJson : Json → Except Mismatch Complex
  | .object es => do
    match ← es.foldlM readMember (none, none) with
    | (none, _) => .error (.missingField "re")
    | (_, none) => .error (.missingField "im")
    | (some re, some im) => return ⟨re, im⟩
  | .array xs =>
    match xs with
    | [] => .error (.wrongLength 0 "struct Complex with 2 elements")
    | [a] => do
      let _ ← a.double
      .error (.wrongLength 1 "struct Complex with 2 elements")
    | a :: b :: rest => do
      let re ← a.double
      let im ← b.double
      if rest.isEmpty then return ⟨re, im⟩ else .error (Json.tooLong xs)
  | d => .error (.wrongType d "struct Complex")

end Abridge.Complex

import Abridge.Event
import Abridge.Trim

/-!
Trimming that never fails: a panic is caught, reported as an event and put in place of the tree. A
tree without a JSON text has the empty text, and a text that is too long is reported but kept.
-/
namespace Abridge

/-- Why there is no JSON text of a trimmed value. -/
inductive Failure where
  | panicked (fault : Fault)
  | noText (z : Complex)
  deriving DecidableEq

def Failure.message : Failure → String
  | .panicked f => f.report
  | .noText z => "failed to serialize trimmed value: " ++ z.refusal

namespace Event

def source : String := "logtrim::api"

def recovered (f : Fault) : Event :=
  ⟨.error, source, "Recovered from panic while trimming value", [("error", f.report)]⟩

def noText (z : Complex) : Event :=
  ⟨.debug, source, "Trimmed value has no JSON form", [("error", (Failure.noText z).message)]⟩

def tooLong (size : Nat) (limit : Int) : Event :=
  ⟨.debug, source, "Trimmed payload exceeds whole-payload limit",
    [("size", toString size), ("whole_limit", toString limit)]⟩

end Event

/-- The text, with a report if the policy has a limit for it and it is longer, counted in bytes. -/
def Policy.checkWhole (p : Policy) (s : String) : Logged String :=
  if 0 < p.wholeLimit ∧ p.wholeLimit < s.utf8ByteSize then
    ⟨s, [Event.tooLong s.utf8ByteSize p.wholeLimit]⟩
  else ⟨s, []⟩

namespace Value

/-- The tree of a value; the text of a panic takes its place. -/
def report (p : Policy) (v : Value) : Logged Tree :=
  match v.trim p with
  | .ok t => ⟨t, []⟩
  | .error f => ⟨.text f.report, [Event.recovered f]⟩

theorem report_of_ok {p : Policy} {v : Value} {t : Tree} (h : v.trim p = .ok t) :
    v.report p = ⟨t, []⟩ := by
  rw [report, h]

theorem report_of_error {p : Policy} {v : Value} {f : Fault} (h : v.trim p = .error f) :
    v.report p = ⟨.text f.report, [Event.recovered f]⟩ := by
  rw [report, h]

/-- The JSON text of the reported tree, empty if there is none. -/
def reportText (p : Policy) (v : Value) : Logged String := do
  let t ← v.report p
  match t.json with
  | .ok s => p.checkWhole s
  | .error z => ⟨"", [Event.noText z]⟩

/-- The JSON text of a value, or why there is none. -/
def text? (p : Policy) (v : Value) : Logged (Except Failure String) :=
  match v.trim p with
  | .error f => ⟨.error (.panicked f), []⟩
  | .ok t =>
    match t.json with
    | .ok s => (p.checkWhole s).map .ok
    | .error z => ⟨.error (.noText z), []⟩

end Value

end Abridge

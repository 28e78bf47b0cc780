/-!
Panics: what is left of one is the text that it was raised with, if it was raised with a text.
-/
namespace Abridge

inductive Fault where
  | text (message : String)
  /-- Raised with something that is no text. -/
  | wordless
  deriving DecidableEq

/-- The text, if there is one. -/
def Fault.text? : Fault → Option String
  | .text m => some m
  | .wordless => none

def Fault.message : Fault → String
  | .text m => m
  | .wordless => "unknown panic payload"

/-- What is said of a panic that was caught. -/
def Fault.report (f : Fault) : String := "panic recovery: " ++ f.message

end Abridge

/-!
Log events, and results together with the events on the way to them.
-/
namespace Abridge

inductive Level where | error | info | debug
  deriving DecidableEq

def Level.name : Level → String
  | .error => "ERROR"
  | .info => "INFO"
  | .debug => "DEBUG"

structure Event where
  level : Level
  target : String
  message : String
  fields : List (String × String)
  deriving DecidableEq

/-- A result and the events emitted while it was found, the earliest first. -/
structure Logged (α : Type) where
  value : α
  events : List Event

namespace Logged

variable {α β : Type}

def pure (x : α) : Logged α := ⟨x, []⟩

/-- One step after another; the events of the first come first. -/
def bind (x : Logged α) (f : α → Logged β) : Logged β :=
  let y := f x.value
  ⟨y.value, x.events ++ y.events⟩

def map (f : α → β) (x : Logged α) : Logged β := ⟨f x.value, x.events⟩

instance : Monad Logged where
  pure := pure
  bind := bind

def emit (e : Event) : Logged Unit := ⟨(), [e]⟩

end Logged

end Abridge

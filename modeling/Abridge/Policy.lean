/-!
Limits for trimming, and the names that are never shown.
-/
namespace Abridge

/-- Names in order, each once. -/
def insertName (n : String) : List String → List String
  | [] => [n]
  | m :: rest =>
    if n < m then n :: m :: rest else if n = m then m :: rest else m :: insertName n rest

def nameSet (ns : List String) : List String := ns.foldl (fun acc n => insertName n acc) []

/-- Limits of zero or less: no array items, no limit on strings, no content below the root, no limit
on the whole text. -/
structure Policy where
  /-- Items kept of a sequence. -/
  arrayLimit : Int
  /-- Characters kept of a text. -/
  stringLimit : Int
  /-- Nested records and maps. -/
  depthLimit : Int
  /-- Bytes of a JSON text above which it is reported as too long. -/
  wholeLimit : Int
  /-- Names that are hidden. -/
  ignores : List String
  deriving DecidableEq

namespace Policy

def standard : Policy := ⟨3, 128, 10, 4096, []⟩

/-- A setting of one limit, or of the set of hidden names. -/
inductive Setting where
  | array (n : Int)
  | string (n : Int)
  | depth (n : Int)
  | whole (n : Int)
  | ignores (names : List String)

def set (p : Policy) : Setting → Policy
  | .array n => { p with arrayLimit := n }
  | .string n => { p with stringLimit := n }
  | .depth n => { p with depthLimit := n }
  | .whole n => { p with wholeLimit := n }
  | .ignores ns => { p with ignores := nameSet ns }

/-- Settings are applied in order, so that a later one counts. -/
def apply (p : Policy) (settings : List Setting) : Policy := settings.foldl set p

def ofSettings (settings : List Setting) : Policy := standard.apply settings

/-- Hides one more name. -/
def ignore (p : Policy) (name : String) : Policy := { p with ignores := insertName name p.ignores }

/-- Names that begin so are internal and never shown. -/
def internalMark : List Char := ['X', 'X', 'X', '_']

def isInternal (name : String) : Bool := internalMark.isPrefixOf name.toList

def isVisible (p : Policy) (name : String) : Bool :=
  !p.ignores.contains name && !isInternal name

end Policy

end Abridge

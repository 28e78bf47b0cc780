import Abridge.Complex
import Abridge.Json

/-!
Trees of trimmed values, the form in which values are logged. A tree has a JSON document exactly
when no complex number occurs in it.
-/
namespace Abridge

inductive Tree where
  | null
  | bool (b : Bool)
  | int (z : Int)
  | uint (n : Nat)
  | float (x : Binary64)
  | complex (z : Complex)
  | text (s : String)
  | seq (items : List Tree)
  /-- The entries stand in the order of their keys, each key once. -/
  | map (entries : List (String × Tree))

namespace Tree

/-! ### Views -/

def isNull : Tree → Bool
  | .null => true
  | _ => false

/-- A container without content; a leaf is never empty. -/
def isEmpty : Tree → Bool
  | .seq ts => ts.isEmpty
  | .map es => es.isEmpty
  | _ => false

def text? : Tree → Option String
  | .text s => some s
  | _ => none

/-- An integer of either kind that fits a signed 64-bit word. -/
def int? : Tree → Option Int
  | .int z => some z
  | .uint n => if n ≤ Word.maxSigned then some n else none
  | _ => none

def seq? : Tree → Option (List Tree)
  | .seq ts => some ts
  | _ => none

def map? : Tree → Option (List (String × Tree))
  | .map es => some es
  | _ => none

/-- The entry `k` of a map. -/
def get? (k : String) : Tree → Option Tree
  | .map es => Entries.find? k es
  | _ => none

/-! ### Equality -/

mutual

/-- Equal trees: floats are compared as numbers, all else by structure. -/
def same : Tree → Tree → Bool
  | .null, .null => true
  | .bool a, .bool b => a == b
  | .int a, .int b => a == b
  | .uint a, .uint b => a == b
  | .float a, .float b => a.same b
  | .complex a, .complex b => a.same b
  | .text a, .text b => a == b
  | .seq a, .seq b => sameItems a b
  | .map a, .map b => sameEntries a b
  | _, _ => false

def sameItems : List Tree → List Tree → Bool
  | [], [] => true
  | a :: as, b :: bs => same a b && sameItems as bs
  | _, _ => false

def sameEntries : List (String × Tree) → List (String × Tree) → Bool
  | [], [] => true
  | (j, a) :: as, (k, b) :: bs => j == k && same a b && sameEntries as bs
  | _, _ => false

end

/-! ### The JSON document of a tree -/

mutual

/-- The document of a tree, or the first complex number in the order of writing. A float that is not
finite becomes null. -/
def document : Tree → Except Complex Json
  | .null => .ok .null
  | .bool b => .ok (.bool b)
  | .int z => .ok (.integer z)
  | .uint n => .ok (.integer n)
  | .float x => .ok (if x.isFinite then .float x else .null)
  | .complex z => .error z
  | .text s => .ok (.text s)
  | .seq ts => (itemDocuments ts).map .array
  | .map es => (entryDocuments es).map .object

def itemDocuments : List Tree → Except Complex (List Json)
  | [] => .ok []
  | t :: ts => do
    let d ← document t
    let ds ← itemDocuments ts
    return d :: ds

def entryDocuments : List (String × Tree) → Except Complex (List (String × Json))
  | [] => .ok []
  | (k, t) :: ts => do
    let d ← document t
    let ds ← entryDocuments ts
    return (k, d) :: ds

end

/-- The JSON text of a tree, or the complex number that has none. -/
def json (t : Tree) : Except Complex String := t.document.map Json.render

/-- The JSON text of a tree; empty if there is none. -/
def display (t : Tree) : String :=
  match t.json with
  | .ok s => s
  | .error _ => ""

end Tree

end Abridge

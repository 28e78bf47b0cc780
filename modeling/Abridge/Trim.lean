import Abridge.Policy
import Abridge.Text.Limit
import Abridge.Tree
import Abridge.Value

/-!
Trimming: the tree of a value within the limits of a policy. What the limits cut off, and what
stands behind a hidden name, is never looked at, so that it cannot panic either; the first panic
met in the order of traversal ends it.

One level of option is transparent everywhere. Records and maps spend one level of depth each, and
so do dynamic values inside a container. A sequence spends none, but a sequence directly inside a
sequence is dropped.
-/
namespace Abridge

/-- Where a value stands. -/
inductive Place where | root | field | entry | item
  deriving DecidableEq

/-- One level deeper; the remaining depth never falls below the smallest limit. -/
def spend (depth : Int) : Int := max (depth - 1) Word.minSigned

def Scalar.trim (p : Policy) : Scalar → Tree
  | .bool b => .bool b
  | .int z => .int z
  | .uint n => .uint n
  | .float x => .float x
  | .complex z => .complex z
  | .text s => .text (Text.limited p.stringLimit s)

/-- Messages, points in time and lengths of time are never cut. -/
def Special.trim (p : Policy) : Special → Tree
  | .error m => .text m
  | .stamp t => .text t.text
  | .span d => .text d.text
  | .text s => .text (Text.limited p.stringLimit s)

/-- What a container sees of a value that it holds. -/
inductive Seen where
  | nothing
  | leaf (t : Tree)
  /-- The trimmed content of a record or map. -/
  | table (es : Entries Tree)
  /-- The trimmed items of a sequence, and its claimed length. -/
  | list (length : Nat) (ts : List Tree)
  /-- The tree of a dynamic value. -/
  | boxed (t : Tree)

namespace Seen

/-- As a tree of its own. -/
def tree : Seen → Tree
  | .nothing => .null
  | .leaf t => t
  | .table es => .map es
  | .list _ ts => .seq ts
  | .boxed t => t

/-- The key that tells how long a trimmed sequence was. -/
def sizeKey (name : String) : String := "_size__" ++ name

/-- As a field of a record: empty containers and null are left out, and a sequence is followed by
its length. -/
def asField (name : String) (out : Entries Tree) : Seen → Entries Tree
  | .nothing => out
  | .leaf t => out.insert name t
  | .table es => if es.isEmpty then out else out.insert name (.map es)
  | .list n ts =>
    if ts.isEmpty then out
    else (out.insert name (.seq ts)).insert (sizeKey name) (.int (min n Word.maxSigned : Nat))
  | .boxed t => if t.isNull then out else out.insert name t

/-- As an entry of a map: whatever there is, is kept. -/
def asEntry (key : String) (out : Entries Tree) : Seen → Entries Tree
  | .nothing => out
  | s => out.insert key s.tree

/-- As an item of a sequence. -/
def asItem : Seen → List Tree
  | .nothing => []
  | .list _ _ => []
  | s => [s.tree]

end Seen

/-- Room for more items than this cannot be set aside, 32 bytes each. -/
def maxRoom : Nat := Word.maxSigned / 32

/-- The panic of setting aside too much room. -/
def noRoom : Fault := .text "capacity overflow"

/-- A dynamic value inside a container spends a level of depth. -/
def Place.dynamicDepth (place : Place) (depth : Int) : Int :=
  if place = .root then depth else spend depth

mutual

/-- What is seen of a value at a place, `depth` levels being left. `opened` says that an option has
been opened already. -/
def look (p : Policy) (place : Place) (opened : Bool) (depth : Int) : Value → Except Fault Seen
  | .absent => .ok .nothing
  | .unsupported => .ok .nothing
  | .faulty f => .error f
  | .scalar s => .ok (.leaf (s.trim p))
  | .special s => .ok (.leaf (s.trim p))
  | .optional v => if opened then .ok .nothing else look p place true depth v
  | .dynamic v =>
    (look p .root false (place.dynamicDepth depth) v).map fun s => .boxed s.tree
  | .record fs =>
    if spend depth ≤ 0 then .ok (.table []) else (fields p (spend depth) [] fs).map .table
  | .map es =>
    if spend depth ≤ 0 then .ok (.table []) else (entries p (spend depth) [] es).map .table
  | .seq n vs =>
    if place = .item then .ok .nothing
    else if p.arrayLimit ≤ 0 ∨ n = 0 then .ok (.list n [])
    else if maxRoom < min p.arrayLimit.toNat n then .error noRoom
    else (items p depth p.arrayLimit.toNat vs).map (.list n)
  | .broken .seq f =>
    if place = .item then .ok .nothing
    else if p.arrayLimit ≤ 0 then .ok (.list 0 [])
    else .error f
  | .broken _ f => if spend depth ≤ 0 then .ok (.table []) else .error f

/-- The fields of a record, on top of those in `out`; a later field replaces an earlier one. -/
def fields (p : Policy) (depth : Int) (out : Entries Tree) :
    List (Descriptor × Value) → Except Fault (Entries Tree)
  | [] => .ok out
  | (d, v) :: rest =>
    match d.emitted? with
    | none => fields p depth out rest
    | some name =>
      if p.isVisible name then do
        let s ← look p .field false depth v
        fields p depth (s.asField name out) rest
      else fields p depth out rest

/-- The entries of a map, on top of those in `out`. -/
def entries (p : Policy) (depth : Int) (out : Entries Tree) :
    List (String × Value) → Except Fault (Entries Tree)
  | [] => .ok out
  | (k, v) :: rest =>
    if p.isVisible k then do
      let s ← look p .entry false depth v
      entries p depth (s.asEntry k out) rest
    else entries p depth out rest

/-- The first `n` items of a sequence. -/
def items (p : Policy) (depth : Int) : Nat → List Value → Except Fault (List Tree)
  | 0, _ => .ok []
  | _, [] => .ok []
  | n + 1, v :: rest => do
    let s ← look p .item false depth v
    let ts ← items p depth n rest
    return s.asItem ++ ts

end

/-- The tree of a value within the limits of a policy, or the panic that was met first. -/
def Value.trim (p : Policy) (v : Value) : Except Fault Tree :=
  (look p .root false p.depthLimit v).map Seen.tree

end Abridge

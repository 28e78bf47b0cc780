import Abridge.Json.Decode
import Abridge.Policy

/-!
Policies as JSON documents. What a document does not mention keeps its standard setting.
-/
namespace Abridge.Policy

/-- The fields of a document, in the order in which an array gives them. -/
inductive Key where | array | string | depth | whole | ignores
  deriving DecidableEq

def Key.name : Key → String
  | .array => "array_limit"
  | .string => "string_limit"
  | .depth => "depth_limit"
  | .whole => "whole_limit"
  | .ignores => "ignores"

def Key.all : List Key := [.array, .string, .depth, .whole, .ignores]

/-- The setting that a field of a document makes. -/
def Key.setting (k : Key) (d : Json) : Except Mismatch Setting :=
  match k with
  | .array => return .array (← d.signed)
  | .string => return .string (← d.signed)
  | .depth => return .depth (← d.signed)
  | .whole => return .whole (← d.signed)
  | .ignores => return .ignores (← d.strings)

/-- Members that are no fields are passed over. -/
def readMember (p : Policy) (m : String × Json) : Except Mismatch Policy :=
  match Key.all.find? (·.name = m.1) with
  | some k => return p.set (← k.setting m.2)
  | none => return p

def readItem (p : Policy) (m : Key × Json) : Except Mismatch Policy :=
  return p.set (← m.1.setting m.2)

def ofJson : Json → Except Mismatch Policy
  | .object es => es.foldlM readMember standard
  | .array xs => do
    let p ← (Key.all.zip xs).foldlM readItem standard
    if xs.length ≤ Key.all.length then return p else .error (Json.tooLong xs)
  | d => .error (.wrongType d "struct LimitPolicy")

def toJson (p : Policy) : Json :=
  .object (Entries.ofList
    [(Key.array.name, .integer p.arrayLimit), (Key.string.name, .integer p.stringLimit),
      (Key.depth.name, .integer p.depthLimit), (Key.whole.name, .integer p.wholeLimit),
      (Key.ignores.name, .array (p.ignores.map .text))])

end Abridge.Policy

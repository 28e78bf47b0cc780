import Abridge.Json.Decode
import Abridge.Value

/-!
One half of an exchange, and the line that is logged for it: segments joined by a separator, with
a dash for what is not known.
-/
namespace Abridge

/-- A request received, the response sent for it, a request sent, the response received for it. -/
inductive TrafficKind where | recvAt | respTo | sentTo | respFrom
  deriving DecidableEq

namespace TrafficKind

def name : TrafficKind → String
  | .recvAt => "recv_at"
  | .respTo => "resp_to"
  | .sentTo => "sent_to"
  | .respFrom => "resp_from"

def inspect : TrafficKind → String
  | .recvAt => "RecvAt"
  | .respTo => "RespTo"
  | .sentTo => "SentTo"
  | .respFrom => "RespFrom"

def all : List TrafficKind := [.recvAt, .respTo, .sentTo, .respFrom]

/-- Requests have neither cost nor code. -/
def isRequest : TrafficKind → Bool
  | .recvAt => true
  | .sentTo => true
  | _ => false

def ofName (s : String) : Except Mismatch TrafficKind :=
  match all.find? (·.name = s) with
  | some k => .ok k
  | none => .error (.unknownVariant s (all.map name))

/-- A name, or an object of the name alone with null. -/
def ofJson : Json → Except Mismatch TrafficKind
  | .text s => ofName s
  | .object [(s, d)] => do
    let k ← ofName s
    match d with
    | .null => return k
    | d => .error (.wrongType d "unit")
  | .object _ => .error (.wrongMap "map with a single key")
  | d => .error (.wrongType d "string or map")

end TrafficKind

structure Traffic where
  kind : Option TrafficKind
  command : String
  code : Int
  message : String
  cost : Span
  request : Option Value
  response : Option Value

namespace Traffic

def empty : Traffic := ⟨none, "", 0, "", Span.zero, none, none⟩

/-- What stands for a segment that is not known. -/
def placeholder : String := "-"

def orPlaceholder (s : String) : String := if s = "" then placeholder else s

/-- Kind, command, cost, code and message. -/
def segments (t : Traffic) : List String :=
  let kind := (t.kind.map TrafficKind.name).getD placeholder
  let (cost, code) :=
    if t.kind.any TrafficKind.isRequest then (placeholder, placeholder)
    else (t.cost.text, toString t.code)
  [kind, orPlaceholder t.command, cost, code, orPlaceholder t.message]

def line (t : Traffic) (separator : String) : String := String.intercalate separator t.segments

def inspect (t : Traffic) : String :=
  let kind :=
    match t.kind with
    | none => "None"
    | some k => "Some(" ++ k.inspect ++ ")"
  let flag (b : Bool) : String := if b then "true" else "false"
  "Traffic \x7b kind: " ++ kind ++ ", cmd: " ++ Text.inspectQuoted t.command ++
    ", code: " ++ toString t.code ++ ", msg: " ++ Text.inspectQuoted t.message ++
    ", cost: " ++ t.cost.inspect ++ ", has_req: " ++ flag t.request.isSome ++
    ", has_resp: " ++ flag t.response.isSome ++ " \x7d"

end Traffic

end Abridge

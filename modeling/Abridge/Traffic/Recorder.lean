import Abridge.Report
import Abridge.Sampling
import Abridge.Traffic

/-!
Recorders turn halves of exchanges into log events: a line, and the trimmed payloads as fields. A
recorder that was switched off looks at nothing and emits nothing.
-/
namespace Abridge

/-- What was logged for one half of an exchange. -/
structure TrafficRecord where
  message : String
  fields : Entries Tree

namespace TrafficRecord

def target : String := "logtrim::traffic"

/-- The event of a record: its line, and the JSON text of its fields. -/
def event (r : TrafficRecord) : Event :=
  ⟨.info, target, r.message, [("fields", (Tree.map r.fields).display)]⟩

/-- The JSON text of a record, or the complex number that has none. -/
def json (r : TrafficRecord) : Except Complex String := do
  let fields ← (Tree.map r.fields).json
  return "\x7b\"message\":" ++ String.ofList (Text.jsonQuoted r.message.toList) ++
    ",\"fields\":" ++ fields ++ "\x7d"

end TrafficRecord

structure Recorder where
  separator : String
  requestId : Option String
  limits : Policy
  /-- Fields of every record, already trimmed. -/
  fields : Entries Tree
  enabled : Bool

namespace Recorder

def new : Recorder := ⟨"|", none, Policy.standard, [], true⟩

def withSeparator (r : Recorder) (s : String) : Recorder := { r with separator := s }

def withRequestId (r : Recorder) (id : String) : Recorder := { r with requestId := some id }

def withLimits (r : Recorder) (p : Policy) : Recorder := { r with limits := p }

/-- Replaces the hidden names. -/
def withIgnores (r : Recorder) (names : List String) : Recorder :=
  { r with limits := r.limits.set (.ignores names) }

/-- Binds `name` to the value as trimmed under the limits. -/
def addField (limits : Policy) (out : Entries Tree) (name : String) (v : Value) :
    Logged (Entries Tree) :=
  (v.report limits).map fun t => out.insert name t

/-- Adds a field to every record; it is trimmed under the limits of now. -/
def withField (r : Recorder) (name : String) (v : Value) : Logged Recorder :=
  (addField r.limits r.fields name v).map fun es => { r with fields := es }

/-- Takes one decision, which holds for all later records. -/
def withPolicy (r : Recorder) (draw : Binary64) (p : SamplingPolicy) : Recorder × SamplingPolicy :=
  let (allowed, next) := p.allow draw
  ({ r with enabled := allowed }, next)

/-! ### Records -/

def dataLevel : String := "DATA"

/-- What stands for a request id that is not known. -/
def noRequestId : String := "-:-:-"

def requestField : String := "request"

def responseField : String := "response"

def pairField : String := "pair_id"

/-- Level and request id in front of the segments of a half of an exchange. -/
def segments (r : Recorder) (t : Traffic) : List String :=
  let id := (r.requestId.filter (· ≠ "")).getD noRequestId
  dataLevel :: id :: t.segments

def line (r : Recorder) (t : Traffic) : String := String.intercalate r.separator (r.segments t)

/-- What is trimmed for a record, in order: extra fields, then the payloads. -/
def payloads (t : Traffic) (extra : List (String × Value)) : List (String × Value) :=
  extra ++ (t.request.map fun v => (requestField, v)).toList ++
    (t.response.map fun v => (responseField, v)).toList

/-- Adds values to the fields, the first one first. -/
def addFields (limits : Policy) (out : Entries Tree) : List (String × Value) → Logged (Entries Tree)
  | [] => .pure out
  | (name, v) :: rest => do
    let added ← addField limits out name v
    addFields limits added rest

/-- Records one half of an exchange with extra fields, unless the recorder is off. -/
def record (r : Recorder) (t : Traffic) (extra : List (String × Value)) :
    Logged (Option TrafficRecord) :=
  if r.enabled then do
    let fields ← addFields r.limits r.fields (payloads t extra)
    let half : TrafficRecord := ⟨r.line t, fields⟩
    Logged.emit half.event
    return some half
  else .pure none

end Recorder

/-! ### Both halves of an exchange -/

/-- A request that was sent and whose response is still to come. -/
structure Exchange where
  recorder : Recorder
  command : String
  pairId : String
  request : Option TrafficRecord

namespace Recorder

/-- The pair id as an extra field. -/
def pairExtra (pairId : String) : List (String × Value) := [(pairField, .text pairId)]

/-- Records a request under a fresh pair id. -/
def start (r : Recorder) (pairId command : String) (request : Value) : Logged Exchange := do
  let t := { Traffic.empty with kind := some .sentTo, command, request := some request }
  let half ← r.record t (pairExtra pairId)
  return ⟨r, command, pairId, half⟩

end Recorder

/-- Records the response, `cost` after the request. -/
def Exchange.finish (e : Exchange) (cost : Span) (code : Int) (message : String)
    (response : Value) : Logged (Option TrafficRecord) :=
  let t := ⟨some .respFrom, e.command, code, message, cost, none, some response⟩
  e.recorder.record t (Recorder.pairExtra e.pairId)

end Abridge

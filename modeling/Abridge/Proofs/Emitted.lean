import Abridge.Proofs.Contained
import Abridge.Proofs.Records
import Abridge.Proofs.Sessions
import Abridge.Proofs.Texts

/-!
The events of recorders. A recorder that is on reports each panic of a payload, in the order in
which the payloads are trimmed, and then the record; one that is off looks at nothing and reports
nothing. So the traffic events of a whole session are those of the records that the client was
given, in the same order.
-/
namespace Abridge

/-- Is it the event of a record? -/
def Event.isTraffic (e : Event) : Bool := e.level == .info && e.target == TrafficRecord.target

/-! ### One call -/

/-- The panics among values that are trimmed one after another, each by itself. -/
def panicsOf (p : Policy) (xs : List (String × Value)) : List Fault :=
  xs.filterMap fun w => faultOf (w.2.trim p)

/-- The record of what is given: the line, and all that is bound on top of the fields. -/
def Recording.half (g : Recording) : TrafficRecord :=
  ⟨g.recorder.line g.traffic, g.recorder.recorded g.traffic g.extra⟩

/-- The panics of extra fields, request and response, in this order. -/
def Recording.panics (g : Recording) : List Fault :=
  panicsOf g.recorder.limits (Recorder.payloads g.traffic g.extra)

theorem Value.events_report (p : Policy) (v : Value) :
    (v.report p).events = (faultOf (v.trim p)).toList.map Event.recovered := by
  rw [report]
  cases v.trim p <;> rfl

namespace Recorder

theorem events_addFields (p : Policy) (xs : List (String × Value)) (out : Entries Tree) :
    (addFields p out xs).events = (panicsOf p xs).map Event.recovered := by
  induction xs generalizing out with
  | nil => rfl
  | cons w rest ih =>
    have hevents : (addFields p out (w :: rest)).events = (w.2.report p).events ++
        (addFields p (out.insert w.1 (w.2.report p).value) rest).events := rfl
    rw [hevents, ih, Value.events_report, panicsOf, panicsOf, List.filterMap_cons]
    cases faultOf (w.2.trim p) <;> rfl

theorem record_of_enabled {r : Recorder} (hr : r.enabled = true) (t : Traffic)
    (extra : List (String × Value)) : r.record t extra =
      ⟨some (Recording.half ⟨r, t, extra⟩),
        (Recording.panics ⟨r, t, extra⟩).map Event.recovered ++
          [(Recording.half ⟨r, t, extra⟩).event]⟩ := by
  have hvalue := value_addFields r.limits (payloads t extra) r.fields
  have hevents := events_addFields r.limits (payloads t extra) r.fields
  rw [Recording.half, recorded, ← hvalue, Recording.panics, ← hevents, record, if_pos hr]
  rfl

theorem record_of_disabled {r : Recorder} (hr : r.enabled = false) (t : Traffic)
    (extra : List (String × Value)) : r.record t extra = ⟨none, []⟩ := by
  rw [record, if_neg (by simp [hr])]
  rfl

end Recorder

/-! ### Traffic events -/

theorem isTraffic_recovered (fs : List Fault) :
    (fs.map Event.recovered).filter Event.isTraffic = [] := by
  simp [Event.isTraffic, Event.recovered]

/-- A change of a recorder may panic over a field, but is no traffic. -/
theorem traffic_change (r : Recorder) (c : Change) :
    (r.change c).events.filter Event.isTraffic = [] := by
  cases c with
  | field name v =>
    have hevents : (r.change (.field name v)).events = (v.report r.limits).events := rfl
    rw [hevents, Value.events_report]
    exact isTraffic_recovered _
  | _ => rfl

theorem traffic_record (r : Recorder) (t : Traffic) (extra : List (String × Value)) :
    (r.record t extra).events.filter Event.isTraffic =
      (r.record t extra).value.toList.map TrafficRecord.event := by
  cases hr : r.enabled with
  | false =>
    rw [Recorder.record_of_disabled hr]
    rfl
  | true =>
    rw [Recorder.record_of_enabled hr, List.filter_append, isTraffic_recovered]
    rfl

/-! ### Sessions -/

def Reply.record? : Reply → Option TrafficRecord
  | .recorded half => half
  | _ => none

namespace Session

section Moves

variable {s next : Session} {st : Step} {reply : Logged Reply}

theorem Moves.traffic (h : s.Moves st next reply) :
    reply.events.filter Event.isTraffic =
      reply.value.record?.toList.map TrafficRecord.event := by
  cases h with
  | change => exact traffic_change ..
  | call => exact traffic_record ..
  | _ => rfl

end Moves

section Call

variable {s : Session} {st : Step} {given : Recording} (hgiven : s.recording? st = some given)
include hgiven

theorem reply_of_enabled (hon : given.recorder.enabled = true) : (s.step st).2 =
    ⟨.recorded (some given.half), given.panics.map Event.recovered ++ [given.half.event]⟩ := by
  rw [step_of_recording hgiven, Recorder.record_of_enabled hon]
  rfl

theorem reply_of_disabled (hoff : given.recorder.enabled = false) :
    (s.step st).2 = ⟨.recorded none, []⟩ := by
  rw [step_of_recording hgiven, Recorder.record_of_disabled hoff]
  rfl

end Call

end Session

end Abridge

import Abridge.Traffic.Recorder

/-!
Sessions of a client: recorders are copied and changed, policies are asked, and halves of exchanges
are recorded, in any order. A recorder or an exchange never changes once it is there, so a session
only adds to them; a policy changes when it is asked and when time passes. Each step has a reply,
with the events that were emitted on the way to it.
-/
namespace Abridge

/-! ### Changes and calls -/

/-- A change of a recorder for which no policy is asked. -/
inductive Change where
  | separator (s : String)
  | requestId (id : String)
  | limits (p : Policy)
  | ignores (names : List String)
  | field (name : String) (v : Value)

def Recorder.change (r : Recorder) : Change → Logged Recorder
  | .separator s => .pure (r.withSeparator s)
  | .requestId id => .pure (r.withRequestId id)
  | .limits p => .pure (r.withLimits p)
  | .ignores names => .pure (r.withIgnores names)
  | .field name v => r.withField name v

/-- The half of an exchange that is recorded when a request is sent. -/
def Traffic.sent (command : String) (request : Value) : Traffic :=
  { empty with kind := some .sentTo, command, request := some request }

/-- The half of an exchange that is recorded when its response is received. -/
def Traffic.received (command : String) (cost : Span) (code : Int) (message : String)
    (response : Value) : Traffic :=
  ⟨some .respFrom, command, code, message, cost, none, some response⟩

/-- What a recorder is given to record. -/
structure Recording where
  recorder : Recorder
  traffic : Traffic
  extra : List (String × Value)

/-! ### Steps -/

/-- A step of a client. Recorders, policies and exchanges are told by their places. -/
inductive Step where
  /-- Adds a changed copy of a recorder. -/
  | change (on : Nat) (c : Change)
  /-- Adds a copy of a recorder for which a policy is asked. -/
  | attach (on policy : Nat) (draw : Binary64)
  /-- Asks a policy, for nothing. -/
  | allow (policy : Nat) (draw : Binary64)
  /-- Waits until the last decision of a policy lies so many seconds back. -/
  | wait (policy : Nat) (seconds : Binary64)
  | record (on : Nat) (t : Traffic) (extra : List (String × Value))
  | start (on : Nat) (pairId command : String) (request : Value)
  | finish (exchange : Nat) (cost : Span) (code : Int) (message : String) (response : Value)

/-- Is something recorded? -/
def Step.isCall : Step → Bool
  | .record .. | .start .. | .finish .. => true
  | _ => false

inductive Reply where
  | nothing
  | decided (policy : Nat) (allowed : Bool)
  | recorded (half : Option TrafficRecord)

structure Session where
  recorders : List Recorder
  policies : List SamplingPolicy
  exchanges : List Exchange

namespace Session

/-- Nothing happens where there is no such recorder, policy or exchange. -/
def idle (s : Session) : Session × Logged Reply := (s, .pure .nothing)

def step (s : Session) : Step → Session × Logged Reply
  | .change i c =>
    match s.recorders[i]? with
    | none => s.idle
    | some r =>
      let changed := r.change c
      ({ s with recorders := s.recorders ++ [changed.value] }, changed.map fun _ => .nothing)
  | .attach i k draw =>
    match s.recorders[i]?, s.policies[k]? with
    | some r, some p =>
      let (decided, next) := r.withPolicy draw p
      ({ s with recorders := s.recorders ++ [decided], policies := s.policies.set k next },
        .pure (.decided k decided.enabled))
    | _, _ => s.idle
  | .allow k draw =>
    match s.policies[k]? with
    | none => s.idle
    | some p =>
      let (allowed, next) := p.allow draw
      ({ s with policies := s.policies.set k next }, .pure (.decided k allowed))
  | .wait k seconds =>
    match s.policies[k]? with
    | none => s.idle
    | some p => ({ s with policies := s.policies.set k (p.after seconds) }, .pure .nothing)
  | .record i t extra =>
    match s.recorders[i]? with
    | none => s.idle
    | some r => (s, (r.record t extra).map .recorded)
  | .start i pairId command request =>
    match s.recorders[i]? with
    | none => s.idle
    | some r =>
      let started := r.start pairId command request
      ({ s with exchanges := s.exchanges ++ [started.value] },
        started.map fun e => .recorded e.request)
  | .finish j cost code message response =>
    match s.exchanges[j]? with
    | none => s.idle
    | some e => (s, (e.finish cost code message response).map .recorded)

/-- The session after the steps, and the reply to each of them. -/
def run (s : Session) : List Step → Session × List (Logged Reply)
  | [] => (s, [])
  | st :: rest => ((run (s.step st).1 rest).1, (s.step st).2 :: (run (s.step st).1 rest).2)

/-- All events of the steps, in order. -/
def log (s : Session) (steps : List Step) : List Event := (s.run steps).2.flatMap Logged.events

theorem run_append (s : Session) (before after : List Step) :
    s.run (before ++ after) = (((s.run before).1.run after).1,
      (s.run before).2 ++ ((s.run before).1.run after).2) := by
  induction before generalizing s with
  | nil => rfl
  | cons st rest ih => simp only [List.cons_append, run, ih]

theorem length_run (s : Session) (steps : List Step) : (s.run steps).2.length = steps.length := by
  induction steps generalizing s with
  | nil => rfl
  | cons st rest ih => simp only [run, List.length_cons, ih]

/-- The reply at a place is that to the step at this place. -/
theorem reply_at (s : Session) (before : List Step) (st : Step) (after : List Step) :
    (s.run (before ++ st :: after)).2[before.length]? = some ((s.run before).1.step st).2 := by
  rw [run_append, ← s.length_run before, List.getElem?_append_right (Nat.le_refl _), Nat.sub_self]
  rfl

theorem run_concat (s : Session) (steps : List Step) (st : Step) :
    (s.run (steps ++ [st])).1 = ((s.run steps).1.step st).1 := by
  rw [run_append]
  rfl

/-! ### What a step is about -/

/-- Is there all that the step names? -/
def Has (s : Session) : Step → Prop
  | .change i _ | .record i .. | .start i .. => i < s.recorders.length
  | .attach i k _ => i < s.recorders.length ∧ k < s.policies.length
  | .allow k _ | .wait k _ => k < s.policies.length
  | .finish j .. => j < s.exchanges.length

/-- What a call gives to a recorder to record, if there is the recorder or the exchange. -/
def recording? (s : Session) : Step → Option Recording
  | .record i t extra => s.recorders[i]?.map fun r => ⟨r, t, extra⟩
  | .start i pairId command request => s.recorders[i]?.map fun r =>
    ⟨r, .sent command request, Recorder.pairExtra pairId⟩
  | .finish j cost code message response => s.exchanges[j]?.map fun e =>
    ⟨e.recorder, .received e.command cost code message response, Recorder.pairExtra e.pairId⟩
  | _ => none

/-- The recorder that a step adds: a changed one, or one with the decision of a policy. -/
def recorder? (s : Session) : Step → Option Recorder
  | .change i c => s.recorders[i]?.map fun r => (r.change c).value
  | .attach i k draw => s.recorders[i]?.bind fun r => s.policies[k]?.map fun p =>
    { r with enabled := (p.allow draw).1 }
  | _ => none

/-- The exchange that a step opens on a recorder. -/
def exchange? (s : Session) : Step → Option Exchange
  | .start i pairId command request => s.recorders[i]?.map fun r =>
    ⟨r, command, pairId, (r.record (.sent command request) (Recorder.pairExtra pairId)).value⟩
  | _ => none

section Missing

variable {s : Session} {st : Step} (h : ¬ s.Has st)
include h

theorem recording?_eq_none_of_not_has : s.recording? st = none := by
  cases st with
  | record | start | finish => simpa [recording?, Has] using h
  | _ => rfl

theorem recorder?_eq_none_of_not_has : s.recorder? st = none := by
  cases st with
  | change => simpa [recorder?, Has] using h
  | attach i k draw =>
    by_cases hi : i < s.recorders.length
    · have hk : s.policies[k]? = none := by simpa [Has, hi] using h
      simp [recorder?, hk]
    · simp [recorder?, hi]
  | _ => rfl

theorem exchange?_eq_none_of_not_has : s.exchange? st = none := by
  cases st with
  | start => simpa [exchange?, Has] using h
  | _ => rfl

end Missing

/-! ### What a step does -/

/-- Both halves of an exchange are recorded as any other half is. -/
theorem start_eq (r : Recorder) (pairId command : String) (request : Value) :
    r.start pairId command request =
      (r.record (.sent command request) (Recorder.pairExtra pairId)).map
        fun half => ⟨r, command, pairId, half⟩ :=
  congrArg (Logged.mk _) (List.append_nil _)

theorem finish_eq (e : Exchange) (cost : Span) (code : Int) (message : String) (response : Value) :
    e.finish cost code message response = e.recorder.record
      (.received e.command cost code message response) (Recorder.pairExtra e.pairId) := rfl

/-- The session after a step, and the reply. Nothing happens where something is missing. All calls
are alike: they record what a recorder is given, and open at most an exchange. -/
inductive Moves (s : Session) : Step → Session → Logged Reply → Prop
  | idle {st} : ¬ s.Has st → Moves s st s ⟨.nothing, []⟩
  | change {i c r} : s.recorders[i]? = some r →
      Moves s (.change i c) { s with recorders := s.recorders ++ [(r.change c).value] }
        ⟨.nothing, (r.change c).events⟩
  | attach {i k draw r p} : s.recorders[i]? = some r → s.policies[k]? = some p →
      Moves s (.attach i k draw)
        { s with
          recorders := s.recorders ++ [{ r with enabled := (p.allow draw).1 }]
          policies := s.policies.set k (p.allow draw).2 }
        ⟨.decided k (p.allow draw).1, []⟩
  | allow {k draw p} : s.policies[k]? = some p →
      Moves s (.allow k draw) { s with policies := s.policies.set k (p.allow draw).2 }
        ⟨.decided k (p.allow draw).1, []⟩
  | wait {k seconds p} : s.policies[k]? = some p →
      Moves s (.wait k seconds) { s with policies := s.policies.set k (p.after seconds) }
        ⟨.nothing, []⟩
  | call {st given} : s.recording? st = some given →
      Moves s st { s with exchanges := s.exchanges ++ (s.exchange? st).toList }
        ⟨.recorded (given.recorder.record given.traffic given.extra).value,
          (given.recorder.record given.traffic given.extra).events⟩

/-- A call records what it gives to the recorder that it names. -/
theorem step_of_recording {s : Session} {st : Step} {given : Recording}
    (h : s.recording? st = some given) : s.step st =
      ({ s with exchanges := s.exchanges ++ (s.exchange? st).toList },
        (given.recorder.record given.traffic given.extra).map .recorded) := by
  cases st with
  | change | attach | allow | wait => cases h
  | record i t extra =>
    obtain ⟨r, hr, rfl⟩ := Option.map_eq_some_iff.mp h
    rw [step, hr]
    simp [exchange?]
  | start i pairId command request =>
    obtain ⟨r, hr, rfl⟩ := Option.map_eq_some_iff.mp h
    rw [step, exchange?, hr]
    simp only [start_eq]
    rfl
  | finish j cost code message response =>
    obtain ⟨e, he, rfl⟩ := Option.map_eq_some_iff.mp h
    rw [step, he]
    simp [exchange?, finish_eq]

theorem moves (s : Session) (st : Step) : s.Moves st (s.step st).1 (s.step st).2 := by
  cases hgiven : s.recording? st with
  | some given =>
    rw [step_of_recording hgiven]
    exact .call hgiven
  | none =>
    cases st with
    | change i c =>
      rw [step]
      cases hr : s.recorders[i]? with
      | none => exact .idle (Nat.not_lt.mpr (List.getElem?_eq_none_iff.mp hr))
      | some r => exact .change hr
    | attach i k draw =>
      rw [step]
      cases hr : s.recorders[i]? with
      | none => exact .idle fun h => Nat.not_lt.mpr (List.getElem?_eq_none_iff.mp hr) h.1
      | some r =>
        cases hp : s.policies[k]? with
        | none => exact .idle fun h => Nat.not_lt.mpr (List.getElem?_eq_none_iff.mp hp) h.2
        | some p => exact .attach hr hp
    | allow k draw =>
      rw [step]
      cases hp : s.policies[k]? with
      | none => exact .idle (Nat.not_lt.mpr (List.getElem?_eq_none_iff.mp hp))
      | some p => exact .allow hp
    | wait k seconds =>
      rw [step]
      cases hp : s.policies[k]? with
      | none => exact .idle (Nat.not_lt.mpr (List.getElem?_eq_none_iff.mp hp))
      | some p => exact .wait hp
    | record | start =>
      have hr := Option.map_eq_none_iff.mp hgiven
      rw [step, hr]
      exact .idle (Nat.not_lt.mpr (List.getElem?_eq_none_iff.mp hr))
    | finish =>
      have he := Option.map_eq_none_iff.mp hgiven
      rw [step, he]
      exact .idle (Nat.not_lt.mpr (List.getElem?_eq_none_iff.mp he))

section Moves

variable {s next : Session} {st : Step} {reply : Logged Reply}

theorem recorder?_eq_none_of_recording {given : Recording} (h : s.recording? st = some given) :
    s.recorder? st = none := by
  cases st with
  | record | start | finish => rfl
  | _ => cases h

theorem Moves.recorders (h : s.Moves st next reply) :
    next.recorders = s.recorders ++ (s.recorder? st).toList := by
  cases h with
  | idle hmissing => simp [recorder?_eq_none_of_not_has hmissing]
  | change hr => simp [recorder?, hr]
  | attach hr hp => simp [recorder?, hr, hp]
  | allow | wait => simp [recorder?]
  | call hgiven => simp [recorder?_eq_none_of_recording hgiven]

theorem Moves.exchanges (h : s.Moves st next reply) :
    next.exchanges = s.exchanges ++ (s.exchange? st).toList := by
  cases h with
  | idle hmissing => simp [exchange?_eq_none_of_not_has hmissing]
  | call => rfl
  | _ => simp [exchange?]

theorem Moves.length_policies (h : s.Moves st next reply) :
    next.policies.length = s.policies.length := by
  cases h with
  | attach | allow | wait => exact List.length_set
  | _ => rfl

end Moves

theorem length_policies (s : Session) (steps : List Step) :
    (s.run steps).1.policies.length = s.policies.length := by
  induction steps generalizing s with
  | nil => rfl
  | cons st rest ih => exact (ih _).trans (s.moves st).length_policies

end Session

end Abridge

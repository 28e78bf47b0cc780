import Abridge.Proofs.Emitted
import Abridge.Proofs.WholeNumbers

/-!
Rate limits over whole sessions. As long as no token comes back, a bucket holds a whole number of
tokens, one less after each positive decision, so that the first decisions are positive, as many as
there is room for tokens, and no later one is. It does not matter which recorder a decision is for,
nor what is recorded in between: recorders do not ask again, but keep their decision.
-/
namespace Abridge

/-! ### One decision -/

namespace Bucket

/-- There are `n` whole tokens in the bucket. -/
structure Holds (b : Bucket) (n : Nat) : Prop where
  tokens : b.tokens = Binary64.ofNat n
  fits : n ≤ b.burst
  room : b.burst < 2 ^ 32

theorem holds_new (rate : Binary64) {burst : Nat} (h : burst < 2 ^ 32) :
    (new rate burst).Holds (if rate.isPositive = true ∧ 0 < burst then burst else 1) := by
  by_cases hnew : rate.isPositive = true ∧ 0 < burst
  · rw [new, if_pos (by simpa using hnew), if_pos hnew]
    exact ⟨rfl, Nat.le_refl _, h⟩
  · rw [new, if_neg (by simpa using hnew), if_neg hnew]
    exact ⟨rfl, Nat.le_refl _, by decide⟩

/-- A decision is positive as long as there is a token, and takes one then. -/
theorem Holds.take {b : Bucket} {n : Nat} (h : b.Holds n) (hstill : b.accrued.isZero = true) :
    b.take.1 = decide (0 < n) ∧ b.take.2.Holds (n - 1) := by
  have hfits := h.fits
  have hroom := h.room
  have hn : n < 2 ^ 53 := by omega
  have hready : b.ready = Binary64.ofNat n := by
    rw [ready, h.tokens, Binary64.plus_of_isZero hn hstill,
      Binary64.least_ofNat hfits (Nat.lt_trans hroom (by decide))]
  have hminus : (Binary64.ofNat n).minus (Binary64.ofNat 1) = Binary64.ofNat (n - 1) :=
    Binary64.minus_ofNat hn (by decide)
  have hbelow : (Binary64.ofNat n).belowPositive (Binary64.ofNat 1) = decide (n < 1) :=
    Binary64.belowPositive_ofNat hn (by decide)
  rw [Bucket.take, hready, hminus, hbelow]
  by_cases hpos : 0 < n
  · rw [if_neg (by simpa using hpos.ne')]
    exact ⟨(decide_eq_true hpos).symm, rfl, Nat.le_trans (Nat.sub_le n 1) hfits, hroom⟩
  · obtain rfl : n = 0 := Nat.eq_zero_of_not_pos hpos
    exact ⟨rfl, rfl, Nat.zero_le _, hroom⟩

/-- No time has passed since the last decision, and none could bring infinitely many tokens. -/
structure Rests (b : Bucket) : Prop where
  rate : b.rate.isInfinite = false
  since : b.since.isZero = true

theorem isZero_accrued {b : Bucket} (h : b.Rests) : b.accrued.isZero = true := by
  have hrate : ¬ b.rate.isInfinite = true := by simp [h.rate]
  rw [Bucket.accrued, if_neg hrate]
  exact Binary64.isZero_times h.since b.rate

theorem Rests.take {b : Bucket} (h : b.Rests) : b.take.2.Rests := by
  have hleft : ∀ tokens, (⟨b.rate, b.burst, tokens, .zero⟩ : Bucket).Rests :=
    fun _ => ⟨h.rate, Binary64.isZero_zero⟩
  rw [Bucket.take]
  split
  · exact hleft _
  · exact hleft _

theorem rests_new {rate : Binary64} (h : rate.isInfinite = false) (burst : Nat) :
    (new rate burst).Rests := by
  rw [new]
  split
  · exact ⟨h, Binary64.isZero_zero⟩
  · exact ⟨by decide, Binary64.isZero_zero⟩

end Bucket

/-! ### Decisions in a session -/

/-- The decision of the `k`-th policy, if the reply is one. -/
def Reply.decision? (k : Nat) : Reply → Option Bool
  | .decided j allowed => if j = k then some allowed else none
  | _ => none

theorem Reply.eq_decided {k : Nat} {reply : Reply} {d : Bool}
    (h : reply.decision? k = some d) : reply = .decided k d := by
  cases reply with
  | decided j allowed =>
    rw [decision?] at h
    split at h
    · rename_i hj
      cases h
      rw [hj]
    · cases h
  | _ => cases h

/-- All decisions of the `k`-th policy, in order. -/
def decisions (k : Nat) (replies : List (Logged Reply)) : List Bool :=
  replies.filterMap fun reply => reply.value.decision? k

theorem decisions_cons (k : Nat) (reply : Logged Reply) (rest : List (Logged Reply)) :
    decisions k (reply :: rest) = (reply.value.decision? k).toList ++ decisions k rest := by
  rw [decisions, List.filterMap_cons]
  cases reply.value.decision? k <;> rfl

/-- The first `n` of `m` decisions are positive. -/
def firstGranted (n m : Nat) : List Bool :=
  List.replicate (min n m) true ++ List.replicate (m - n) false

theorem firstGranted_succ (n m : Nat) :
    firstGranted n (m + 1) = decide (0 < n) :: firstGranted (n - 1) m := by
  cases n with
  | zero => simp [firstGranted, List.replicate_succ]
  | succ n =>
    simp [firstGranted, Nat.add_min_add_right, List.replicate_succ]

namespace Session

/-- The `k`-th policy is a bucket with `n` whole tokens. -/
def Holds (s : Session) (k n : Nat) : Prop :=
  ∃ b, s.policies[k]? = some (.limited b) ∧ b.Holds n

/-- If the `k`-th policy is a bucket, it is at rest. -/
def Rests (s : Session) (k : Nat) : Prop := ∀ b, s.policies[k]? = some (.limited b) → b.Rests

/-- No token comes back to the `k`-th policy for any decision on the way. -/
def Still (k : Nat) : Session → List Step → Prop
  | _, [] => True
  | s, st :: rest =>
    ((s.step st).2.value.decision? k ≠ none →
      ∀ b, s.policies[k]? = some (.limited b) → b.accrued.isZero = true) ∧
    Still k (s.step st).1 rest

section Holds

variable {s next : Session} {k n : Nat} {p : SamplingPolicy}

/-- What happens to another policy does not matter. -/
theorem Holds.other (h : s.Holds k n) {j : Nat} (hj : j ≠ k)
    (hset : next.policies = s.policies.set j p) : next.Holds k n := by
  obtain ⟨b, hb, hn⟩ := h
  exact ⟨b, by rw [hset, List.getElem?_set_ne hj, hb], hn⟩

theorem getElem?_policies_set (hp : s.policies[k]? = some p) {p' : SamplingPolicy}
    (hset : next.policies = s.policies.set k p') : next.policies[k]? = some p' := by
  rw [hset, List.getElem?_set_self (List.getElem?_eq_some_iff.mp hp).1]

theorem Holds.waited (h : s.Holds k n) (hp : s.policies[k]? = some p) {seconds : Binary64}
    (hset : next.policies = s.policies.set k (p.after seconds)) : next.Holds k n := by
  obtain ⟨b, hb, hn⟩ := h
  obtain rfl : SamplingPolicy.limited b = p := Option.some.inj (hb.symm.trans hp)
  exact ⟨_, getElem?_policies_set hp hset, hn.tokens, hn.fits, hn.room⟩

theorem Holds.asked (h : s.Holds k n) (hp : s.policies[k]? = some p) {draw : Binary64}
    (hset : next.policies = s.policies.set k (p.allow draw).2)
    (hstill : ∀ b, s.policies[k]? = some (.limited b) → b.accrued.isZero = true) :
    (p.allow draw).1 = decide (0 < n) ∧ next.Holds k (n - 1) := by
  obtain ⟨b, hb, hn⟩ := h
  obtain rfl : SamplingPolicy.limited b = p := Option.some.inj (hb.symm.trans hp)
  obtain ⟨hdecided, hleft⟩ := hn.take (hstill b hb)
  exact ⟨hdecided, _, getElem?_policies_set hp hset, hleft⟩

end Holds

section Moves

variable {s next : Session} {st : Step} {reply : Logged Reply} {k n : Nat}

/-- What a step does to a bucket with whole tokens: it leaves them, or it asks for one. -/
theorem Moves.holds (h : s.Moves st next reply) (hk : s.Holds k n)
    (hstill : reply.value.decision? k ≠ none →
      ∀ b, s.policies[k]? = some (.limited b) → b.accrued.isZero = true) :
    (reply.value.decision? k = none ∧ next.Holds k n) ∨
      (reply.value.decision? k = some (decide (0 < n)) ∧ next.Holds k (n - 1)) := by
  -- the two ways of asking are alike
  have hasked : ∀ {j draw p}, reply.value = .decided j (p.allow draw).1 →
      s.policies[j]? = some p → next.policies = s.policies.set j (p.allow draw).2 →
      (reply.value.decision? k = none ∧ next.Holds k n) ∨
        (reply.value.decision? k = some (decide (0 < n)) ∧ next.Holds k (n - 1)) := by
    intro j draw p hreply hp hset
    by_cases hj : j = k
    · subst hj
      have hdecision : reply.value.decision? j = some (p.allow draw).1 := by
        rw [hreply, Reply.decision?, if_pos rfl]
      obtain ⟨hdecided, hleft⟩ := hk.asked hp hset (hstill (by simp [hdecision]))
      exact Or.inr ⟨hdecision.trans (congrArg some hdecided), hleft⟩
    · exact Or.inl ⟨by rw [hreply, Reply.decision?, if_neg hj], hk.other hj hset⟩
  cases h with
  | idle | change | call => exact Or.inl ⟨rfl, hk⟩
  | attach _ hp => exact hasked rfl hp rfl
  | allow hp => exact hasked rfl hp rfl
  | @wait j _ _ hp =>
    by_cases hj : j = k
    · subst hj
      exact Or.inl ⟨rfl, hk.waited hp rfl⟩
    · exact Or.inl ⟨rfl, hk.other hj rfl⟩

/-- As long as nobody waits for it, a bucket stays at rest. -/
theorem Moves.rests (h : s.Moves st next reply) (hst : ∀ seconds, st ≠ .wait k seconds)
    (hk : s.Rests k) : next.Rests k := by
  have hasked : ∀ {j draw p}, s.policies[j]? = some p →
      next.policies = s.policies.set j (p.allow draw).2 → next.Rests k := by
    intro j draw p hp hset b hb
    by_cases hj : j = k
    · subst hj
      rw [getElem?_policies_set hp hset] at hb
      cases p with
      | limited b' =>
        cases hb
        exact (hk b' hp).take
      | _ => cases hb
    · rw [hset, List.getElem?_set_ne hj] at hb
      exact hk b hb
  cases h with
  | idle | change | call => exact hk
  | attach _ hp => exact hasked hp rfl
  | allow hp => exact hasked hp rfl
  | @wait j seconds _ hp =>
    have hj : j ≠ k := fun hj => hst seconds (congrArg (Step.wait · seconds) hj)
    intro b hb
    rw [List.getElem?_set_ne hj] at hb
    exact hk b hb

end Moves

/-- No token comes back to a bucket at rest for which nobody waits. -/
theorem still_of_rests {s : Session} {k : Nat} (hk : s.Rests k) {steps : List Step}
    (hsteps : ∀ st ∈ steps, ∀ seconds, st ≠ .wait k seconds) : s.Still k steps := by
  induction steps generalizing s with
  | nil => trivial
  | cons st rest ih =>
    obtain ⟨hst, hrest⟩ := List.forall_mem_cons.mp hsteps
    exact ⟨fun _ b hb => Bucket.isZero_accrued (hk b hb), ih ((s.moves st).rests hst hk) hrest⟩

/-- As many decisions are positive as there are tokens, and these are the first ones. -/
theorem holds_run {s : Session} {k n : Nat} (hk : s.Holds k n) {steps : List Step}
    (hstill : s.Still k steps) :
    decisions k (s.run steps).2 = firstGranted n (decisions k (s.run steps).2).length ∧
      (s.run steps).1.Holds k (n - (decisions k (s.run steps).2).length) := by
  induction steps generalizing s n with
  | nil => exact ⟨by simp [run, decisions, firstGranted], hk⟩
  | cons st rest ih =>
    obtain ⟨hfirst, hrest⟩ := hstill
    rw [run, decisions_cons]
    rcases (s.moves st).holds hk hfirst with ⟨hnone, hkept⟩ | ⟨hsome, hleft⟩
    · rw [hnone]
      exact ih hkept hrest
    · obtain ⟨hlater, hend⟩ := ih hleft hrest
      rw [hsome, Option.toList_some, List.singleton_append, List.length_cons, firstGranted_succ,
        ← hlater, Nat.add_comm, ← Nat.sub_sub]
      exact ⟨rfl, hend⟩

/-! ### Calls do not matter -/

/-- Sessions that differ at most in their exchanges. -/
structure Alike (s t : Session) : Prop where
  recorders : s.recorders = t.recorders
  policies : s.policies = t.policies

variable {s t : Session} {st : Step}

theorem Alike.step (h : Alike s t) (hst : st.isCall = false) :
    Alike (s.step st).1 (t.step st).1 ∧ (s.step st).2 = (t.step st).2 := by
  obtain ⟨recorders, policies, _⟩ := s
  obtain ⟨rfl, rfl⟩ := h
  cases st with
  | change i c =>
    rw [Session.step, Session.step]
    cases t.recorders[i]? <;> exact ⟨⟨rfl, rfl⟩, rfl⟩
  | attach i j draw =>
    rw [Session.step, Session.step]
    cases t.recorders[i]? with
    | none => exact ⟨⟨rfl, rfl⟩, rfl⟩
    | some r =>
      cases t.policies[j]? <;> exact ⟨⟨rfl, rfl⟩, rfl⟩
  | allow j draw =>
    rw [Session.step, Session.step]
    cases t.policies[j]? <;> exact ⟨⟨rfl, rfl⟩, rfl⟩
  | wait j seconds =>
    rw [Session.step, Session.step]
    cases t.policies[j]? <;> exact ⟨⟨rfl, rfl⟩, rfl⟩
  | record | start | finish => cases hst

theorem Moves.alike_of_call {reply : Logged Reply} (h : s.Moves st t reply)
    (hst : st.isCall = true) : Alike t s ∧ ∀ k, reply.value.decision? k = none := by
  cases h with
  | idle | call => exact ⟨⟨rfl, rfl⟩, fun _ => rfl⟩
  | change | attach | allow | wait => cases hst

/-- Without the calls, recorders, policies and decisions would be the same. -/
theorem Alike.run (h : Alike s t) (k : Nat) (steps : List Step) :
    Alike (s.run steps).1 (t.run (steps.filter fun st => !st.isCall)).1 ∧
      decisions k (s.run steps).2 =
        decisions k (t.run (steps.filter fun st => !st.isCall)).2 := by
  induction steps generalizing s t with
  | nil => exact ⟨h, rfl⟩
  | cons st rest ih =>
    cases hst : st.isCall with
    | true =>
      obtain ⟨hkept, hnone⟩ := (s.moves st).alike_of_call hst
      have hnext : Alike (s.step st).1 t :=
        ⟨hkept.recorders.trans h.recorders, hkept.policies.trans h.policies⟩
      rw [List.filter_cons_of_neg (by simp [hst]), Session.run, decisions_cons, hnone]
      exact ih hnext
    | false =>
      obtain ⟨hnext, hreply⟩ := h.step hst
      obtain ⟨hend, hdecisions⟩ := ih hnext
      rw [List.filter_cons_of_pos (by simp [hst]), Session.run, Session.run, decisions_cons,
        decisions_cons, hreply, hdecisions]
      exact ⟨hend, rfl⟩

end Session

/-! ### Decisions that are kept -/

/-- What a call is made on. -/
inductive Caller where
  | recorder (i : Nat)
  | exchange (j : Nat)

def Step.caller? : Step → Option Caller
  | .record i .. | .start i .. => some (.recorder i)
  | .finish j .. => some (.exchange j)
  | _ => none

/-- A decision of the `k`-th policy is asked for. -/
def Session.Asks (s : Session) (k : Nat) (st : Step) : Prop :=
  (∃ draw, st = .allow k draw) ∨ ∃ i draw, st = .attach i k draw ∧ i < s.recorders.length

/-- `GoesBy s d steps c`: after the steps, `d` is the decision that was taken last for the recorder
`c`, or for the one on which the exchange `c` was started. Copies of a recorder go by its decision.
-/
inductive GoesBy (s : Session) (d : Bool) : List Step → Caller → Prop
  | decided {steps i k draw} : ((s.run steps).1.step (.attach i k draw)).2.value = .decided k d →
      GoesBy s d (steps ++ [.attach i k draw]) (.recorder (s.run steps).1.recorders.length)
  | changed {steps i c} : GoesBy s d steps (.recorder i) →
      GoesBy s d (steps ++ [.change i c]) (.recorder (s.run steps).1.recorders.length)
  | started {steps i pairId command request} : GoesBy s d steps (.recorder i) →
      GoesBy s d (steps ++ [.start i pairId command request])
        (.exchange (s.run steps).1.exchanges.length)
  | later {steps c} (st : Step) : GoesBy s d steps c → GoesBy s d (steps ++ [st]) c

namespace Session

/-- The recorder that a call is made on. -/
def callee? (s : Session) : Caller → Option Recorder
  | .recorder i => s.recorders[i]?
  | .exchange j => s.exchanges[j]?.map Exchange.recorder

variable {s next : Session} {st : Step} {reply : Logged Reply} {d : Bool}

theorem getElem?_append_of_some {α : Type} {xs : List α} {i : Nat} {x : α} (h : xs[i]? = some x)
    (ys : List α) : (xs ++ ys)[i]? = some x := by
  rw [List.getElem?_append_left (List.getElem?_eq_some_iff.mp h).1, h]

/-- What is there stays as it is. -/
theorem Moves.callee? (h : s.Moves st next reply) {c : Caller} {r : Recorder}
    (hr : s.callee? c = some r) : next.callee? c = some r := by
  cases c with
  | recorder i =>
    rw [Session.callee?, h.recorders]
    exact getElem?_append_of_some hr _
  | exchange j =>
    obtain ⟨e, he, rfl⟩ := Option.map_eq_some_iff.mp hr
    rw [Session.callee?, h.exchanges, getElem?_append_of_some he]
    rfl

theorem Moves.decided_iff (h : s.Moves st next reply) {k : Nat} (hk : k < s.policies.length) :
    (reply.value.decision? k).isSome = true ↔ s.Asks k st := by
  cases h with
  | idle hmissing =>
    refine iff_of_false (by simp [Reply.decision?]) ?_
    rintro (⟨draw, rfl⟩ | ⟨i, draw, rfl, hi⟩)
    · exact hmissing hk
    · exact hmissing ⟨hi, hk⟩
  | attach hr _ =>
    have hi := (List.getElem?_eq_some_iff.mp hr).1
    simp [Asks, Reply.decision?, hi]
  | call hgiven =>
    refine iff_of_false (by simp [Reply.decision?]) ?_
    rintro (⟨draw, rfl⟩ | ⟨i, draw, rfl, _⟩)
    · cases hgiven
    · cases hgiven
  | _ => simp [Asks, Reply.decision?]

/-- The recorder that a policy has decided on is on or off as decided. -/
theorem Moves.attached {i k : Nat} {draw : Binary64}
    (h : s.Moves (.attach i k draw) next reply) (hd : reply.value = .decided k d) :
    ∃ r, next.callee? (.recorder s.recorders.length) = some r ∧ r.enabled = d := by
  cases h with
  | idle => cases hd
  | attach hr hp =>
    cases hd
    exact ⟨_, List.getElem?_concat_length .., rfl⟩
  | call hgiven => cases hgiven

theorem Moves.changed {i : Nat} {c : Change} {r : Recorder}
    (h : s.Moves (.change i c) next reply) (hr : s.callee? (.recorder i) = some r) :
    next.callee? (.recorder s.recorders.length) = some (r.change c).value := by
  simp only [Session.callee?] at hr ⊢
  rw [h.recorders, recorder?, hr]
  exact List.getElem?_concat_length ..

theorem Moves.started {i : Nat} {pairId command : String} {request : Value} {r : Recorder}
    (h : s.Moves (.start i pairId command request) next reply)
    (hr : s.callee? (.recorder i) = some r) :
    next.callee? (.exchange s.exchanges.length) = some r := by
  simp only [Session.callee?] at hr ⊢
  rw [h.exchanges, exchange?, hr, Option.map_some, Option.toList_some,
    List.getElem?_concat_length]
  rfl

theorem recording?_of_callee {c : Caller} {r : Recorder} (hst : st.caller? = some c)
    (hr : s.callee? c = some r) : ∃ given, s.recording? st = some given ∧ given.recorder = r := by
  cases st with
  | change | attach | allow | wait => cases hst
  | record | start =>
    cases hst
    rw [callee?] at hr
    exact ⟨_, by rw [recording?, hr]; rfl, rfl⟩
  | finish =>
    cases hst
    obtain ⟨e, he, rfl⟩ := Option.map_eq_some_iff.mp hr
    exact ⟨_, by rw [recording?, he]; rfl, rfl⟩

end Session

theorem Recorder.enabled_change (r : Recorder) (c : Change) :
    (r.change c).value.enabled = r.enabled := by
  cases c <;> rfl

/-- Who goes by a decision is there, and is on or off as decided. -/
theorem GoesBy.callee {s : Session} {d : Bool} {steps : List Step} {c : Caller}
    (h : GoesBy s d steps c) : ∃ r, (s.run steps).1.callee? c = some r ∧ r.enabled = d := by
  induction h with
  | decided hd =>
    rw [Session.run_concat]
    exact (Session.moves ..).attached hd
  | changed _ ih =>
    obtain ⟨r, hr, hd⟩ := ih
    rw [Session.run_concat]
    exact ⟨_, (Session.moves ..).changed hr, (r.enabled_change _).trans hd⟩
  | started _ ih =>
    obtain ⟨r, hr, hd⟩ := ih
    rw [Session.run_concat]
    exact ⟨r, (Session.moves ..).started hr, hd⟩
  | later st _ ih =>
    obtain ⟨r, hr, hd⟩ := ih
    rw [Session.run_concat]
    exact ⟨r, (Session.moves _ st).callee? hr, hd⟩

/-- A call on who goes by a decision records, or not, as decided. -/
theorem GoesBy.reply {s : Session} {d : Bool} {steps : List Step} {c : Caller}
    (h : GoesBy s d steps c) {st : Step} (hst : st.caller? = some c) :
    ∃ half events, ((s.run steps).1.step st).2 = ⟨.recorded half, events⟩ ∧ half.isSome = d ∧
      (events.filter Event.isTraffic).length = d.toNat := by
  obtain ⟨r, hr, hd⟩ := h.callee
  obtain ⟨given, hgiven, rfl⟩ := Session.recording?_of_callee hst hr
  cases d with
  | false => exact ⟨none, [], Session.reply_of_disabled hgiven hd, rfl, rfl⟩
  | true =>
    refine ⟨_, _, Session.reply_of_enabled hgiven hd, rfl, ?_⟩
    rw [List.filter_append, isTraffic_recovered]
    rfl

/-- A new bucket grants as many decisions as there is room for, but one if it has no room or no
rate, and no more, as long as no token comes back: whoever asks for them, and whatever is recorded
in between. Only those steps give decisions that ask for them. Without the calls the policies and
all their decisions would be the same. Each call on a recorder, or on an exchange that was started
on it, goes by the decision that was taken last for the recorder. -/
theorem tokens_granted_first {s : Session} {k : Nat} {rate : Binary64} {burst : Nat}
    (hburst : burst < 2 ^ 32) (hk : s.policies[k]? = some (.limited (.new rate burst)))
    {steps : List Step} (hstill : s.Still k steps) :
    let b := if rate.isPositive = true ∧ 0 < burst then burst else 1
    let asked := decisions k (s.run steps).2
    let silent := s.run (steps.filter fun st => !st.isCall)
    asked = List.replicate (min b asked.length) true ++ List.replicate (asked.length - b) false ∧
      (∃ bucket, (s.run steps).1.policies[k]? = some (.limited bucket) ∧
        bucket.tokens = Binary64.ofNat (b - asked.length)) ∧
      (silent.1.policies = (s.run steps).1.policies ∧
        ∀ j, decisions j silent.2 = decisions j (s.run steps).2) ∧
      ∀ before st after, steps = before ++ st :: after →
        ∃ reply, (s.run steps).2[before.length]? = some reply ∧
          ((reply.value.decision? k).isSome = true ↔ (s.run before).1.Asks k st) ∧
          ∀ c d, st.caller? = some c → GoesBy s d before c → ∃ half,
            reply.value = .recorded half ∧ half.isSome = d ∧
              (reply.events.filter Event.isTraffic).length = d.toNat := by
  intro b asked silent
  have hholds : s.Holds k b := ⟨_, hk, Bucket.holds_new rate hburst⟩
  obtain ⟨hfirst, bucket, hbucket, hleft⟩ := Session.holds_run hholds hstill
  have hsilent := fun j => (⟨rfl, rfl⟩ : Session.Alike s s).run j steps
  refine ⟨hfirst, ⟨bucket, hbucket, hleft.tokens⟩, ?_, ?_⟩
  · exact ⟨(hsilent k).1.policies.symm, fun j => (hsilent j).2.symm⟩
  · rintro before st after rfl
    refine ⟨_, s.reply_at before st after, ((s.run before).1.moves st).decided_iff ?_, ?_⟩
    · rw [Session.length_policies]
      exact (List.getElem?_eq_some_iff.mp hk).1
    · intro c d hst hd
      obtain ⟨half, events, hreply, hhalf, htraffic⟩ := hd.reply hst
      rw [hreply]
      exact ⟨half, rfl, hhalf, htraffic⟩

/-- Two tokens are granted to a recorder and to the client itself, and the second recorder that asks
gets none: neither half of an exchange that is started on a copy of it is recorded. -/
theorem tokens_granted_first_two :
    let s : Session := ⟨[Recorder.new], [.limited (.new ⟨0x3ff0000000000000⟩ 2)], []⟩
    let granted : List Step := [.attach 0 0 .zero, .record 1 .empty [], .allow 0 .zero]
    let copied := granted ++ [.attach 1 0 .zero] ++ [.change 2 (.separator "/")]
    let before := copied ++ [.start 3 "id" "get" .absent]
    let st : Step := .finish 0 ⟨0, 0⟩ 0 "" .absent
    s.Still 0 (before ++ [st]) ∧ decisions 0 (s.run (before ++ [st])).2 = [true, true, false] ∧
      GoesBy s false before (.exchange 0) ∧
      ∃ reply, (s.run (before ++ [st])).2[6]? = some reply ∧ reply.value = .recorded none := by
  intro s granted copied before st
  have hrate : (⟨0x3ff0000000000000⟩ : Binary64).isInfinite = false := by decide +kernel
  have hrests : s.Rests 0 := by
    intro b hb
    cases hb
    exact Bucket.rests_new hrate 2
  have hstill : s.Still 0 (before ++ [st]) :=
    Session.still_of_rests hrests (by simp [before, copied, granted, st])
  have hlength : (decisions 0 (s.run (before ++ [st])).2).length = 3 := by decide +kernel
  have hroom : (⟨0x3ff0000000000000⟩ : Binary64).isPositive = true ∧ 0 < 2 := by decide +kernel
  have hk : s.policies[0]? = some (.limited (.new ⟨0x3ff0000000000000⟩ 2)) :=
    List.getElem?_cons_zero
  have hrefused : ((s.run granted).1.step (.attach 1 0 .zero)).2.value.decision? 0 =
      some false := by decide +kernel
  have hsecond : (s.run granted).1.recorders.length = 2 := by decide +kernel
  have hthird : (s.run (granted ++ [.attach 1 0 .zero])).1.recorders.length = 3 := by
    decide +kernel
  have hnew : (s.run copied).1.exchanges.length = 0 := by decide +kernel
  have hdecided : GoesBy s false (granted ++ [.attach 1 0 .zero])
      (.recorder (s.run granted).1.recorders.length) := .decided (Reply.eq_decided hrefused)
  rw [hsecond] at hdecided
  have hchanged : GoesBy s false copied (.recorder 3) := hthird ▸ hdecided.changed
  have hstarted : GoesBy s false before (.exchange 0) := hnew ▸ hchanged.started
  obtain ⟨hfirst, -, -, hcalls⟩ := tokens_granted_first (by decide) hk hstill
  rw [if_pos hroom, hlength] at hfirst
  obtain ⟨reply, hreply, -, hkept⟩ := hcalls before st [] rfl
  obtain ⟨half, hhalf, hnone, -⟩ := hkept (.exchange 0) false rfl hstarted
  obtain rfl : half = none := by simpa using hnone
  exact ⟨hstill, hfirst, hstarted, reply, hreply, hhalf⟩

end Abridge

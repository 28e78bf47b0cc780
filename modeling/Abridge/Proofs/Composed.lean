import Abridge.Proofs.Records
import Abridge.Proofs.Sessions

/-!
What the fields of a record are bound to. Each of them shows one value, trimmed by itself: the
payload of the name if there is one, else the last extra field of the name, else the field that was
given to the recorder last under it, as it was trimmed then. So a value that panics takes the place
of its own field only, and of none if another value shows there.
-/
namespace Abridge

/-! ### Fields of recorders -/

/-- What a change writes to the fields, trimmed under the limits of now. -/
def Change.written (limits : Policy) : Change → List (String × Tree)
  | .field name v => [(name, (v.report limits).value)]
  | _ => []

namespace Recorder

/-- A recorder, and what was written to its fields, in order. -/
inductive Made : List (String × Tree) → Recorder → Prop
  | new : Made [] Recorder.new
  | policy {written r} (draw : Binary64) (p : SamplingPolicy) :
      Made written r → Made written (r.withPolicy draw p).1
  | change {written r} (c : Change) :
      Made written r → Made (written ++ c.written r.limits) (r.change c).value

theorem fields_change (r : Recorder) (c : Change) :
    (r.change c).value.fields = Entries.play r.fields (c.written r.limits) := by
  cases c <;> rfl

theorem Made.fields_eq {written : List (String × Tree)} {r : Recorder} (h : Made written r) :
    r.fields = Entries.play [] written := by
  induction h with
  | new => rfl
  | policy _ _ _ ih => exact ih
  | change c _ ih => rw [fields_change, ih, Entries.play_append]

theorem Made.ordered_recorded {written : List (String × Tree)} {r : Recorder}
    (h : Made written r) (t : Traffic) (extra : List (String × Value)) :
    Entries.Ordered (r.recorded t extra) := by
  rw [recorded, h.fields_eq, ← Entries.play_append]
  exact Entries.ordered_play List.Pairwise.nil

/-! ### What a field shows -/

/-- The value that a record shows under a name, if it is not a field of the recorder. -/
def chosen? (t : Traffic) (extra : List (String × Value)) (k : String) : Option Value :=
  if k = responseField ∧ t.response.isSome then t.response
  else if k = requestField ∧ t.request.isSome then t.request
  else Entries.find? k extra.reverse

theorem find?_payloads (t : Traffic) (extra : List (String × Value)) (k : String) :
    Entries.find? k (payloads t extra).reverse = chosen? t extra k := by
  have hne : responseField ≠ requestField := by decide
  rw [chosen?, payloads, List.reverse_append, List.reverse_append, Entries.find?_append,
    Entries.find?_append]
  by_cases hresp : k = responseField
  · subst hresp
    cases t.response <;> cases t.request <;> simp [Entries.find?, hne, hne.symm]
  · by_cases hreq : k = requestField
    · subst hreq
      cases t.response <;> cases t.request <;> simp [Entries.find?, hne, hne.symm]
    · cases t.response <;> cases t.request <;>
        simp [Entries.find?, hresp, hreq, Ne.symm hresp, Ne.symm hreq]

theorem Made.find?_recorded {written : List (String × Tree)} {r : Recorder} (h : Made written r)
    (t : Traffic) (extra : List (String × Value)) (k : String) :
    Entries.find? k (r.recorded t extra) =
      ((chosen? t extra k).map fun v => (v.report r.limits).value).or
        (Entries.find? k written.reverse) := by
  rw [recorded, Entries.find?_play, ← Entries.mapValues_reverse, Entries.find?_mapValues,
    find?_payloads, h.fields_eq, Entries.find?_play]
  exact congrArg _ Option.or_none

/-! ### One value in place of another -/

/-- Of what a recorder is given, one value under this name is replaced by `w`; `later` is what is
given after it. -/
inductive Swapped (w : Value) : String → List (String × Value) →
    Traffic → List (String × Value) → Traffic → List (String × Value) → Prop
  | extra (t before name v after) : Swapped w name (payloads t after)
      t (before ++ (name, v) :: after) t (before ++ (name, w) :: after)
  | request (t v extra) : t.request = some v → Swapped w requestField
      (payloads { t with request := none } []) t extra { t with request := some w } extra
  | response (t v extra) : t.response = some v → Swapped w responseField
      [] t extra { t with response := some w } extra

section Swapped

variable {w : Value} {name : String} {later extra extra' : List (String × Value)} {t t' : Traffic}

theorem Swapped.line_eq (h : Swapped w name later t extra t' extra') (r : Recorder) :
    r.line t' = r.line t := by
  cases h <;> rfl

theorem Swapped.payloads_eq (h : Swapped w name later t extra t' extra') :
    ∃ before v, payloads t extra = before ++ (name, v) :: later ∧
      payloads t' extra' = before ++ (name, w) :: later := by
  cases h with
  | extra _ before _ v after => exact ⟨before, v, by simp [payloads], by simp [payloads]⟩
  | request _ v _ h => exact ⟨extra, v, by simp [payloads, h], by simp [payloads]⟩
  | response _ v _ h =>
    exact ⟨extra ++ (t.request.map fun v => (requestField, v)).toList, v,
      by simp [payloads, h], by simp [payloads]⟩

/-- The fields under other names stay as they are, and so does this one if another value shows
there. -/
theorem Swapped.find?_recorded (h : Swapped w name later t extra t' extra') (r : Recorder) :
    (∀ k, k ≠ name ∨ name ∈ Entries.keys later →
      Entries.find? k (r.recorded t' extra') = Entries.find? k (r.recorded t extra)) ∧
    (name ∉ Entries.keys later →
      Entries.find? name (r.recorded t' extra') = some (w.report r.limits).value) := by
  obtain ⟨before, v, hpayloads, hpayloads'⟩ := h.payloads_eq
  let trimmed := fun u : Value => (u.report r.limits).value
  let rest := Entries.mapValues trimmed later
  have hkeys : Entries.find? name rest.reverse = none ↔ name ∉ Entries.keys later := by
    rw [Entries.find?_eq_none_iff, Entries.keys, List.map_reverse, List.mem_reverse,
      ← Entries.keys, Entries.keys_mapValues]
  have hsplit : ∀ (s : Traffic) (xs : List (String × Value)) (u : Value),
      payloads s xs = before ++ (name, u) :: later → ∀ k, Entries.find? k (r.recorded s xs) =
        (Entries.find? k rest.reverse).or (if name = k then some (trimmed u)
          else Entries.find? k (Entries.play r.fields (Entries.mapValues trimmed before))) := by
    intro s xs u hxs k
    have hmap : Entries.mapValues trimmed (before ++ (name, u) :: later) =
        Entries.mapValues trimmed before ++ (name, trimmed u) :: rest := List.map_append
    rw [recorded, hxs, hmap, Entries.find?_play_split]
  constructor
  · rintro k (hk | hlater)
    · rw [hsplit _ _ _ hpayloads', hsplit _ _ _ hpayloads, if_neg hk.symm, if_neg hk.symm]
    · rw [hsplit _ _ _ hpayloads', hsplit _ _ _ hpayloads]
      by_cases hk : name = k
      · subst hk
        obtain ⟨x, hx⟩ := Option.ne_none_iff_exists'.mp fun hnone => hkeys.mp hnone hlater
        rw [hx, Option.some_or, Option.some_or]
      · rw [if_neg hk, if_neg hk]
  · intro hlater
    rw [hsplit _ _ _ hpayloads', hkeys.mpr hlater, if_pos rfl, Option.none_or]

end Swapped

/-! ### Records -/

/-- A record has the names of the fields of its recorder, of the extra fields and of the payloads.
Each of them is bound to the payload of the name, else to the last extra field of the name, trimmed
under the limits of the recorder, else to what was written last to the field of the recorder. If one
of the values given for the record panics instead, the line and the other fields stay, and its own
field says so unless another value shows there. -/
theorem fields_composed {written : List (String × Tree)} {r : Recorder} (hmade : Made written r)
    (hon : r.enabled = true) (t : Traffic) (extra : List (String × Value)) :
    ∃ half, (r.record t extra).value = some half ∧ half.message = r.line t ∧
      (∀ k, k ∈ Entries.keys half.fields ↔ k ∈ Entries.keys written ∨ k ∈ Entries.keys extra ∨
        (k = "request" ∧ t.request.isSome = true) ∨ (k = "response" ∧ t.response.isSome = true)) ∧
      (∀ k, Entries.find? k half.fields =
        ((chosen? t extra k).map fun v => (v.report r.limits).value).or
          (Entries.find? k written.reverse)) ∧
      ∀ w m name later t' extra', w.trim r.limits = .error (.text m) →
        Swapped w name later t extra t' extra' → ∃ half', (r.record t' extra').value = some half' ∧
          half'.message = half.message ∧
          (∀ k, k ≠ name → Entries.find? k half'.fields = Entries.find? k half.fields) ∧
          (name ∈ Entries.keys later → half' = half) ∧
          (name ∉ Entries.keys later →
            Entries.find? name half'.fields = some (.text ("panic recovery: " ++ m))) := by
  refine ⟨_, value_record hon t extra, rfl, fun k => ?_, hmade.find?_recorded t extra, ?_⟩
  · rw [mem_keys_recorded, mem_keys_payloads, hmade.fields_eq, Entries.mem_keys_play_iff]
    simp only [Entries.keys, List.map_nil, List.not_mem_nil, or_false]
    exact or_comm
  · intro w m name later t' extra' hpanic hswap
    obtain ⟨hother, hown⟩ := hswap.find?_recorded r
    have hline := hswap.line_eq r
    refine ⟨_, value_record hon t' extra', hline, fun k hk => hother k (Or.inl hk), ?_, ?_⟩
    · intro hlater
      have hfields : r.recorded t' extra' = r.recorded t extra :=
        (hmade.ordered_recorded t' extra').eq_of_find?_eq (hmade.ordered_recorded t extra)
          fun k => hother k (Or.inr hlater)
      rw [hline, hfields]
    · intro hlater
      rw [hown hlater, Value.report_of_error hpanic]
      rfl

/-- An extra field that panics in place of another shows its panic, and the request is kept. -/
theorem fields_composed_panicking :
    let r := (Recorder.new.withField "user" (.text "root")).value
    let t := { Traffic.empty with request := some (.scalar (.int 1)) }
    let gone : Value := .faulty (.text "gone")
    Made [("user", .text "root")] r ∧ r.enabled = true ∧
      gone.trim r.limits = .error (.text "gone") ∧
      ∃ half half', (r.record t [("user", .text "guest")]).value = some half ∧
        Entries.find? "user" half.fields = some (.text "guest") ∧
        (r.record t [("user", gone)]).value = some half' ∧
        Entries.find? "user" half'.fields = some (.text "panic recovery: gone") ∧
        Entries.find? "request" half'.fields = some (.int 1) := by
  intro r t gone
  have hmade : Made [("user", .text "root")] r := Made.change (.field "user" (.text "root")) .new
  obtain ⟨half, hhalf, _, _, hbound, hpanics⟩ :=
    fields_composed hmade rfl t [("user", .text "guest")]
  have hswap : Swapped gone "user" (payloads t []) t [("user", .text "guest")] t [("user", gone)] :=
    .extra t [] "user" (.text "guest") []
  obtain ⟨half', hhalf', _, hother, _, hown⟩ := hpanics gone "gone" _ _ _ _ rfl hswap
  have hrequest : Entries.find? "request" half.fields = some (.int 1) := hbound "request"
  exact ⟨hmade, rfl, rfl, half, half', hhalf, hbound "user", hhalf', hown (by decide),
    (hother "request" (by decide)).trans hrequest⟩

end Recorder

end Abridge

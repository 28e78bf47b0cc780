import Abridge.Proofs.Keys
import Abridge.Traffic.Recorder

/-!
The fields of a record. They come from the fields of the recorder, extra fields and payloads, each
trimmed by itself and bound under its own name, a later one in place of an earlier one. The names
are never asked whether they are visible. So a record shows every name that was written, a hidden
one too; below the names it shows what trees show.
-/
namespace Abridge

/-! ### What is recorded -/

namespace Recorder

/-- The fields of a record: extra fields and payloads on top of the fields of the recorder. -/
def recorded (r : Recorder) (t : Traffic) (extra : List (String × Value)) : Entries Tree :=
  Entries.play r.fields (Entries.mapValues (fun v => (v.report r.limits).value) (payloads t extra))

theorem value_addFields (p : Policy) (xs : List (String × Value)) (out : Entries Tree) :
    (addFields p out xs).value =
      Entries.play out (Entries.mapValues (fun v => (v.report p).value) xs) := by
  induction xs generalizing out with
  | nil => rfl
  | cons w rest ih => exact ih _

theorem value_record {r : Recorder} (hr : r.enabled = true) (t : Traffic)
    (extra : List (String × Value)) :
    (r.record t extra).value = some ⟨r.line t, r.recorded t extra⟩ := by
  rw [record, if_pos hr, recorded, ← value_addFields]
  rfl

theorem value_record_of_disabled {r : Recorder} (hr : r.enabled = false) (t : Traffic)
    (extra : List (String × Value)) : (r.record t extra).value = none := by
  rw [record, if_neg (by simp [hr])]
  rfl

/-- Every record has the line of its half of the exchange, and what was recorded for it. -/
theorem eq_of_record {r : Recorder} {t : Traffic} {extra : List (String × Value)}
    {half : TrafficRecord} (h : (r.record t extra).value = some half) :
    half = ⟨r.line t, r.recorded t extra⟩ := by
  cases hr : r.enabled with
  | false =>
    rw [value_record_of_disabled hr] at h
    cases h
  | true =>
    rw [value_record hr] at h
    exact (Option.some.inj h).symm

theorem fields_of_record {r : Recorder} {t : Traffic} {extra : List (String × Value)}
    {half : TrafficRecord} (h : (r.record t extra).value = some half) :
    half.fields = r.recorded t extra := by
  rw [eq_of_record h]

/-- A payload is bound under one of two names, if there is one. -/
theorem mem_keys_payloads {t : Traffic} {extra : List (String × Value)} {k : String} :
    k ∈ Entries.keys (payloads t extra) ↔ k ∈ Entries.keys extra ∨
      (k = requestField ∧ t.request.isSome = true) ∨
      (k = responseField ∧ t.response.isSome = true) := by
  cases hreq : t.request <;> cases hresp : t.response <;>
    simp [payloads, Entries.keys, hreq, hresp]

theorem mem_keys_recorded {r : Recorder} {t : Traffic} {extra : List (String × Value)}
    {k : String} : k ∈ Entries.keys (r.recorded t extra) ↔
      k ∈ Entries.keys (payloads t extra) ∨ k ∈ Entries.keys r.fields := by
  rw [recorded, Entries.mem_keys_play_iff, Entries.keys_mapValues]

/-- What is bound in a record was trimmed for it, or is a field of the recorder. -/
theorem mem_recorded {r : Recorder} {t : Traffic} {extra : List (String × Value)}
    {w : String × Tree} (h : w ∈ r.recorded t extra) :
    (∃ v : Value, w.2 = (v.report r.limits).value) ∨ w ∈ r.fields := by
  refine (Entries.mem_play _ h).imp_left fun hw => ?_
  obtain ⟨u, _, rfl⟩ := List.mem_map.mp hw
  exact ⟨u.2, rfl⟩

end Recorder

/-! ### Hidden names -/

/-- The policy hides the names `S`, whatever else it limits. -/
def Policy.Hides (p : Policy) (S : List String) : Prop := ∀ name, name ∈ p.ignores ↔ name ∈ S

/-- Is the name hidden by all policies that hide `S`? -/
def Hidden (S : List String) (name : String) : Prop := name ∈ S ∨ Policy.isInternal name = true

theorem Policy.Hides.isVisible_iff {p : Policy} {S : List String} (h : p.Hides S) {name : String} :
    p.isVisible name = true ↔ ¬ Hidden S name := by
  rw [Policy.isVisible_iff, Hidden, not_or, h name, Bool.not_eq_true]

/-- The key stands in a map somewhere in the tree. -/
def Occurs (k : String) (t : Tree) : Prop := ∃ n es, Below t n (.map es) ∧ k ∈ Entries.keys es

/-- Hidden names stand in the tree as sizes of visible sequences only, beside these. -/
def OnlySizes (S : List String) (t : Tree) : Prop :=
  ∀ n es, Below t n (.map es) → ∀ k x, (k, x) ∈ es → Hidden S k →
    ∃ name z, k = Seen.sizeKey name ∧ x = .int z ∧ ¬ Hidden S name ∧ name ∈ Entries.keys es

theorem onlySizes_report {p : Policy} {S : List String} (hp : p.Hides S) (v : Value) :
    OnlySizes S (v.report p).value := by
  intro n es hn k x hk hidden
  cases ht : v.trim p with
  | error f =>
    rw [Value.report_of_error ht] at hn
    obtain ⟨_, heq⟩ := hn.of_leaf rfl
    cases heq
  | ok t =>
    rw [Value.report_of_ok ht] at hn
    have hnot : ¬ p.isVisible k = true := fun hvis => hp.isVisible_iff.mp hvis hidden
    obtain ⟨name, z, _, hname, hbound, hw⟩ := size_of_hidden ht hn hk hnot
    cases hw
    exact ⟨name, z, rfl, rfl, hp.isVisible_iff.mp hname, hbound⟩

/-! ### How recorders are built -/

/-- A recorder that hid the names `S` before it was given a field, and hides them since; `names` are
those of its fields, the last one first. -/
inductive Recorder.Built (S : List String) : List String → Recorder → Prop
  | start {r : Recorder} : r.fields = [] → r.limits.Hides S → Built S [] r
  | separator {names r} (s : String) : Built S names r → Built S names (r.withSeparator s)
  | requestId {names r} (id : String) : Built S names r → Built S names (r.withRequestId id)
  | limits {names r p} : Policy.Hides p S → Built S names r → Built S names (r.withLimits p)
  | policy {names r} (draw : Binary64) (p : SamplingPolicy) :
      Built S names r → Built S names (r.withPolicy draw p).1
  | field {names r} (name : String) (v : Value) :
      Built S names r → Built S (name :: names) (r.withField name v).value

/-- It hides `S`, its fields are bound under `names`, and below these hidden names are sizes. -/
structure Recorder.Covered (S : List String) (names : List String) (r : Recorder) : Prop where
  limits : r.limits.Hides S
  keys : ∀ k, k ∈ Entries.keys r.fields ↔ k ∈ names
  trees : ∀ w ∈ r.fields, OnlySizes S w.2

theorem Recorder.Covered.field {S names : List String} {r : Recorder} (h : r.Covered S names)
    (name : String) (v : Value) : (r.withField name v).value.Covered S (name :: names) where
  limits := h.limits
  keys k := by
    change k ∈ Entries.keys (Entries.play r.fields [(name, (v.report r.limits).value)]) ↔ _
    rw [Entries.mem_keys_play_iff, h.keys k, List.mem_cons]
    simp [Entries.keys]
  trees w hw := by
    rcases Entries.mem_insert hw with rfl | hw
    · exact onlySizes_report h.limits v
    · exact h.trees w hw

theorem Recorder.Built.covered {S names : List String} {r : Recorder} (h : Built S names r) :
    r.Covered S names := by
  induction h with
  | start hfields hlimits =>
    exact ⟨hlimits, by simp [hfields, Entries.keys], by simp [hfields]⟩
  | separator _ _ ih => exact ⟨ih.limits, ih.keys, ih.trees⟩
  | requestId _ _ ih => exact ⟨ih.limits, ih.keys, ih.trees⟩
  | limits hp _ ih => exact ⟨hp, ih.keys, ih.trees⟩
  | policy _ _ _ ih => exact ⟨ih.limits, ih.keys, ih.trees⟩
  | field name v _ ih => exact ih.field name v

/-! ### Hidden names in records -/

theorem Recorder.Built.mem_keys {S names : List String} {r : Recorder} (hr : Built S names r)
    {t : Traffic} {extra : List (String × Value)} {half : TrafficRecord}
    (h : (r.record t extra).value = some half) (k : String) :
    k ∈ Entries.keys half.fields ↔ k ∈ names ∨ k ∈ Entries.keys (payloads t extra) := by
  rw [fields_of_record h, mem_keys_recorded, hr.covered.keys k, or_comm]

/-- Below the names of a record, hidden names are sizes. -/
theorem Recorder.Built.onlySizes {S names : List String} {r : Recorder} (hr : Built S names r)
    {t : Traffic} {extra : List (String × Value)} {half : TrafficRecord}
    (h : (r.record t extra).value = some half) {w : String × Tree} (hw : w ∈ half.fields) :
    OnlySizes S w.2 := by
  rw [fields_of_record h] at hw
  rcases mem_recorded hw with ⟨v, hv⟩ | hw
  · rw [hv]
    exact onlySizes_report hr.covered.limits v
  · exact hr.covered.trees w hw

/-- The size of a sequence is recorded along with it, below a field of the same name. -/
theorem occurs_sizeKey {p : Policy} {name : String} (hd : 1 < p.depthLimit) (ha : 0 < p.arrayLimit)
    (hp : p.isVisible name = true) : ∃ half,
      ((Recorder.new.withLimits p).record Traffic.empty [(name, single name)]).value = some half ∧
      Occurs (Seen.sizeKey name) (.map half.fields) := by
  let es := Entries.play [] [(name, .seq [.bool true]), (Seen.sizeKey name, Tree.int 1)]
  have htree : ((single name).report p).value = .map es := by
    rw [Value.report_of_ok (trim_single hd ha hp)]
  have hkey : Seen.sizeKey name ∈ Entries.keys es :=
    Entries.mem_keys_play _ (w := (Seen.sizeKey name, Tree.int 1)) (by simp)
  have hentry : (name, .map es) ∈
      (Recorder.new.withLimits p).recorded Traffic.empty [(name, single name)] := by
    rw [← htree]
    exact Entries.mem_insert_self name _ []
  exact ⟨_, Recorder.value_record rfl _ _, 1, es, .entry hentry .here, hkey⟩

/-- Records under hidden names `S`. The names of a record are all that were written, those of
fields, extra fields and payloads, and below them hidden names are sizes of visible sequences only.
So no record of visible names shows a hidden one, whatever the values, exactly when no size of a
visible name is hidden. -/
theorem hidden_names_recorded_iff (S : List String) :
    ((∀ names r t extra half, Recorder.Built S names r → (r.record t extra).value = some half →
        (∀ k ∈ names ++ Entries.keys (Recorder.payloads t extra), ¬ Hidden S k) →
        ∀ k, Occurs k (.map half.fields) → ¬ Hidden S k) ↔
      ∀ name, ¬ Hidden S name → Seen.sizeKey name ∉ S) ∧
    ∀ names r t extra half, Recorder.Built S names r → (r.record t extra).value = some half →
      (∀ k, k ∈ Entries.keys half.fields ↔
        k ∈ names ∨ k ∈ Entries.keys (Recorder.payloads t extra)) ∧
      ∀ w ∈ half.fields, OnlySizes S w.2 := by
  refine ⟨⟨?_, ?_⟩, fun names r t extra half hr h => ⟨hr.mem_keys h, fun w hw => hr.onlySizes h hw⟩⟩
  · intro h name hname hsize
    have hp : Policy.Hides ⟨3, 128, 10, 4096, S⟩ S := fun _ => Iff.rfl
    obtain ⟨half, hhalf, hoccurs⟩ := occurs_sizeKey (by decide : (1 : Int) < 10)
      (by decide : (0 : Int) < 3) (hp.isVisible_iff.mpr hname)
    have hwritten : ∀ k ∈ [] ++ Entries.keys (Recorder.payloads Traffic.empty
        [(name, single name)]), ¬ Hidden S k := by
      intro k hk
      obtain rfl : k = name := List.mem_singleton.mp hk
      exact hname
    exact h [] _ _ _ half (.start rfl hp) hhalf hwritten _ hoccurs (Or.inl hsize)
  · rintro h names r t extra half hr hhalf hwritten k ⟨n, es, hn, hk⟩ hidden
    rcases hn.of_map with ⟨_, heq⟩ | ⟨w, hw, m, _, hm⟩
    · -- a name of the record itself
      cases heq
      exact hwritten k (List.mem_append.mpr ((hr.mem_keys hhalf k).mp hk)) hidden
    · -- a key below one of its names
      obtain ⟨⟨_, x⟩, hx, rfl⟩ := List.mem_map.mp hk
      obtain ⟨name, z, hsize, _, hname, _⟩ := hr.onlySizes hhalf hw m es hm _ x hx hidden
      rcases hidden with hS | hinternal
      · exact h name hname (hsize ▸ hS)
      · have hnot := isInternal_sizeKey name
        rw [← hsize] at hnot
        exact absurd (hinternal.symm.trans hnot) (by decide)

/-- A recorder that ignores passwords records one that is given to it as a field. -/
theorem ignored_field_recorded :
    let r := ((Recorder.new.withIgnores ["password"]).withField "password" (.text "x")).value
    Recorder.Built ["password"] ["password"] r ∧ ∃ half,
      (r.record Traffic.empty []).value = some half ∧ "password" ∈ Entries.keys half.fields :=
  ⟨.field _ _ (.start rfl fun _ => Iff.rfl), _, rfl, by decide⟩

end Abridge

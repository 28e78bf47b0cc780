import Abridge.Proofs.Records

/-!
Both halves of an exchange are recorded under one pair id, whatever the recorder adds to them. But
the id goes the way of all fields and is cut to the limit of texts. So both halves show it in full,
and two exchanges are told apart by it, exactly if there is no such limit or it leaves room for all
32 digits.
-/
namespace Abridge

/-! ### Both halves of an exchange -/

/-- What there is to record about an exchange, its pair id apart. -/
structure Call where
  command : String
  request : Value
  cost : Span
  code : Int
  message : String
  response : Value

namespace Recorder

/-- The records of the request and of the response, if both are made. -/
def halves (r : Recorder) (pairId : String) (c : Call) :
    Option (TrafficRecord × TrafficRecord) := do
  let exchange := (r.start pairId c.command c.request).value
  let sent ← exchange.request
  let received ← (exchange.finish c.cost c.code c.message c.response).value
  return (sent, received)

/-- Both halves are recorded, and show this as their pair id. -/
def Shows (r : Recorder) (pairId : String) (c : Call) (shown : Tree) : Prop :=
  ∃ sent received, r.halves pairId c = some (sent, received) ∧
    Entries.find? pairField sent.fields = some shown ∧
    Entries.find? pairField received.fields = some shown

theorem Shows.unique {r : Recorder} {pairId : String} {c : Call} {s t : Tree}
    (hs : r.Shows pairId c s) (ht : r.Shows pairId c t) : s = t := by
  obtain ⟨_, _, hhalves, hsent, _⟩ := hs
  obtain ⟨_, _, hhalves', hsent', _⟩ := ht
  cases hhalves.symm.trans hhalves'
  exact Option.some.inj (hsent.symm.trans hsent')

/-- No field of the recorder and no payload takes the place of the pair id. -/
theorem find?_pairField (r : Recorder) (t : Traffic) (pairId : String) :
    Entries.find? pairField (r.recorded t (pairExtra pairId)) =
      some (.text (Text.limited r.limits.stringLimit pairId)) := by
  let trimmed := fun v : Value => (v.report r.limits).value
  have hpayloads : r.recorded t (pairExtra pairId) = Entries.play
      (Entries.insert pairField (trimmed (.text pairId)) r.fields)
      (Entries.mapValues trimmed (payloads t [])) := rfl
  rw [hpayloads, Entries.find?_play_of_forall_ne, Entries.find?_insert_self]
  · rfl
  · intro w hw
    have hkey : w.1 ∈ Entries.keys (payloads t []) := by
      rw [← Entries.keys_mapValues trimmed]
      exact List.mem_map_of_mem hw
    rcases mem_keys_payloads.mp hkey with h | ⟨h, _⟩ | ⟨h, _⟩
    · cases h
    · rw [h]
      decide
    · rw [h]
      decide

/-- Both halves show the pair id as it is cut to the limit of texts. -/
theorem shows_limited {r : Recorder} (hr : r.enabled = true) (pairId : String) (c : Call) :
    r.Shows pairId c (.text (Text.limited r.limits.stringLimit pairId)) := by
  let sent := { Traffic.empty with
    kind := some .sentTo, command := c.command, request := some c.request }
  let received : Traffic :=
    ⟨some .respFrom, c.command, c.code, c.message, c.cost, none, some c.response⟩
  have hhalves : r.halves pairId c = (r.record sent (pairExtra pairId)).value.bind fun a =>
      (r.record received (pairExtra pairId)).value.bind fun b => some (a, b) := rfl
  rw [value_record hr, value_record hr] at hhalves
  exact ⟨_, _, hhalves, r.find?_pairField sent pairId, r.find?_pairField received pairId⟩

end Recorder

/-! ### Pair ids -/

def isHexDigit (c : Char) : Bool := c.isDigit || (decide ('a' ≤ c) && decide (c ≤ 'f'))

/-- A pair id as it is drawn: 32 hexadecimal digits. -/
def IsPairId (s : String) : Prop := s.length = 32 ∧ s.toList.all isHexDigit = true

instance (s : String) : Decidable (IsPairId s) := inferInstanceAs (Decidable (_ ∧ _))

/-- A limit of texts that cuts no pair id. -/
def Spares (limit : Int) : Prop := limit ≤ 0 ∨ 32 ≤ limit

theorem Spares.limited_eq {limit : Int} (h : Spares limit) {s : String} (hs : IsPairId s) :
    Text.limited limit s = s := by
  have hlen := hs.1
  refine Text.limited_of_not_exceeds (eq_false_of_ne_true fun hlong => ?_)
  obtain ⟨hpos, hlt⟩ := Text.exceeds_iff.mp hlong
  rcases h with h | h <;> omega

/-- Longer texts that agree up to the limit are cut to the same. -/
theorem Text.limited_eq_of_take_eq {limit : Int} (hl : 0 < limit) {s t : String}
    (hs : limit.toNat < s.length) (ht : limit.toNat < t.length)
    (h : s.toList.take limit.toNat = t.toList.take limit.toNat) :
    Text.limited limit s = Text.limited limit t := by
  rw [limited_of_exceeds (exceeds_iff.mpr ⟨hl, hs⟩),
    limited_of_exceeds (exceeds_iff.mpr ⟨hl, ht⟩), h]

/-- Any other limit cuts two pair ids to the same text. -/
theorem exists_alike {limit : Int} (h : ¬ Spares limit) :
    ∃ a b, IsPairId a ∧ IsPairId b ∧ a ≠ b ∧ Text.limited limit a = Text.limited limit b := by
  have hl : 0 < limit ∧ limit < 32 := by
    rw [Spares] at h
    omega
  let zeros := List.replicate 31 '0'
  have htake : ∀ c : Char, (zeros ++ [c]).take limit.toNat = zeros.take limit.toNat := by
    intro c
    refine List.take_append_of_le_length ?_
    rw [List.length_replicate]
    omega
  have ha : IsPairId (String.ofList (zeros ++ ['0'])) := by decide
  have hb : IsPairId (String.ofList (zeros ++ ['1'])) := by decide
  refine ⟨_, _, ha, hb, by decide, Text.limited_eq_of_take_eq hl.1 ?_ ?_ ?_⟩
  · rw [ha.1]
    omega
  · rw [hb.1]
    omega
  · rw [String.toList_ofList, String.toList_ofList, htake, htake]

/-- Both halves of every exchange show its pair id as it is cut to the limit of texts. They always
show it in full exactly if the limit spares pair ids, and exactly then two exchanges under different
ids never show the same one. -/
theorem pair_id_in_full_iff {r : Recorder} (hr : r.enabled = true) :
    (∀ pairId c, r.Shows pairId c (.text (Text.limited r.limits.stringLimit pairId))) ∧
    ((∀ pairId c, IsPairId pairId → r.Shows pairId c (.text pairId)) ↔
      Spares r.limits.stringLimit) ∧
    ((∀ a b c d s t, IsPairId a → IsPairId b → a ≠ b → r.Shows a c s → r.Shows b d t → s ≠ t) ↔
      Spares r.limits.stringLimit) := by
  have hshows := r.shows_limited hr
  have hfull : Spares r.limits.stringLimit →
      ∀ pairId c, IsPairId pairId → r.Shows pairId c (.text pairId) := by
    intro h pairId c hid
    have := hshows pairId c
    rwa [h.limited_eq hid] at this
  have htold : (∀ pairId c, IsPairId pairId → r.Shows pairId c (.text pairId)) →
      ∀ a b c d s t, IsPairId a → IsPairId b → a ≠ b → r.Shows a c s → r.Shows b d t → s ≠ t := by
    rintro h a b c d s t ha hb hab hs ht rfl
    cases (hs.unique (h a c ha)).symm.trans (ht.unique (h b d hb))
    exact hab rfl
  have hspares : (∀ a b c d s t, IsPairId a → IsPairId b → a ≠ b → r.Shows a c s →
      r.Shows b d t → s ≠ t) → Spares r.limits.stringLimit := by
    intro h
    by_cases hspared : Spares r.limits.stringLimit
    · exact hspared
    · obtain ⟨a, b, ha, hb, hab, halike⟩ := exists_alike hspared
      let c : Call := ⟨"", .absent, Span.zero, 0, "", .absent⟩
      exact absurd (by rw [halike]) (h a b c c _ _ ha hb hab (hshows a c) (hshows b c))
  exact ⟨hshows, ⟨fun h => hspares (htold h), hfull⟩, ⟨hspares, fun h => htold (hfull h)⟩⟩

/-- The standard limits spare pair ids. -/
theorem pair_id_in_full_iff_standard : Recorder.new.enabled = true ∧
    ∀ pairId c, IsPairId pairId → Recorder.new.Shows pairId c (.text pairId) :=
  ⟨rfl, (pair_id_in_full_iff rfl).2.1.mpr (Or.inr (by decide))⟩

/-- Under a limit of eight characters both halves show an id that was cut. -/
theorem pair_id_cut : IsPairId "0123456789abcdef0123456789abcdef" ∧
    (Recorder.new.withLimits { Policy.standard with stringLimit := 8 }).Shows
      "0123456789abcdef0123456789abcdef"
      ⟨"c", .scalar (.int 1), Span.zero, 0, "ok", .scalar (.int 2)⟩ (.text "01234567...") := by
  have hcut : Text.limited 8 "0123456789abcdef0123456789abcdef" = "01234567..." :=
    Text.limited_of_exceeds (by decide)
  refine ⟨by decide, ?_⟩
  rw [← hcut]
  exact Recorder.shows_limited rfl _ _

end Abridge

import Abridge.Proofs.Records

/-!
The line of a record read back. Its segments are joined as they are, so a separator that stands in
none of them parts the line again into just these, and records with different segments have
different lines. For a bar only the request id, the command and the message count, for level, kind,
cost, code and dashes never hold one.
-/
namespace Abridge

/-! ### What cost and code are written with -/

theorem isDigit_of_mem_toString {n : Nat} {ch : Char} (h : ch ∈ (toString n).toList) :
    ch.isDigit = true := by
  rw [Nat.toString_eq_repr, Nat.repr_eq_ofList_toDigits, String.toList_ofList] at h
  exact Nat.isDigit_of_mem_toDigits (by decide) (by decide) h

/-- A code is written with digits and a minus. -/
theorem mem_toString_int {z : Int} {ch : Char} (h : ch ∈ (toString z).toList) :
    ch.isDigit = true ∨ ch = '-' := by
  cases z with
  | ofNat n =>
    have hrepr : toString (Int.ofNat n) = toString n := rfl
    exact Or.inl (isDigit_of_mem_toString (hrepr ▸ h))
  | negSucc n =>
    have hrepr : toString (Int.negSucc n) = "-" ++ toString (n + 1) := String.toByteArray_inj.mp rfl
    rw [hrepr, String.toList_append, List.mem_append] at h
    rcases h with h | h
    · exact Or.inr (List.mem_singleton.mp h)
    · exact Or.inl (isDigit_of_mem_toString h)

namespace Span

section Parts

variable {n : Nat} {unit s : String} {ch : Char}

theorem mem_longPart (hunit : unit.toList.all Char.isLower = true) (h : longPart n unit = some s)
    (hch : ch ∈ s.toList) : ch.isDigit = true ∨ ch.isLower = true := by
  rw [longPart] at h
  split at h
  · cases h
  · cases h
    rw [String.toList_append, String.toList_append, List.mem_append, List.mem_append] at hch
    rcases hch with (hch | hch) | hch
    · exact Or.inl (isDigit_of_mem_toString hch)
    · exact Or.inr (List.all_eq_true.mp hunit ch hch)
    · split at hch
      · cases List.mem_singleton.mp hch
        exact Or.inr rfl
      · cases hch

theorem mem_shortPart (hunit : unit.toList.all Char.isLower = true)
    (h : shortPart n unit = some s) (hch : ch ∈ s.toList) :
    ch.isDigit = true ∨ ch.isLower = true := by
  rw [shortPart] at h
  split at h
  · cases h
  · cases h
    rw [String.toList_append, List.mem_append] at hch
    exact hch.imp isDigit_of_mem_toString (List.all_eq_true.mp hunit ch)

end Parts

theorem mem_parts {d : Span} {s : String} {ch : Char} (h : s ∈ d.parts) (hch : ch ∈ s.toList) :
    ch.isDigit = true ∨ ch.isLower = true := by
  obtain ⟨o, ho, rfl⟩ := List.mem_filterMap.mp h
  simp only [List.mem_cons, List.not_mem_nil, or_false] at ho
  rcases ho with ho | ho | ho | ho | ho | ho | ho | ho | ho
  · exact mem_longPart rfl ho.symm hch
  · exact mem_longPart rfl ho.symm hch
  · exact mem_longPart rfl ho.symm hch
  all_goals exact mem_shortPart rfl ho.symm hch

end Span

theorem mem_intercalate {sep : String} {ch : Char} : ∀ {ss : List String},
    ch ∈ (sep.intercalate ss).toList → ch ∈ sep.toList ∨ ∃ s ∈ ss, ch ∈ s.toList
  | [], h => by simp at h
  | [s], h => by
    rw [String.intercalate_singleton] at h
    exact Or.inr ⟨s, List.mem_singleton_self s, h⟩
  | s :: u :: rest, h => by
    rw [String.intercalate_cons_cons, String.toList_append, String.toList_append, List.mem_append,
      List.mem_append] at h
    rcases h with (h | h) | h
    · exact Or.inr ⟨s, List.mem_cons_self, h⟩
    · exact Or.inl h
    · exact (mem_intercalate h).imp_right fun ⟨x, hx, hch⟩ => ⟨x, List.mem_cons_of_mem _ hx, hch⟩

/-- A cost is written with digits, small letters and spaces. -/
theorem Span.mem_text {d : Span} {ch : Char} (h : ch ∈ d.text.toList) :
    ch.isDigit = true ∨ ch.isLower = true ∨ ch = ' ' := by
  rw [text] at h
  split at h
  · have hzero : "0s".toList.all (fun c => c.isDigit || c.isLower) = true := rfl
    have hkind : ch.isDigit = true ∨ ch.isLower = true := by
      simpa using List.all_eq_true.mp hzero ch h
    exact hkind.imp_right Or.inl
  · rcases mem_intercalate h with h | ⟨s, hs, h⟩
    · exact Or.inr (Or.inr (List.mem_singleton.mp h))
    · exact (mem_parts hs h).imp_right Or.inl

/-! ### Segments -/

namespace Recorder

/-- Level, request id, kind, command, cost, code and message. -/
theorem segments_eq (r : Recorder) (t : Traffic) : r.segments t =
    ["DATA", if r.requestId.getD "" = "" then "-:-:-" else r.requestId.getD "",
      (t.kind.map TrafficKind.name).getD "-", if t.command = "" then "-" else t.command,
      if t.kind = some .recvAt ∨ t.kind = some .sentTo then "-" else t.cost.text,
      if t.kind = some .recvAt ∨ t.kind = some .sentTo then "-" else toString t.code,
      if t.message = "" then "-" else t.message] := by
  have hid : (r.requestId.filter (· ≠ "")).getD "-:-:-" =
      if r.requestId.getD "" = "" then "-:-:-" else r.requestId.getD "" := by
    cases r.requestId with
    | none => rfl
    | some id => by_cases h : id = "" <;> simp [Option.filter, h]
  have hrequest : t.kind.any TrafficKind.isRequest = true ↔
      t.kind = some .recvAt ∨ t.kind = some .sentTo := by
    rcases t.kind with _ | _ | _ | _ | _ <;> simp [TrafficKind.isRequest]
  rw [segments, Traffic.segments, noRequestId, hid]
  by_cases h : t.kind = some .recvAt ∨ t.kind = some .sentTo
  · simp only [hrequest.mpr h, h, if_true]
    rfl
  · simp only [mt hrequest.mp h, h, if_false]
    rfl

/-- A separator that stands in no segment parts the line again. -/
theorem split_line {r : Recorder} {c : Char} (hsep : r.separator = String.singleton c) {t : Traffic}
    (hfree : ∀ s ∈ r.segments t, c ∉ s.toList) :
    ((r.line t).split c).toList.map (·.copy) = r.segments t := by
  rw [line, hsep, String.toList_split_intercalate hfree, if_neg (by simp [segments])]

/-- Level, kind, cost, code and dashes never hold a bar. -/
theorem bar_free_iff (r : Recorder) (t : Traffic) : (∀ s ∈ r.segments t, '|' ∉ s.toList) ↔
    (∀ id, r.requestId = some id → '|' ∉ id.toList) ∧ '|' ∉ t.command.toList ∧
      '|' ∉ t.message.toList := by
  have hlevel : '|' ∉ "DATA".toList := by decide
  have hid : '|' ∉ (if r.requestId.getD "" = "" then "-:-:-" else r.requestId.getD "").toList ↔
      ∀ id, r.requestId = some id → '|' ∉ id.toList := by
    cases r.requestId with
    | none => simp
    | some id => by_cases h : id = "" <;> simp [h]
  have hkind : '|' ∉ ((t.kind.map TrafficKind.name).getD "-").toList := by
    rcases t.kind with _ | _ | _ | _ | _ <;> decide
  have hcost : '|' ∉ t.cost.text.toList := fun h => absurd (Span.mem_text h) (by decide)
  have hcode : '|' ∉ (toString t.code).toList := fun h => absurd (mem_toString_int h) (by decide)
  have known (s : String) (hs : '|' ∉ s.toList) :
      '|' ∉ (if t.kind = some .recvAt ∨ t.kind = some .sentTo then "-" else s).toList := by
    split
    · decide
    · exact hs
  have shown (s : String) : '|' ∉ (if s = "" then "-" else s).toList ↔ '|' ∉ s.toList := by
    by_cases h : s = "" <;> simp [h]
  rw [segments_eq]
  simp only [List.forall_mem_cons, hlevel, hid, hkind, shown, known _ hcost, known _ hcode,
    not_false_eq_true, true_and, List.not_mem_nil, false_implies, implies_true, and_true]

end Recorder

/-- A separator in no segment parts the line of a record into its seven segments again, so that the
lines of two such records differ if their segments do. Costs are written with digits, small letters
and spaces, and so the bar stands in a segment only if it stands in the request id, the command or
the message. -/
theorem record_splits_back {r : Recorder} {c : Char} (hsep : r.separator = String.singleton c)
    {t : Traffic} {extra : List (String × Value)} {half : TrafficRecord}
    (hhalf : (r.record t extra).value = some half) :
    r.segments t = ["DATA", if r.requestId.getD "" = "" then "-:-:-" else r.requestId.getD "",
      (t.kind.map TrafficKind.name).getD "-", if t.command = "" then "-" else t.command,
      if t.kind = some .recvAt ∨ t.kind = some .sentTo then "-" else t.cost.text,
      if t.kind = some .recvAt ∨ t.kind = some .sentTo then "-" else toString t.code,
      if t.message = "" then "-" else t.message] ∧
    ((∀ s ∈ r.segments t, c ∉ s.toList) →
      (half.message.split c).toList.map (·.copy) = r.segments t ∧
      ∀ (r' : Recorder) (t' : Traffic) extra' half', r'.separator = r.separator →
        (r'.record t' extra').value = some half' → (∀ s ∈ r'.segments t', c ∉ s.toList) →
        (half.message = half'.message ↔ r.segments t = r'.segments t')) ∧
    (∀ ch ∈ t.cost.text.toList, ch.isDigit = true ∨ ch.isLower = true ∨ ch = ' ') ∧
    Recorder.new.separator = String.singleton '|' ∧
    (c = '|' → ((∀ s ∈ r.segments t, c ∉ s.toList) ↔
      (∀ id, r.requestId = some id → '|' ∉ id.toList) ∧ '|' ∉ t.command.toList ∧
        '|' ∉ t.message.toList)) := by
  have hline : half.message = r.line t := by rw [Recorder.eq_of_record hhalf]
  refine ⟨r.segments_eq t, fun hfree => ⟨?_, ?_⟩, fun _ => Span.mem_text, rfl, ?_⟩
  · rw [hline]
    exact Recorder.split_line hsep hfree
  · intro r' t' extra' half' hsame hhalf' hfree'
    have hline' : half'.message = r'.line t' := by rw [Recorder.eq_of_record hhalf']
    rw [hline, hline']
    constructor
    · intro heq
      rw [← Recorder.split_line hsep hfree, heq, Recorder.split_line (hsame.trans hsep) hfree']
    · intro heq
      rw [Recorder.line, Recorder.line, heq, hsame]
  · rintro rfl
    exact r.bar_free_iff t

/-- Two responses that differ in their codes; the spaces of cost and message part nothing. -/
theorem record_splits_back_response :
    let r := Recorder.new.withRequestId "req-42"
    let t : Traffic := ⟨some .respFrom, "user.get", 404, "not found", ⟨1, 12000000⟩, none, none⟩
    let u : Traffic := { t with code := 0 }
    let line := "DATA|req-42|resp_from|user.get|1s 12ms|404|not found"
    r.separator = String.singleton '|' ∧ (r.record t []).value = some ⟨line, []⟩ ∧
      (∀ s ∈ r.segments t, '|' ∉ s.toList) ∧ (line.split '|').toList.map (·.copy) =
        ["DATA", "req-42", "resp_from", "user.get", "1s 12ms", "404", "not found"] ∧
      (r.record u []).value = some ⟨r.line u, []⟩ ∧ line ≠ r.line u := by
  intro r t u line
  have hline : r.line t = line := by decide +kernel
  have ht : (r.record t []).value = some ⟨line, []⟩ := by
    rw [Recorder.value_record rfl, hline]
    rfl
  have hu : (r.record u []).value = some ⟨r.line u, []⟩ := Recorder.value_record rfl u []
  have free (x : Traffic) (hx : x.command = "user.get" ∧ x.message = "not found") :
      ∀ s ∈ r.segments x, '|' ∉ s.toList := by
    refine (r.bar_free_iff x).mpr ⟨?_, by rw [hx.1]; decide, by rw [hx.2]; decide⟩
    rintro id ⟨⟩
    decide
  obtain ⟨_, hsplit, _⟩ := record_splits_back (c := '|') rfl ht
  obtain ⟨hparts, hdiffer⟩ := hsplit (free t ⟨rfl, rfl⟩)
  refine ⟨rfl, ht, free t ⟨rfl, rfl⟩, hparts.trans (by decide +kernel), hu, fun heq => ?_⟩
  have hsame : r.segments t = r.segments u :=
    (hdiffer r u [] _ rfl hu (free u ⟨rfl, rfl⟩)).mp heq
  revert hsame
  decide +kernel

end Abridge

import Abridge.Proofs.Snake

/-!
Which names stay as they are when their rule is applied once more. Separators and the case of whole
words survive. Capitals in place of separators are read as words again, which fails where two words
of one letter stand side by side: their capitals run together, and the second one becomes small.
-/
namespace Abridge.Derive

open Text

namespace RenameRule

/-! ### Dashes are read as underscores -/

/-- What does not tell the dash from the underscore is the same of a character with dashes for
underscores. -/
theorem singleton_dashed {f : Cluster → Bool} (h : f ['-'] = f ['_']) (c : Char) :
    f [dashed c] = f [c] := by
  by_cases hc : c = '_'
  · subst hc
    exact h
  · rw [dashed, if_neg hc]

theorem isSeparator_dashed (c : Char) : isSeparator [dashed c] = isSeparator [c] :=
  singleton_dashed rfl c

theorem wordEnds_dashed (c d : Char) (after : List Char) :
    wordEnds [dashed c] [dashed d] ((after.map dashed).map ([·])) =
      wordEnds [c] [d] (after.map ([·])) := by
  have hlower : ∀ c, isLower [dashed c] = isLower [c] := singleton_dashed (by decide +kernel)
  have hupper : ∀ c, isUpper [dashed c] = isUpper [c] := singleton_dashed (by decide +kernel)
  have hdigits : ∀ c, isDigits [dashed c] = isDigits [c] := singleton_dashed rfl
  have hafter : ((after.map dashed).map ([·])).head?.any isLower =
      (after.map ([·])).head?.any isLower := by
    cases after with
    | nil => rfl
    | cons e rest => exact hlower e
  rw [wordEnds, wordEnds, hlower, hlower, hupper, hupper, hdigits, hdigits, hafter]

theorem wordsFrom_map_dashed (cs word : List Char) :
    wordsFrom word ((cs.map dashed).map ([·])) = wordsFrom word (cs.map ([·])) := by
  induction cs generalizing word with
  | nil => rfl
  | cons c rest ih =>
    rw [List.map_cons, List.map_cons, List.map_cons, wordsFrom.eq_def,
      wordsFrom.eq_def _ ([c] :: _)]
    simp only [isSeparator_dashed, ih]
    by_cases hc : isSeparator [c] = true
    · rw [if_pos hc, if_pos hc]
    · have hkeep : dashed c = c := if_neg fun h : c = '_' => hc (h ▸ rfl)
      rw [if_neg hc, if_neg hc, hkeep]
      cases rest with
      | nil => rfl
      | cons d after =>
        have hends := wordEnds_dashed c d after
        rw [hkeep] at hends
        simp only [List.map_cons] at ih ⊢
        simp only [hends, ih]

theorem isPlain_map_dashed {cs : List Char} (h : IsPlain cs) : IsPlain (cs.map dashed) := by
  intro c hc
  obtain ⟨d, hd, rfl⟩ := List.mem_map.mp hc
  rw [dashed]
  split
  · decide
  · exact h d hd

theorem words_map_dashed {cs : List Char} (h : IsPlain cs) : words (cs.map dashed) = words cs := by
  rw [words, words, clusters_eq h, clusters_eq (isPlain_map_dashed h), wordsFrom_map_dashed]
  simp

/-! ### Capitals run together -/

/-- Without small letters and digits nothing is divided. -/
theorem nowhere_endsAfter {cs : List Char}
    (h : ∀ c ∈ cs, c.isLower = false ∧ c.isDigit = false) : nowhere endsAfter cs = true := by
  induction cs with
  | nil => rfl
  | cons c rest ih =>
    have hrest := fun d hd => h d (List.mem_cons_of_mem c hd)
    refine nowhere_cons_iff.mpr ⟨?_, ih hrest⟩
    obtain ⟨hlower, hdigit⟩ := h c List.mem_cons_self
    cases rest with
    | nil => rfl
    | cons d after =>
      have hd := hrest d List.mem_cons_self
      have hafter : after.head?.any Char.isLower = false := by
        cases after with
        | nil => rfl
        | cons e more => exact (hrest e (by simp)).1
      simp [endsAfter, hlower, hdigit, hd, hafter]

/-- Small letters in front change no case. -/
theorem nowhere_recasedAfter_small {w : List Char} (hw : ∀ c ∈ w, c.isLower = true)
    (cs : List Char) : nowhere recasedAfter (w ++ cs) = nowhere recasedAfter cs := by
  induction w with
  | nil => rfl
  | cons c w ih =>
    have hc := hw c List.mem_cons_self
    have hupper := isUpper_eq_false hc
    have hdigit : c.isDigit = false := isDigit_eq_false (by simp [Char.isAlpha, hc])
    have hrecased : recasedAfter c (w ++ cs) = false := by
      cases w ++ cs with
      | nil => rfl
      | cons d after => simp [recasedAfter, hupper, hdigit]
    rw [List.cons_append, nowhere, hrecased, ih fun d hd => hw d (List.mem_cons_of_mem c hd)]
    rfl

theorem recasedAfter_capital_small {c d : Char} (hc : c.isUpper = true) (hd : d.isLower = true)
    (after : List Char) : recasedAfter c (d :: after) = false := by
  have hdigit : c.isDigit = false := isDigit_eq_false (by simp [Char.isAlpha, hc])
  simp [recasedAfter, hdigit, isUpper_eq_false hd]

section

variable {v w : List Char} {ws : List (List Char)}

theorem head?_capitals (hws : ∀ v ∈ ws, IsWord v) :
    (ws.flatMap capitalFirst).head?.any Char.isLower = false := by
  cases ws with
  | nil => rfl
  | cons v ws =>
    obtain ⟨c, rest, rfl, hc, _⟩ := (hws v List.mem_cons_self).exists_cons
    exact isLower_eq_false (isUpper_toUpper hc)

/-- The capital of a word is followed by another one, with which it runs together, exactly if both
words have one letter. -/
theorem recasedAfter_capital {c : Char} {rest : List Char} (hv : IsWord (c :: rest))
    (hw : IsWord w) (hws : ∀ v ∈ ws, IsWord v) :
    recasedAfter c.toUpper (rest ++ (w :: ws).flatMap capitalFirst) = false ↔
      1 < (c :: rest).length ∨ 1 < w.length := by
  have hc := isUpper_toUpper (hv.2 c List.mem_cons_self)
  cases rest with
  | cons d more =>
    have hd := hv.2 d (by simp)
    exact iff_of_true (recasedAfter_capital_small hc hd _) (by simp)
  | nil =>
    obtain ⟨e, more, rfl, he, hmore⟩ := hw.exists_cons
    have hcapital := isUpper_toUpper he
    have hdigit : c.toUpper.isDigit = false := isDigit_eq_false (by simp [Char.isAlpha, hc])
    cases more with
    | nil =>
      have hafter := head?_capitals hws
      simp [recasedAfter, capitalFirst, hc, hcapital, hafter]
    | cons f more =>
      have hf := hmore f List.mem_cons_self
      simp [recasedAfter, capitalFirst, hdigit, hf]

/-- Nowhere do two words of one letter follow one another. -/
def NoShortPair (ws : List (List Char)) : Prop := ws.IsChain fun v w => 1 < v.length ∨ 1 < w.length

/-- The capitals of words stay as they are unless two of them have nothing in between. -/
theorem nowhere_recasedAfter_capitals (hws : ∀ v ∈ ws, IsWord v) :
    nowhere recasedAfter (ws.flatMap capitalFirst) = true ↔ NoShortPair ws := by
  induction ws with
  | nil => simp [NoShortPair, nowhere]
  | cons v ws ih =>
    have hv := hws v List.mem_cons_self
    have hrest : ∀ u ∈ ws, IsWord u := fun u hu => hws u (List.mem_cons_of_mem v hu)
    obtain ⟨c, small, rfl, hc, hsmall⟩ := hv.exists_cons
    rw [List.flatMap_cons, capitalFirst, List.cons_append, nowhere_cons_iff,
      nowhere_recasedAfter_small hsmall, ih hrest, NoShortPair, NoShortPair]
    cases ws with
    | nil =>
      have hlast : recasedAfter c.toUpper small = false := by
        cases small with
        | nil => rfl
        | cons d more =>
          exact recasedAfter_capital_small (isUpper_toUpper hc) (hsmall d List.mem_cons_self) more
      simpa using hlast
    | cons w ws =>
      have hw := hrest w List.mem_cons_self
      rw [List.isChain_cons_cons]
      exact and_congr_left fun _ =>
        recasedAfter_capital hv hw fun u hu => hrest u (List.mem_cons_of_mem w hu)

/-! ### Once more -/

theorem isName_of_isAlpha {cs : List Char} (h : ∀ c ∈ cs, c.isAlpha = true) : IsName cs := by
  intro c hc
  simp [isNameChar, Char.isAlphanum, h c hc]

theorem underscore_not_mem_of_isAlpha {cs : List Char} (h : ∀ c ∈ cs, c.isAlpha = true) :
    '_' ∉ cs := fun hline => absurd (h '_' hline) (by decide)

theorem afterUnderscores_self {cs : List Char} (h : '_' ∉ cs) : afterUnderscores false cs = cs := by
  simpa [afterUnderscores] using afterUnderscores_word h []

theorem afterUnderscores_capitals (hws : ∀ v ∈ ws, IsWord v) :
    afterUnderscores true (ws.flatMap capitalFirst) = ws.flatMap capitalFirst := by
  have hline := underscore_not_mem_of_isAlpha fun _ => isAlpha_of_mem_capitals hws
  cases ws with
  | nil => rfl
  | cons v ws =>
    obtain ⟨c, rest, rfl, _⟩ := (hws v List.mem_cons_self).exists_cons
    rw [List.flatMap_cons, capitalFirst, List.cons_append] at hline ⊢
    obtain ⟨hc, hrest⟩ := not_or.mp fun h => hline (List.mem_cons.mpr h)
    rw [afterUnderscores, if_neg (Ne.symm hc), if_pos rfl, Char.toUpper_toUpper_eq_toUpper,
      afterUnderscores_self hrest]

/-- Does the rule leave the name as it is that it makes of these words? -/
def Settles : RenameRule → List (List Char) → Prop
  | .pascal, ws => NoShortPair ws
  | .camel, ws => NoShortPair ws.tail
  | _, _ => True

theorem applyChars_map_toUpper {cs : List Char} (h : IsSmall cs) {r : RenameRule}
    (hr : r = .uppercase ∨ r = .screamingSnake) :
    r.applyChars (cs.map Char.toUpper) = cs.map Char.toUpper := by
  have hlarge := mem_map_toUpper h
  have hname : IsName (cs.map Char.toUpper) := by
    intro c hc
    rcases hlarge c hc with hc | hc <;> simp [isNameChar_iff, hc]
  have hends : nowhere endsAfter (cs.map Char.toUpper) = true := by
    refine nowhere_endsAfter fun c hc => ?_
    rcases hlarge c hc with hc | rfl
    · exact ⟨isLower_eq_false hc, isDigit_eq_false (by simp [Char.isAlpha, hc])⟩
    · decide
  have hagain : (cs.map Char.toUpper).map Char.toUpper = cs.map Char.toUpper := by
    simp
  rcases hr with rfl | rfl
  · exact ((applyChars_eq_serializerChars_iff .uppercase hname).mpr rfl).trans hagain
  · exact ((applyChars_eq_serializerChars_iff .screamingSnake hname).mpr hends).trans hagain

theorem applyChars_written_iff (r : RenameRule) (hw : IsWord w) (hws : ∀ v ∈ ws, IsWord v) :
    r.applyChars (r.written w ws) = r.written w ws ↔ r.Settles (w :: ws) := by
  have hsmall := isSmall_joined hw hws
  cases r with
  | lowercase => exact iff_of_true (applyChars_joined .lowercase hw hws) trivial
  | snake => exact iff_of_true (applyChars_joined .snake hw hws) trivial
  | uppercase => exact iff_of_true (applyChars_map_toUpper hsmall (Or.inl rfl)) trivial
  | screamingSnake => exact iff_of_true (applyChars_map_toUpper hsmall (Or.inr rfl)) trivial
  | kebab =>
    have hdashes := written_kebab hw hws
    have hkebab := applyChars_joined .kebab hw hws
    rw [applyChars] at hkebab
    refine iff_of_true ?_ trivial
    rw [applyChars, hdashes, words_map_dashed hsmall.isName.isPlain, ← hdashes]
    exact hkebab
  | camel =>
    have hcapitals : ∀ c ∈ ws.flatMap capitalFirst, c.isAlpha = true :=
      fun _ => isAlpha_of_mem_capitals hws
    have hname : IsName (camel.written w ws) := by
      refine isName_of_isAlpha fun c hc => ?_
      rcases List.mem_append.mp hc with hc | hc
      · simp [Char.isAlpha, hw.2 c hc]
      · exact hcapitals c hc
    have hself : camel.serializerChars (camel.written w ws) = camel.written w ws := by
      rw [serializerChars, written, afterUnderscores_capitalFirst hw,
        afterUnderscores_self (underscore_not_mem_of_isAlpha hcapitals), lowerFirst_capitalFirst hw]
    have hagrees := applyChars_eq_serializerChars_iff .camel hname
    have hhead : (camel.written w ws).head? ≠ some '_' := hw.head_ne _
    rw [hself, agrees, beq_eq_false_iff_ne.mpr hhead, Bool.false_and, Bool.not_false,
      Bool.and_true, written, nowhere_recasedAfter_small hw.2] at hagrees
    exact hagrees.trans (nowhere_recasedAfter_capitals hws)
  | pascal =>
    have hall : ∀ v ∈ w :: ws, IsWord v := List.forall_mem_cons.mpr ⟨hw, hws⟩
    have hname : IsName ((w :: ws).flatMap capitalFirst) :=
      isName_of_isAlpha fun _ => isAlpha_of_mem_capitals hall
    have hagrees := applyChars_eq_serializerChars_iff .pascal hname
    rw [serializerChars, afterUnderscores_capitals hall] at hagrees
    exact hagrees.trans (nowhere_recasedAfter_capitals hall)

end

/-- A rule that is applied once more to what it made of words leaves the name as it is, with two
exceptions: two words of one letter side by side under `PascalCase`, and under `camelCase` the same
behind the first word. -/
theorem apply_apply_eq_iff (r : RenameRule) {ws : List (List Char)} {name : String}
    (h : Joins ws name) : r.apply (r.apply name) = r.apply name ↔ r.Settles ws := by
  obtain ⟨w, rest, rfl, hw, hrest, hname⟩ := h.exists_cons
  rw [apply, apply, String.toList_ofList, String.ofList_inj, hname, applyChars_joined r hw hrest]
  exact applyChars_written_iff r hw hrest

/-- A single letter beside a longer word. -/
theorem apply_apply_eq_iff_axis : Joins ["x".toList, "axis".toList] "x_axis" ∧
    RenameRule.pascal.apply (RenameRule.pascal.apply "x_axis") =
      RenameRule.pascal.apply "x_axis" := by
  have hjoins : Joins ["x".toList, "axis".toList] "x_axis" :=
    ⟨by simp, by simp [IsWord], by rfl⟩
  have hsettles : RenameRule.pascal.Settles ["x".toList, "axis".toList] := by
    simp [Settles, NoShortPair]
  exact ⟨hjoins, (apply_apply_eq_iff .pascal hjoins).mpr hsettles⟩

/-- The capitals of two single letters are read as one word. -/
theorem apply_apply_ne_letters : Joins ["a".toList, "a".toList] "a_a" ∧
    RenameRule.pascal.apply "a_a" = "AA" ∧
    RenameRule.pascal.apply (RenameRule.pascal.apply "a_a") = "Aa" :=
  ⟨⟨by simp, by simp [IsWord], by rfl⟩, by decide +kernel, by decide +kernel⟩

end RenameRule

end Abridge.Derive

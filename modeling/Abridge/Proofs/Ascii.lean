import Abridge.Text.Case
import Abridge.Text.Cluster
import Mathlib

/-!
Names in letters, digits and underscores. Each of these characters is seen by itself, and its other
case is one character, so what is done to a name by its clusters and cases is done character by
character.
-/
namespace Abridge.Text

/-- A letter, a digit or the underscore. -/
def isNameChar (c : Char) : Bool := c.isAlphanum || c == '_'

/-- There is nothing else in it. -/
def IsName (cs : List Char) : Prop := ∀ c ∈ cs, isNameChar c = true

/-- Only characters that never join one before them. -/
def IsPlain (cs : List Char) : Prop := ∀ c ∈ cs, c.toNat < 128 ∧ c ≠ '\n'

section

variable {c : Char} {cs : List Char}

theorem isUpper_iff : c.isUpper = true ↔ 65 ≤ c.toNat ∧ c.toNat ≤ 90 := by
  simp [Char.isUpper, UInt32.le_iff_toNat_le, ← Char.toNat_val]

theorem isLower_iff : c.isLower = true ↔ 97 ≤ c.toNat ∧ c.toNat ≤ 122 := by
  simp [Char.isLower, UInt32.le_iff_toNat_le, ← Char.toNat_val]

theorem isDigit_iff : c.isDigit = true ↔ 48 ≤ c.toNat ∧ c.toNat ≤ 57 := by
  simp [Char.isDigit, UInt32.le_iff_toNat_le, ← Char.toNat_val]

theorem isUpper_eq_false (h : c.isLower = true) : c.isUpper = false := by
  simpa using Char.not_isUpper_of_isLower h

theorem isLower_eq_false (h : c.isUpper = true) : c.isLower = false := by
  simpa using Char.not_isLower_of_isUpper h

theorem isAlpha_eq_false (h : c.isDigit = true) : c.isUpper = false ∧ c.isLower = false := by
  have hdigit := isDigit_iff.mp h
  constructor
  · refine Bool.eq_false_of_not_eq_true fun hupper => ?_
    have hrange := isUpper_iff.mp hupper
    omega
  · refine Bool.eq_false_of_not_eq_true fun hlower => ?_
    have hrange := isLower_iff.mp hlower
    omega

theorem isDigit_eq_false (h : c.isAlpha = true) : c.isDigit = false := by
  refine Bool.eq_false_of_not_eq_true fun hdigit => ?_
  obtain ⟨hupper, hlower⟩ := isAlpha_eq_false hdigit
  simp [Char.isAlpha, hupper, hlower] at h

theorem isNameChar_iff : isNameChar c = true ↔
    c.isUpper = true ∨ c.isLower = true ∨ c.isDigit = true ∨ c = '_' := by
  simp [isNameChar, Char.isAlphanum, Char.isAlpha, or_assoc]

theorem toNat_lt_of_isNameChar (h : isNameChar c = true) : c.toNat < 128 := by
  rcases isNameChar_iff.mp h with h | h | h | rfl
  · have hrange := isUpper_iff.mp h
    omega
  · have hrange := isLower_iff.mp h
    omega
  · have hrange := isDigit_iff.mp h
    omega
  · decide

theorem IsName.nil : IsName [] := fun _ h => nomatch h

theorem IsName.single (h : isNameChar c = true) : IsName [c] := by
  intro d hd
  rw [List.mem_singleton.mp hd]
  exact h

theorem IsName.head (h : IsName (c :: cs)) : isNameChar c = true := h c List.mem_cons_self

theorem IsName.tail (h : IsName (c :: cs)) : IsName cs := fun d hd =>
  h d (List.mem_cons_of_mem c hd)

theorem IsName.isPlain (h : IsName cs) : IsPlain cs := by
  intro c hc
  refine ⟨toNat_lt_of_isNameChar (h c hc), ?_⟩
  rintro rfl
  exact absurd (h _ hc) (by decide)

theorem IsPlain.tail (h : IsPlain (c :: cs)) : IsPlain cs := fun d hd =>
  h d (List.mem_cons_of_mem c hd)

theorem IsName.push (h : IsName cs) (hc : isNameChar c = true) : IsName (cs ++ [c]) := by
  intro d hd
  rcases List.mem_append.mp hd with hd | hd
  · exact h d hd
  · exact IsName.single hc d hd

end

/-! ### Clusters -/

/-- The ranges of the tables begin far above these characters. -/
theorem inRanges_eq_false {n : Nat} (hn : n < 128) {ranges : List (Nat × Nat)}
    (h : ranges.head?.all (fun r => decide (128 ≤ r.1)) = true) : inRanges n ranges = false := by
  cases ranges with
  | nil => rfl
  | cons r rest =>
    have hr : 128 ≤ r.1 := of_decide_eq_true h
    exact if_pos (Nat.lt_of_lt_of_le hn hr)

section

variable {c : Char} {cs : List Char}

theorem attaches_eq_false (hc : c.toNat < 128) : attaches c = false := by
  have hjoiner : isJoiner c = false := decide_eq_false (by omega)
  have hextender : isExtender c = false := inRanges_eq_false hc rfl
  have htone : inRanges c.toNat [(0x1f3fb, 0x1f3ff)] = false := inRanges_eq_false hc rfl
  have hspacing : inRanges c.toNat spacingRanges = false := inRanges_eq_false hc rfl
  rw [attaches, altersLast, hextender, htone, hjoiner, hspacing]
  rfl

theorem syllablePart?_eq_none (hc : c.toNat < 128) : syllablePart? c = none := by
  have hlarge : ¬ (0xac00 ≤ c.toNat ∧ c.toNat ≤ 0xd7a3) := by omega
  simp only [syllablePart?]
  rw [inRanges_eq_false hc rfl, inRanges_eq_false hc rfl, inRanges_eq_false hc rfl, if_neg hlarge]
  rfl

/-- No cluster goes on with such a character. -/
theorem continues_eq_false (t : Tail) (ht : t.last.toNat < 128) (hc : c.toNat < 128)
    (hne : c ≠ '\n') : t.continues c = false := by
  have hleading : inRanges t.last.toNat leadingRanges = false := inRanges_eq_false ht rfl
  have hsyllable : sameSyllable t.last c = false := by
    rw [sameSyllable, syllablePart?_eq_none ht]
  have hconsonant : isConsonant c = false := inRanges_eq_false hc rfl
  have hpictograph : isPictograph c = false := inRanges_eq_false hc rfl
  have hflag : isFlagHalf c = false := inRanges_eq_false hc rfl
  rw [Tail.continues, if_neg fun h => hne h.2, attaches_eq_false hc, hleading, hsyllable,
    hconsonant, hpictograph, hflag]
  simp

theorem clustersFrom_eq (h : IsPlain cs) (t : Tail) (ht : t.last.toNat < 128) (g : List Char) :
    clustersFrom t g cs = g.reverse :: cs.map ([·]) := by
  induction cs generalizing t g with
  | nil => rfl
  | cons c rest ih =>
    obtain ⟨hc, hne⟩ := h c List.mem_cons_self
    rw [clustersFrom, continues_eq_false t ht hc hne, if_neg Bool.false_ne_true,
      ih h.tail (.start c) hc]
    rfl

/-- Each character is a cluster. -/
theorem clusters_eq (h : IsPlain cs) : clusters cs = cs.map ([·]) := by
  cases cs with
  | nil => rfl
  | cons c rest => exact clustersFrom_eq h.tail (.start c) (h c List.mem_cons_self).1 [c]

/-! ### Cases -/

theorem toLower_eq_self_iff : c.toLower = c ↔ c.isUpper = false := by
  constructor
  · intro h
    rw [← h]
    exact Char.isUpper_toLower_eq_false c
  · exact fun h => Char.toLower_eq_of_not_isUpper (by simp [h])

theorem toUpper_eq_self_iff : c.toUpper = c ↔ c.isLower = false := by
  constructor
  · intro h
    rw [← h]
    exact Char.isLower_toUpper_eq_false c
  · exact fun h => Char.toUpper_eq_of_not_isLower (by simp [h])

theorem upperChar_eq (hc : c.toNat < 128) : upperChar c = [c.toUpper] := if_pos hc

theorem lowerChar_eq (hc : c.toNat < 128) : lowerChar c = [c.toLower] := if_pos hc

theorem upper_eq (h : IsName cs) : upper cs = cs.map Char.toUpper := by
  induction cs with
  | nil => rfl
  | cons c rest ih =>
    have hrest := ih h.tail
    rw [upper] at hrest
    rw [upper, List.flatMap_cons, hrest, upperChar_eq (toNat_lt_of_isNameChar h.head)]
    rfl

theorem lowerFrom_eq (h : IsName cs) (before : List Char) :
    lowerFrom before cs = cs.map Char.toLower := by
  induction cs generalizing before with
  | nil => rfl
  | cons c rest ih =>
    have hsigma : c ≠ 'Σ' := by
      rintro rfl
      exact absurd h.head (by decide)
    rw [lowerFrom, if_neg hsigma, ih h.tail, lowerChar_eq (toNat_lt_of_isNameChar h.head)]
    rfl

theorem lower_eq (h : IsName cs) : lower cs = cs.map Char.toLower := lowerFrom_eq h []

theorem capital_eq (h : IsName (c :: cs)) :
    capital (c :: cs) = c.toUpper :: cs.map Char.toLower := by
  rw [capital, upperChar_eq (toNat_lt_of_isNameChar h.head), lower_eq h.tail]
  rfl

end

end Abridge.Text

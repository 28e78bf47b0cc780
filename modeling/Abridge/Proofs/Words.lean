import Abridge.Derive.Rename
import Abridge.Proofs.Ascii

/-!
The words of a name in letters, digits and underscores, and the name that a rule makes of them.
Whether a word ends at a character can be told from this character and the next two, so the rules
work on such a name in one pass.
-/
namespace Abridge.Derive.RenameRule

open Text

/-! ### Single characters -/

section

variable {c d : Char}

theorem hasCase_singleton (hc : isNameChar c = true) : hasCase [c] = c.isAlpha := by
  have hcase : c.toUpper = c.toLower ↔ c.isAlpha = false := by
    constructor
    · intro h
      rw [← Char.isUpper_toUpper_eq_isAlpha, h, Char.isUpper_toLower_eq_false]
    · intro h
      obtain ⟨hupper, hlower⟩ := Bool.or_eq_false_iff.mp h
      rw [toUpper_eq_self_iff.mpr hlower, toLower_eq_self_iff.mpr hupper]
  rw [hasCase, upper_eq (.single hc), lower_eq (.single hc)]
  cases h : c.isAlpha <;> simp [hcase, h]

theorem isLower_singleton (hc : isNameChar c = true) : isLower [c] = c.isLower := by
  have hsame : ([c] == [c].map Char.toLower) = !c.isUpper := by
    rw [Bool.eq_iff_iff, Bool.not_eq_true', ← toLower_eq_self_iff]
    simpa using eq_comm
  rw [isLower, hasCase_singleton hc, lower_eq (.single hc), hsame, Char.isAlpha]
  cases h : c.isUpper <;> simp [h, isLower_eq_false]

theorem isUpper_singleton (hc : isNameChar c = true) : isUpper [c] = c.isUpper := by
  have hsame : ([c] == [c].map Char.toUpper) = !c.isLower := by
    rw [Bool.eq_iff_iff, Bool.not_eq_true', ← toUpper_eq_self_iff]
    simpa using eq_comm
  rw [isUpper, hasCase_singleton hc, upper_eq (.single hc), hsame, Char.isAlpha]
  cases h : c.isLower <;> simp [h, isUpper_eq_false]

theorem isSeparator_singleton (hc : isNameChar c = true) : isSeparator [c] = decide (c = '_') := by
  have hdash : c ≠ '-' := by
    rintro rfl
    exact absurd hc (by decide)
  have hspace : c ≠ ' ' := by
    rintro rfl
    exact absurd hc (by decide)
  simp [isSeparator, hdash, hspace]

end

/-! ### One pass -/

/-- Does a word end between `c` and what follows it? -/
def endsAfter (c : Char) : List Char → Bool
  | [] => false
  | d :: after =>
    (c.isLower && d.isUpper) || (c.isUpper && d.isUpper && after.head?.any Char.isLower) ||
      (c.isAlpha && d.isDigit) || (c.isDigit && d.isAlpha)

theorem wordEnds_singletons {c d : Char} {after : List Char} (h : IsName (c :: d :: after)) :
    wordEnds [c] [d] (after.map ([·])) = endsAfter c (d :: after) := by
  have hc := h.head
  have hd := h.tail.head
  have hafter : (after.map ([·])).head?.any isLower = after.head?.any Char.isLower := by
    cases after with
    | nil => rfl
    | cons e rest => exact isLower_singleton h.tail.tail.head
  rw [wordEnds, endsAfter, isLower_singleton hc, isUpper_singleton hc, isLower_singleton hd,
    isUpper_singleton hd, hafter, Char.isAlpha, Char.isAlpha, Bool.or_comm c.isUpper,
    Bool.or_comm d.isUpper]
  simp [isDigits]

section

variable {c : Char} {rest cs word : List Char}

/-- The words of a name, found character by character. -/
theorem wordsFrom_cons (h : IsName (c :: rest)) (word : List Char) :
    wordsFrom word ((c :: rest).map ([·])) =
      if c = '_' then word :: wordsFrom [] (rest.map ([·]))
      else if endsAfter c rest then (word ++ [c]) :: wordsFrom [] (rest.map ([·]))
      else wordsFrom (word ++ [c]) (rest.map ([·])) := by
  cases rest with
  | nil =>
    rw [List.map_cons, List.map_nil, wordsFrom.eq_def]
    simp [isSeparator_singleton h.head, endsAfter, wordsFrom]
  | cons d after =>
    rw [List.map_cons, List.map_cons, wordsFrom.eq_def]
    simp only [isSeparator_singleton h.head, decide_eq_true_eq, wordEnds_singletons h]

theorem wordsFrom_ne_nil (word : List Char) (gs : List Cluster) : wordsFrom word gs ≠ [] := by
  fun_induction wordsFrom word gs with
  | case5 => assumption
  | _ => exact List.cons_ne_nil _ _

/-- A name with each character changed by `f`, and `sep` where a word ends. -/
def spread (sep : Char) (f : Char → Char) : List Char → List Char
  | [] => []
  | c :: rest =>
    if c = '_' then sep :: spread sep f rest
    else f c :: ((if endsAfter c rest then [sep] else []) ++ spread sep f rest)

/-- A name with all its words capitalized; `fresh` tells whether the first one begins here. -/
def capitalized (fresh : Bool) : List Char → List Char
  | [] => []
  | c :: rest =>
    if c = '_' then capitalized true rest
    else (if fresh then c.toUpper else c.toLower) :: capitalized (endsAfter c rest) rest

theorem intercalate_wordsFrom {change : List Char → List Char} {f : Char → Char}
    (hchange : ∀ w, IsName w → change w = w.map f) (sep : Char) (hcs : IsName cs)
    (hword : IsName word) :
    [sep].intercalate ((wordsFrom word (cs.map ([·]))).map change) =
      word.map f ++ spread sep f cs := by
  have hcons : ∀ (w : List Char) (gs : List Cluster),
      [sep].intercalate ((w :: wordsFrom [] gs).map change) =
        change w ++ [sep] ++ [sep].intercalate ((wordsFrom [] gs).map change) := by
    intro w gs
    rw [List.map_cons, List.intercalate_cons_of_ne_nil (by simp [wordsFrom_ne_nil])]
  induction cs generalizing word with
  | nil => simp [wordsFrom, spread, hchange word hword]
  | cons c rest ih =>
    have hpush := hword.push hcs.head
    rw [wordsFrom_cons hcs, spread]
    by_cases hc : c = '_'
    · rw [if_pos hc, if_pos hc, hcons, hchange word hword, ih hcs.tail .nil]
      simp
    · rw [if_neg hc, if_neg hc]
      by_cases hends : endsAfter c rest = true
      · rw [if_pos hends, if_pos hends, hcons, hchange _ hpush, ih hcs.tail .nil]
        simp
      · rw [if_neg hends, if_neg hends, ih hcs.tail hpush]
        simp

theorem capital_push (hword : IsName word) (hc : isNameChar c = true) :
    capital (word ++ [c]) =
      capital word ++ [if word.isEmpty then c.toUpper else c.toLower] := by
  cases word with
  | nil => exact capital_eq (.single hc)
  | cons d rest =>
    have hpush : IsName (d :: (rest ++ [c])) := hword.push hc
    rw [List.cons_append, capital_eq hpush, capital_eq hword]
    simp

theorem flatten_capital_wordsFrom (hcs : IsName cs) (hword : IsName word) :
    ((wordsFrom word (cs.map ([·]))).map capital).flatten =
      capital word ++ capitalized word.isEmpty cs := by
  induction cs generalizing word with
  | nil => simp [wordsFrom, capitalized]
  | cons c rest ih =>
    have hpush := hword.push hcs.head
    rw [wordsFrom_cons hcs, capitalized]
    by_cases hc : c = '_'
    · rw [if_pos hc, if_pos hc, List.map_cons, List.flatten_cons, ih hcs.tail .nil]
      rfl
    · rw [if_neg hc, if_neg hc]
      by_cases hends : endsAfter c rest = true
      · rw [if_pos hends, hends, List.map_cons, List.flatten_cons, ih hcs.tail .nil,
          capital_push hword hcs.head, List.append_assoc]
        rfl
      · have hfresh : (word ++ [c]).isEmpty = false := by simp
        rw [if_neg hends, ih hcs.tail hpush, capital_push hword hcs.head, List.append_assoc, hfresh,
          Bool.eq_false_of_not_eq_true hends]
        rfl

theorem flatten_camelWords_wordsFrom (hcs : IsName cs) (hword : IsName word) :
    (camelWords (wordsFrom word (cs.map ([·])))).flatten =
      word.map Char.toLower ++ capitalized false cs := by
  induction cs generalizing word with
  | nil => simp [wordsFrom, capitalized, camelWords, lower_eq hword]
  | cons c rest ih =>
    have hpush := hword.push hcs.head
    rw [wordsFrom_cons hcs, capitalized]
    by_cases hc : c = '_'
    · rw [if_pos hc, if_pos hc, camelWords, List.flatten_cons, lower_eq hword,
        flatten_capital_wordsFrom hcs.tail .nil]
      rfl
    · rw [if_neg hc, if_neg hc]
      by_cases hends : endsAfter c rest = true
      · rw [if_pos hends, hends, camelWords, List.flatten_cons, lower_eq hpush,
          flatten_capital_wordsFrom hcs.tail .nil]
        simp [capital]
      · rw [if_neg hends, ih hcs.tail hpush]
        simp [hends]

/-- What each rule makes of a name, in one pass. -/
theorem applyChars_eq (hcs : IsName cs) (r : RenameRule) : r.applyChars cs =
    match r with
    | .lowercase => cs.map Char.toLower
    | .uppercase => cs.map Char.toUpper
    | .camel => capitalized false cs
    | .pascal => capitalized true cs
    | .snake => spread '_' Char.toLower cs
    | .screamingSnake => spread '_' Char.toUpper cs
    | .kebab => spread '-' Char.toLower cs := by
  have hwords : cs ≠ [] → words cs = wordsFrom [] (cs.map ([·])) := by
    intro h
    rw [words, if_neg h, clusters_eq hcs.isPlain]
  have hlower : ∀ w, IsName w → Text.lower w = w.map Char.toLower := fun w => lower_eq
  have hupper : ∀ w, IsName w → Text.upper w = w.map Char.toUpper := fun w => upper_eq
  by_cases h : cs = []
  · subst h
    cases r <;> rfl
  · cases r with
    | lowercase => exact lower_eq hcs
    | uppercase => exact upper_eq hcs
    | camel =>
      rw [applyChars, hwords h, flatten_camelWords_wordsFrom hcs .nil]
      rfl
    | pascal =>
      rw [applyChars, hwords h, flatten_capital_wordsFrom hcs .nil]
      rfl
    | snake =>
      rw [applyChars, hwords h, intercalate_wordsFrom hlower _ hcs .nil]
      rfl
    | screamingSnake =>
      rw [applyChars, hwords h, intercalate_wordsFrom hupper _ hcs .nil]
      rfl
    | kebab =>
      rw [applyChars, hwords h, intercalate_wordsFrom hlower _ hcs .nil]
      rfl

end

end Abridge.Derive.RenameRule

import Abridge.Proofs.Words

/-!
The names of fields under a rule, beside those that a serializer gives them under the same rule. A
serializer goes by underscores alone and leaves the letters of a word as they are, while a rule also
divides words at digits and capitals and sets the case of each letter. The two agree exactly on the
names in which no word is divided, or at least no case depends on it.
-/
namespace Abridge.Derive

open Text

/-! ### Names that a serializer gives -/

/-- Large letters at the beginning and after the underscores, which are dropped. -/
def afterUnderscores (fresh : Bool) : List Char → List Char
  | [] => []
  | c :: rest =>
    if c = '_' then afterUnderscores true rest
    else (if fresh then c.toUpper else c) :: afterUnderscores false rest

def lowerFirst : List Char → List Char
  | [] => []
  | c :: rest => c.toLower :: rest

namespace RenameRule

def serializerChars : RenameRule → List Char → List Char
  | .lowercase, cs => cs
  | .snake, cs => cs
  | .uppercase, cs => cs.map Char.toUpper
  | .screamingSnake, cs => cs.map Char.toUpper
  | .kebab, cs => cs.map fun c => if c = '_' then '-' else c
  | .pascal, cs => afterUnderscores true cs
  | .camel, cs => lowerFirst (afterUnderscores true cs)

/-- The name that a serializer gives to a field under the rule. -/
def serializerName (r : RenameRule) (name : String) : String :=
  String.ofList (r.serializerChars name.toList)

/-! ### Where they agree -/

/-- Does `p` hold of no character and what follows it? -/
def nowhere (p : Char → List Char → Bool) : List Char → Bool
  | [] => true
  | c :: rest => !p c rest && nowhere p rest

theorem nowhere_cons_iff {p : Char → List Char → Bool} {c : Char} {rest : List Char} :
    nowhere p (c :: rest) = true ↔ p c rest = false ∧ nowhere p rest = true := by
  rw [nowhere, Bool.and_eq_true, Bool.not_eq_true']

/-- Does the letter after `c` change its case if all words are capitalized? A small letter after a
digit does, since it begins a word, and so does a capital after another one, unless a small letter
follows it. -/
def recasedAfter (c : Char) : List Char → Bool
  | [] => false
  | d :: after =>
    (c.isDigit && d.isLower) || (c.isUpper && d.isUpper && !after.head?.any Char.isLower)

/-- Is the first character that is no underscore a letter? -/
def startsWithLetter (cs : List Char) : Bool :=
  (cs.dropWhile (· == '_')).head?.any Char.isAlpha

/-- Is the name the same under the rule, whoever applies it? -/
def agrees : RenameRule → List Char → Bool
  | .lowercase, cs => cs.all fun c => !c.isUpper
  | .uppercase, _ => true
  | .snake, cs => nowhere endsAfter cs && cs.all fun c => !c.isUpper
  | .kebab, cs => nowhere endsAfter cs && cs.all fun c => !c.isUpper
  | .screamingSnake, cs => nowhere endsAfter cs
  | .pascal, cs => nowhere recasedAfter cs
  | .camel, cs => nowhere recasedAfter cs && !(cs.head? == some '_' && startsWithLetter cs)

/-! ### Words between separators -/

section

variable {sep : Char} {f g : Char → Char} {cs : List Char}

theorem length_le_spread (sep : Char) (f : Char → Char) (cs : List Char) :
    cs.length ≤ (spread sep f cs).length := by
  induction cs with
  | nil => exact Nat.le_refl _
  | cons c rest ih =>
    rw [spread]
    split
    · exact Nat.succ_le_succ ih
    · rw [List.length_cons, List.length_cons, List.length_append]
      omega

/-- Each end of a word within a name makes it longer. -/
theorem length_lt_spread (sep : Char) (f : Char → Char) (h : nowhere endsAfter cs = false) :
    cs.length < (spread sep f cs).length := by
  induction cs with
  | nil => cases h
  | cons c rest ih =>
    rw [nowhere, Bool.and_eq_false_iff, Bool.not_eq_false'] at h
    have hle := length_le_spread sep f rest
    rw [spread]
    rcases h with hends | hrest
    · have hc : c ≠ '_' := by
        rintro rfl
        cases rest with
        | nil => cases hends
        | cons d after => cases hends
      rw [if_neg hc, if_pos hends, List.length_cons, List.length_cons, List.length_append,
        List.length_singleton]
      omega
    · have hlt := ih hrest
      split
      · exact Nat.succ_lt_succ hlt
      · rw [List.length_cons, List.length_cons, List.length_append]
        omega

theorem spread_of_nowhere (h : nowhere endsAfter cs = true) :
    spread sep f cs = cs.map fun c => if c = '_' then sep else f c := by
  induction cs with
  | nil => rfl
  | cons c rest ih =>
    obtain ⟨hends, hrest⟩ := nowhere_cons_iff.mp h
    rw [spread, List.map_cons, ih hrest, hends]
    split <;> rfl

theorem spread_eq_map_iff : spread sep f cs = cs.map g ↔
    nowhere endsAfter cs = true ∧ ∀ c ∈ cs, (if c = '_' then sep else f c) = g c := by
  constructor
  · intro h
    have hnowhere : nowhere endsAfter cs = true := by
      by_contra hends
      have hlt := length_lt_spread sep f (Bool.eq_false_of_not_eq_true hends)
      rw [h, List.length_map] at hlt
      exact Nat.lt_irrefl _ hlt
    rw [spread_of_nowhere hnowhere] at h
    exact ⟨hnowhere, List.map_inj_left.mp h⟩
  · rintro ⟨hnowhere, hsame⟩
    rw [spread_of_nowhere hnowhere]
    exact List.map_inj_left.mpr hsame

theorem map_toLower_eq_self_iff :
    cs.map Char.toLower = cs ↔ cs.all (fun c => !c.isUpper) = true := by
  have hmap : cs.map Char.toLower = cs ↔ cs.map Char.toLower = cs.map id := by rw [List.map_id]
  rw [hmap, List.map_inj_left]
  simp [toLower_eq_self_iff]

/-- Small words between separators are the name itself, written with these separators. -/
theorem spread_toLower_eq_iff (sep : Char) :
    (spread sep Char.toLower cs = cs.map fun c => if c = '_' then sep else c) ↔
      nowhere endsAfter cs = true ∧ cs.all (fun c => !c.isUpper) = true := by
  rw [spread_eq_map_iff, List.all_eq_true]
  refine and_congr_right fun _ => forall₂_congr fun c _ => ?_
  rw [Bool.not_eq_true', ← toLower_eq_self_iff]
  by_cases hc : c = '_'
  · subst hc
    exact iff_of_true rfl (by decide)
  · rw [if_neg hc, if_neg hc]

end

/-! ### Capitalized words -/

section

variable {b c : Char} {rest cs : List Char}

/-- A small letter changes its case after a digit only. -/
theorem recased_small (hc : c.isLower = true) :
    (if endsAfter b (c :: rest) then c.toUpper else c.toLower) = c ↔
      recasedAfter b (c :: rest) = false := by
  have hlarge := isUpper_eq_false hc
  have hdigit : c.isDigit = false := isDigit_eq_false (by simp [Char.isAlpha, hc])
  have hends : endsAfter b (c :: rest) = b.isDigit := by
    simp [endsAfter, Char.isAlpha, hc, hlarge, hdigit]
  have hrecased : recasedAfter b (c :: rest) = b.isDigit := by simp [recasedAfter, hc, hlarge]
  have hsame : c.toLower = c := toLower_eq_self_iff.mpr hlarge
  have hother : c.toUpper ≠ c := fun h => by simp [toUpper_eq_self_iff.mp h] at hc
  rw [hends, hrecased, hsame]
  cases b.isDigit with
  | true => simp [hother]
  | false => simp

/-- A capital keeps its case where a word ends before it. -/
theorem recased_large (hb : isNameChar b = true) (hne : b ≠ '_') (hc : c.isUpper = true) :
    (if endsAfter b (c :: rest) then c.toUpper else c.toLower) = c ↔
      recasedAfter b (c :: rest) = false := by
  have hsmall := isLower_eq_false hc
  have hdigit : c.isDigit = false := isDigit_eq_false (by simp [Char.isAlpha, hc])
  have hends : endsAfter b (c :: rest) = !recasedAfter b (c :: rest) := by
    have hkind : b.isUpper = true ∨ b.isLower = true ∨ b.isDigit = true := by
      simpa [hne] using isNameChar_iff.mp hb
    rcases hkind with hupper | hlower | hdigits
    · have hlower := isLower_eq_false hupper
      have hdigits : b.isDigit = false := isDigit_eq_false (by simp [Char.isAlpha, hupper])
      simp [endsAfter, recasedAfter, hc, hsmall, hdigit, hupper, hlower, hdigits]
    · have hupper := isUpper_eq_false hlower
      simp [endsAfter, recasedAfter, hc, hsmall, hupper, hlower]
    · have hupper := (isAlpha_eq_false hdigits).1
      simp [endsAfter, recasedAfter, Char.isAlpha, hc, hsmall, hupper, hdigits]
  have hsame : c.toUpper = c := toUpper_eq_self_iff.mpr hsmall
  have hother : c.toLower ≠ c := fun h => by simp [toLower_eq_self_iff.mp h] at hc
  rw [hends, hsame]
  cases recasedAfter b (c :: rest) with
  | true => simp [hother]
  | false => simp

/-- What comes after `b` keeps its case where words are capitalized. -/
theorem recased_head (hb : isNameChar b = true) (hne : b ≠ '_') :
    (if endsAfter b (c :: rest) then c.toUpper else c.toLower) = c ↔
      recasedAfter b (c :: rest) = false := by
  cases hsmall : c.isLower with
  | true => exact recased_small hsmall
  | false =>
    cases hlarge : c.isUpper with
    | true => exact recased_large hb hne hlarge
    | false =>
      have hrecased : recasedAfter b (c :: rest) = false := by simp [recasedAfter, hsmall, hlarge]
      simp [hrecased, toUpper_eq_self_iff.mpr hsmall, toLower_eq_self_iff.mpr hlarge]

theorem capitalized_eq_iff (hcs : IsName cs) :
    (capitalized true cs = afterUnderscores true cs ↔ nowhere recasedAfter cs = true) ∧
    ∀ b, isNameChar b = true → b ≠ '_' →
      (capitalized (endsAfter b cs) cs = afterUnderscores false cs ↔
        nowhere recasedAfter (b :: cs) = true) := by
  induction cs with
  | nil => simp [capitalized, afterUnderscores, nowhere, recasedAfter]
  | cons c rest ih =>
    obtain ⟨hfresh, hafter⟩ := ih hcs.tail
    by_cases hc : c = '_'
    · have hnowhere : nowhere recasedAfter (c :: rest) = nowhere recasedAfter rest := by
        subst hc
        cases rest <;> rfl
      have hskip : ∀ fresh, capitalized fresh (c :: rest) = capitalized true rest ∧
          afterUnderscores fresh (c :: rest) = afterUnderscores true rest :=
        fun _ => ⟨if_pos hc, if_pos hc⟩
      refine ⟨?_, fun b hb hne => ?_⟩
      · rw [(hskip true).1, (hskip true).2, hnowhere]
        exact hfresh
      · have hrecased : recasedAfter b (c :: rest) = false := by
          subst hc
          simp [recasedAfter]
        rw [(hskip _).1, (hskip false).2, nowhere_cons_iff, hnowhere]
        exact hfresh.trans (and_iff_right hrecased).symm
    · have hkeep := hafter c hcs.head hc
      refine ⟨?_, fun b hb hne => ?_⟩
      · rw [capitalized, afterUnderscores, if_neg hc, if_neg hc, List.cons.injEq]
        simpa using hkeep
      · rw [capitalized, afterUnderscores, if_neg hc, if_neg hc, List.cons.injEq, nowhere_cons_iff]
        exact and_congr (recased_head hb hne) hkeep

theorem startsWithLetter_cons (h : c ≠ '_') : startsWithLetter (c :: rest) = c.isAlpha := by
  simp [startsWithLetter, h]

theorem startsWithLetter_underscore : startsWithLetter ('_' :: rest) = startsWithLetter rest := rfl

/-- Behind underscores the first letter is large, and a serializer makes it small again. -/
theorem capitalized_eq_lowerFirst_iff (hcs : IsName cs) :
    capitalized true cs = lowerFirst (afterUnderscores true cs) ↔
      nowhere recasedAfter cs = true ∧ startsWithLetter cs = false := by
  induction cs with
  | nil => simp [capitalized, afterUnderscores, lowerFirst, nowhere, startsWithLetter]
  | cons c rest ih =>
    by_cases hc : c = '_'
    · subst hc
      have hrecased : recasedAfter '_' rest = false := by cases rest <;> rfl
      rw [nowhere_cons_iff, startsWithLetter_underscore, and_assoc]
      exact (ih hcs.tail).trans (and_iff_right hrecased).symm
    · have hhead : c.toUpper = c.toUpper.toLower ↔ c.isAlpha = false := by
        rw [eq_comm, toLower_eq_self_iff, Char.isUpper_toUpper_eq_isAlpha]
      have htail := (capitalized_eq_iff hcs.tail).2 c hcs.head hc
      rw [capitalized, afterUnderscores, if_neg hc, if_neg hc, lowerFirst, List.cons.injEq,
        startsWithLetter_cons hc, and_comm]
      exact and_congr htail hhead

theorem camel_eq_iff (hcs : IsName cs) :
    capitalized false cs = lowerFirst (afterUnderscores true cs) ↔
      agrees .camel cs = true := by
  rw [agrees, Bool.and_eq_true, Bool.not_eq_true']
  cases cs with
  | nil => simp [capitalized, afterUnderscores, lowerFirst, nowhere]
  | cons c rest =>
    by_cases hc : c = '_'
    · subst hc
      have hfresh : capitalized false ('_' :: rest) = capitalized true ('_' :: rest) := rfl
      rw [hfresh, capitalized_eq_lowerFirst_iff hcs]
      simp
    · have htail := (capitalized_eq_iff hcs.tail).2 c hcs.head hc
      rw [capitalized, afterUnderscores, if_neg hc, if_neg hc, lowerFirst, List.cons.injEq]
      simpa [hc] using htail

end

/-! ### Rules and serializers -/

theorem applyChars_eq_serializerChars_iff (r : RenameRule) {cs : List Char} (h : IsName cs) :
    r.applyChars cs = r.serializerChars cs ↔ r.agrees cs = true := by
  rw [applyChars_eq h]
  cases r with
  | lowercase => exact map_toLower_eq_self_iff
  | uppercase => exact iff_of_true rfl rfl
  | camel => exact camel_eq_iff h
  | pascal => exact (capitalized_eq_iff h).1
  | snake =>
    have hself : (cs.map fun c => if c = '_' then '_' else c) = cs := by
      have hchar : ∀ c : Char, (if c = '_' then '_' else c) = c := fun c => by split <;> simp_all
      simp [hchar]
    rw [agrees, Bool.and_eq_true, ← spread_toLower_eq_iff '_', hself]
    rfl
  | screamingSnake =>
    have hunderscore : ∀ c ∈ cs, (if c = '_' then '_' else c.toUpper) = c.toUpper := by
      intro c _
      split
      · subst c
        decide
      · rfl
    exact spread_eq_map_iff.trans (and_iff_left hunderscore)
  | kebab =>
    rw [agrees, Bool.and_eq_true, ← spread_toLower_eq_iff '-']
    rfl

/-- Only small letters and underscores are in it. -/
def IsSmall (cs : List Char) : Prop := ∀ c ∈ cs, c.isLower = true ∨ c = '_'

theorem IsSmall.isName {cs : List Char} (h : IsSmall cs) : IsName cs := by
  intro c hc
  rcases h c hc with hlower | hline
  · exact isNameChar_iff.mpr (Or.inr (Or.inl hlower))
  · exact isNameChar_iff.mpr (Or.inr (Or.inr (Or.inr hline)))

theorem IsSmall.kind {cs : List Char} (h : IsSmall cs) {c : Char} (hc : c ∈ cs) :
    c.isUpper = false ∧ c.isDigit = false := by
  rcases h c hc with hlower | rfl
  · exact ⟨isUpper_eq_false hlower, isDigit_eq_false (by simp [Char.isAlpha, hlower])⟩
  · decide

/-- Nothing is divided in a name in small letters, and no case changes. -/
theorem IsSmall.nowhere {cs : List Char} (h : IsSmall cs) :
    nowhere endsAfter cs = true ∧ nowhere recasedAfter cs = true := by
  induction cs with
  | nil => exact ⟨rfl, rfl⟩
  | cons c rest ih =>
    obtain ⟨hends, hrecased⟩ := ih fun d hd => h d (List.mem_cons_of_mem c hd)
    have hc := h.kind List.mem_cons_self
    rw [nowhere_cons_iff, nowhere_cons_iff]
    cases rest with
    | nil => exact ⟨⟨rfl, hends⟩, rfl, hrecased⟩
    | cons d after =>
      have hd := h.kind (List.mem_cons_of_mem c List.mem_cons_self)
      have hends' : endsAfter c (d :: after) = false := by simp [endsAfter, hc, hd]
      have hrecased' : recasedAfter c (d :: after) = false := by simp [recasedAfter, hc]
      exact ⟨⟨hends', hends⟩, hrecased', hrecased⟩

/-- All rules agree with a serializer on a name in small letters, unless it begins with an
underscore. -/
theorem IsSmall.applyChars_eq {cs : List Char} (h : IsSmall cs) (hhead : cs.head? ≠ some '_')
    (r : RenameRule) : r.applyChars cs = r.serializerChars cs := by
  obtain ⟨hends, hrecased⟩ := h.nowhere
  have hsmall : cs.all (fun c => !c.isUpper) = true :=
    List.all_eq_true.mpr fun c hc => by simp [h.kind hc]
  rw [applyChars_eq_serializerChars_iff r h.isName]
  cases r <;> simp [agrees, hends, hrecased, hsmall, hhead]

/-- A rule gives a name in letters, digits and underscores the name that a serializer gives it,
exactly where nothing is divided or set in another case: under `UPPERCASE` always; under `lowercase`
without capitals; under `snake_case` and `kebab-case` without capitals and ends of words within;
under `SCREAMING_SNAKE_CASE` without ends of words within; under `PascalCase` without small letters
after digits and without capitals after capitals, but for one that a small letter follows; under
`camelCase` moreover without underscores in front of a first letter. -/
theorem apply_eq_serializerName_iff (r : RenameRule) {name : String} (h : IsName name.toList) :
    r.apply name = r.serializerName name ↔ r.agrees name.toList = true := by
  rw [apply, serializerName, String.ofList_inj]
  exact applyChars_eq_serializerChars_iff r h

/-- Under camel case, two words with a digit in the second are joined alike. -/
theorem apply_eq_serializerName_line :
    IsName "address_line2".toList ∧ RenameRule.camel.agrees "address_line2".toList = true ∧
      RenameRule.camel.apply "address_line2" = RenameRule.camel.serializerName "address_line2" := by
  have hname : IsName "address_line2".toList := List.all_eq_true.mp (by decide)
  have hagrees : RenameRule.camel.agrees "address_line2".toList = true := by decide +kernel
  exact ⟨hname, hagrees, (apply_eq_serializerName_iff .camel hname).mpr hagrees⟩

/-- A digit at the end is divided from its word, which a serializer leaves as it is. -/
theorem apply_ne_serializerName_digit :
    IsName "address1".toList ∧ RenameRule.snake.apply "address1" = "address_1" ∧
      RenameRule.snake.serializerName "address1" = "address1" := by
  exact ⟨List.all_eq_true.mp (by decide), by decide +kernel, by decide +kernel⟩

end RenameRule

end Abridge.Derive

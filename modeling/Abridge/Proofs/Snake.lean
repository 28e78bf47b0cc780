import Abridge.Proofs.Conventions

/-!
Names of small words joined by single underscores. On such a name every rule sees exactly these
words: it writes them with other separators or in other letters, or it drops the separators and sets
a capital at the beginning of each word instead.
-/
namespace Abridge.Derive

open Text

/-- Letters, all of them small. -/
def IsWord (w : List Char) : Prop := w ≠ [] ∧ ∀ c ∈ w, c.isLower = true

/-- The name is made of one or more words with single underscores between them. -/
structure Joins (ws : List (List Char)) (name : String) : Prop where
  ne_nil : ws ≠ []
  isWord : ∀ w ∈ ws, IsWord w
  eq : name.toList = ['_'].intercalate ws

def IsSnake (name : String) : Prop := ∃ ws, Joins ws name

/-! ### Words behind one another -/

/-- Each word with a separator in front of it. -/
def behind (sep : Char) (ws : List (List Char)) : List Char := ws.flatMap (sep :: ·)

theorem intercalate_cons (sep : Char) (w : List Char) (ws : List (List Char)) :
    [sep].intercalate (w :: ws) = w ++ behind sep ws := by
  induction ws generalizing w with
  | nil => simp [behind]
  | cons v ws ih =>
    rw [List.intercalate_cons_of_ne_nil (by simp), ih, behind, behind, List.flatMap_cons]
    simp

theorem Joins.exists_cons {ws : List (List Char)} {name : String} (h : Joins ws name) :
    ∃ w rest, ws = w :: rest ∧ IsWord w ∧ (∀ v ∈ rest, IsWord v) ∧
      name.toList = w ++ behind '_' rest := by
  obtain ⟨hne, hwords, heq⟩ := h
  cases ws with
  | nil => exact absurd rfl hne
  | cons w rest =>
    rw [intercalate_cons] at heq
    obtain ⟨hw, hrest⟩ := List.forall_mem_cons.mp hwords
    exact ⟨w, rest, rfl, hw, hrest, heq⟩

section

variable {w : List Char} {ws : List (List Char)}

theorem mem_behind {sep c : Char} (h : c ∈ behind sep ws) : c = sep ∨ ∃ w ∈ ws, c ∈ w := by
  obtain ⟨w, hw, hc⟩ := List.mem_flatMap.mp h
  rcases List.mem_cons.mp hc with rfl | hc
  · exact Or.inl rfl
  · exact Or.inr ⟨w, hw, hc⟩

theorem isSmall_joined (hw : IsWord w) (hws : ∀ v ∈ ws, IsWord v) :
    RenameRule.IsSmall (w ++ behind '_' ws) := by
  intro c hc
  rcases List.mem_append.mp hc with hc | hc
  · exact Or.inl (hw.2 c hc)
  · rcases mem_behind hc with rfl | ⟨v, hv, hc⟩
    · exact Or.inr rfl
    · exact Or.inl ((hws v hv).2 c hc)

theorem IsWord.exists_cons (hw : IsWord w) :
    ∃ c rest, w = c :: rest ∧ c.isLower = true ∧ ∀ d ∈ rest, d.isLower = true := by
  obtain ⟨hne, hsmall⟩ := hw
  obtain ⟨c, rest, rfl⟩ := List.exists_cons_of_ne_nil hne
  exact ⟨c, rest, rfl, List.forall_mem_cons.mp hsmall⟩

theorem IsWord.underscore_not_mem (hw : IsWord w) : '_' ∉ w := fun h =>
  absurd (hw.2 '_' h) (by decide)

theorem IsWord.head_ne (hw : IsWord w) (cs : List Char) : (w ++ cs).head? ≠ some '_' := by
  obtain ⟨c, rest, rfl, hc, _⟩ := hw.exists_cons
  intro h
  obtain rfl : c = '_' := Option.some.inj h
  exact absurd hc (by decide)

/-! ### Capitals in place of separators -/

def capitalFirst : List Char → List Char
  | [] => []
  | c :: w => c.toUpper :: w

theorem afterUnderscores_word (hw : '_' ∉ w) (cs : List Char) :
    afterUnderscores false (w ++ cs) = w ++ afterUnderscores false cs := by
  induction w with
  | nil => rfl
  | cons c w ih =>
    obtain ⟨hc, hw⟩ := not_or.mp (fun h => hw (List.mem_cons.mpr h))
    rw [List.cons_append, afterUnderscores, if_neg (Ne.symm hc), ih hw]
    rfl

theorem afterUnderscores_capitalFirst (hw : IsWord w) (cs : List Char) :
    afterUnderscores true (w ++ cs) = capitalFirst w ++ afterUnderscores false cs := by
  have hline := hw.underscore_not_mem
  obtain ⟨c, rest, rfl, _⟩ := hw.exists_cons
  obtain ⟨hc, hrest⟩ := not_or.mp (fun h => hline (List.mem_cons.mpr h))
  rw [List.cons_append, afterUnderscores, if_neg (Ne.symm hc), afterUnderscores_word hrest]
  rfl

/-- Behind the first word, each word begins with a capital. -/
theorem afterUnderscores_behind (hws : ∀ v ∈ ws, IsWord v) :
    afterUnderscores false (behind '_' ws) = ws.flatMap capitalFirst := by
  induction ws with
  | nil => rfl
  | cons v ws ih =>
    have hunder : behind '_' (v :: ws) = '_' :: (v ++ behind '_' ws) := rfl
    rw [hunder, afterUnderscores, if_pos rfl,
      afterUnderscores_capitalFirst (hws v List.mem_cons_self),
      ih fun u hu => hws u (List.mem_cons_of_mem v hu), List.flatMap_cons]

theorem isUpper_toUpper {c : Char} (hc : c.isLower = true) : c.toUpper.isUpper = true := by
  rw [Char.isUpper_toUpper_eq_isAlpha, Char.isAlpha, hc, Bool.or_true]

theorem toLower_toUpper {c : Char} (hc : c.isLower = true) : c.toUpper.toLower = c := by
  rw [Char.toLower_toUpper_eq_toLower, toLower_eq_self_iff]
  exact isUpper_eq_false hc

theorem lowerFirst_capitalFirst (hw : IsWord w) (cs : List Char) :
    lowerFirst (capitalFirst w ++ cs) = w ++ cs := by
  obtain ⟨c, rest, rfl, hc, _⟩ := hw.exists_cons
  rw [capitalFirst, List.cons_append, lowerFirst, toLower_toUpper hc]
  rfl

/-- Capitals in place of separators leave nothing but letters. -/
theorem isAlpha_of_mem_capitals (hws : ∀ v ∈ ws, IsWord v) {c : Char}
    (hc : c ∈ ws.flatMap capitalFirst) : c.isAlpha = true := by
  obtain ⟨v, hv, hc⟩ := List.mem_flatMap.mp hc
  obtain ⟨d, rest, rfl, hd, hrest⟩ := (hws v hv).exists_cons
  rcases List.mem_cons.mp hc with rfl | hc
  · simp [Char.isAlpha, isUpper_toUpper hd]
  · simp [Char.isAlpha, hrest c hc]

/-! ### Rules -/

theorem mem_map_toUpper {cs : List Char} (h : RenameRule.IsSmall cs) :
    ∀ c ∈ cs.map Char.toUpper, c.isUpper = true ∨ c = '_' := by
  intro c hc
  obtain ⟨d, hd, rfl⟩ := List.mem_map.mp hc
  rcases h d hd with hd | rfl
  · exact Or.inl (isUpper_toUpper hd)
  · exact Or.inr rfl

/-- A dash in place of an underscore. -/
def dashed (c : Char) : Char := if c = '_' then '-' else c

theorem map_dashed_word (hw : IsWord w) : w.map dashed = w := by
  have hsame : ∀ c ∈ w, dashed c = id c := fun c hc =>
    if_neg fun h : c = '_' => hw.underscore_not_mem (h ▸ hc)
  rw [List.map_congr_left hsame, List.map_id]

theorem map_dashed_behind (hws : ∀ v ∈ ws, IsWord v) :
    (behind '_' ws).map dashed = behind '-' ws := by
  rw [behind, List.map_flatMap]
  refine List.flatMap_congr fun v hv => ?_
  rw [List.map_cons, map_dashed_word (hws v hv)]
  rfl

/-- What a rule makes of the first word and those behind it. -/
def RenameRule.written : RenameRule → List Char → List (List Char) → List Char
  | .lowercase, w, ws => w ++ behind '_' ws
  | .snake, w, ws => w ++ behind '_' ws
  | .uppercase, w, ws => (w ++ behind '_' ws).map Char.toUpper
  | .screamingSnake, w, ws => (w ++ behind '_' ws).map Char.toUpper
  | .kebab, w, ws => w ++ behind '-' ws
  | .camel, w, ws => w ++ ws.flatMap capitalFirst
  | .pascal, w, ws => capitalFirst w ++ ws.flatMap capitalFirst

theorem RenameRule.written_kebab (hw : IsWord w) (hws : ∀ v ∈ ws, IsWord v) :
    kebab.written w ws = (w ++ behind '_' ws).map dashed := by
  rw [List.map_append, map_dashed_word hw, map_dashed_behind hws]
  rfl

theorem RenameRule.applyChars_joined (r : RenameRule) (hw : IsWord w) (hws : ∀ v ∈ ws, IsWord v) :
    r.applyChars (w ++ behind '_' ws) = r.written w ws := by
  have hcapitals : afterUnderscores true (w ++ behind '_' ws) =
      capitalFirst w ++ ws.flatMap capitalFirst := by
    rw [afterUnderscores_capitalFirst hw, afterUnderscores_behind hws]
  rw [(isSmall_joined hw hws).applyChars_eq (hw.head_ne _)]
  cases r with
  | lowercase | snake | uppercase | screamingSnake => rfl
  | pascal => exact hcapitals
  | camel => rw [serializerChars, hcapitals, lowerFirst_capitalFirst hw]; rfl
  | kebab => exact (written_kebab hw hws).symm

end

theorem IsSnake.exists_words {name : String} (h : IsSnake name) :
    ∃ w ws, IsWord w ∧ (∀ v ∈ ws, IsWord v) ∧ name.toList = w ++ behind '_' ws ∧
      ∀ r : RenameRule, (r.apply name).toList = r.written w ws := by
  obtain ⟨_, hjoins⟩ := h
  obtain ⟨w, ws, rfl, hw, hws, hname⟩ := hjoins.exists_cons
  refine ⟨w, ws, hw, hws, hname, fun r => ?_⟩
  rw [RenameRule.apply, String.toList_ofList, hname, r.applyChars_joined hw hws]

end Abridge.Derive

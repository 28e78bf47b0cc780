import Abridge.Derive.Rename
import Mathlib

/-!
The mark of a raw identifier in a name. It is no letter, no letter has it for its other case, and it
separates no words, so a rule for renaming neither loses it nor brings it in.
-/
namespace Abridge

namespace Text

/-! ### Cases -/

section

variable {c : Char} {cs : List Char}

theorem ofNat_ne_hash {n : Nat} (h : n ≠ 35) : Char.ofNat n ≠ '#' := by
  intro he
  rw [Char.ofNat] at he
  split at he
  · exact h (congrArg Char.toNat he)
  · exact absurd he (by decide)

/-- Runs that end up above the mark do not meet it. -/
theorem shiftBy?_ne {n : Nat} : ∀ {runs : List CaseRange},
    runs.all (fun r => decide (35 < r.first + r.delta)) = true → shiftBy? n runs ≠ some 35
  | [], _ => by simp [shiftBy?]
  | r :: rest, h => by
    rw [List.all_cons, Bool.and_eq_true, decide_eq_true_eq] at h
    rw [shiftBy?]
    split
    · rename_i hn
      rw [ne_eq, Option.some_inj]
      omega
    · exact shiftBy?_ne h.2

theorem hash_not_mem_otherCase {specials : List (Nat × List Nat)} {runs : List CaseRange}
    (hs : specials.all (fun p => !p.2.contains 35) = true)
    (hr : runs.all (fun r => decide (35 < r.first + r.delta)) = true) (hc : c ≠ '#') :
    '#' ∉ otherCase specials runs c := by
  rw [otherCase]
  split
  · rename_i ns hns
    have hmem : (c.toNat, ns) ∈ specials := by
      obtain ⟨front, back, heq, _⟩ := List.lookup_eq_some_iff.mp hns
      simp [heq]
    have h35 : 35 ∉ ns := by simpa using List.all_eq_true.mp hs _ hmem
    intro h
    obtain ⟨n, hn, he⟩ := List.mem_map.mp h
    exact ofNat_ne_hash (fun h => h35 (h ▸ hn)) he
  · split
    · rename_i n hn
      rw [List.mem_singleton]
      exact fun he => ofNat_ne_hash (fun h => shiftBy?_ne hr (h ▸ hn)) he.symm
    · simpa using hc.symm

theorem upperSpecials_avoid : upperSpecials.all (fun p => !p.2.contains 35) = true := by
  decide +kernel

theorem upperRanges_avoid : upperRanges.all (fun r => decide (35 < r.first + r.delta)) = true := by
  decide +kernel

theorem lowerSpecials_avoid : lowerSpecials.all (fun p => !p.2.contains 35) = true := by
  decide +kernel

theorem lowerRanges_avoid : lowerRanges.all (fun r => decide (35 < r.first + r.delta)) = true := by
  decide +kernel

theorem recased_eq_hash : ∀ n < 128, ((Char.ofNat n).toUpper = '#' ↔ Char.ofNat n = '#') ∧
    ((Char.ofNat n).toLower = '#' ↔ Char.ofNat n = '#') := by
  decide

theorem hash_mem_upperChar_iff : '#' ∈ upperChar c ↔ c = '#' := by
  rw [upperChar]
  split
  · rename_i hc
    have h := (recased_eq_hash c.toNat hc).1
    rw [Char.ofNat_toNat] at h
    rw [List.mem_singleton, eq_comm, h]
  · rename_i hc
    have hne : c ≠ '#' := by
      rintro rfl
      exact hc (by decide)
    exact iff_of_false (hash_not_mem_otherCase upperSpecials_avoid upperRanges_avoid hne) hne

theorem hash_mem_lowerChar_iff : '#' ∈ lowerChar c ↔ c = '#' := by
  rw [lowerChar]
  split
  · rename_i hc
    have h := (recased_eq_hash c.toNat hc).2
    rw [Char.ofNat_toNat] at h
    rw [List.mem_singleton, eq_comm, h]
  · rename_i hc
    have hne : c ≠ '#' := by
      rintro rfl
      exact hc (by decide)
    exact iff_of_false (hash_not_mem_otherCase lowerSpecials_avoid lowerRanges_avoid hne) hne

theorem hash_mem_upper_iff : '#' ∈ upper cs ↔ '#' ∈ cs := by
  simp [upper, hash_mem_upperChar_iff]

theorem hash_mem_lowerFrom_iff {before : List Char} :
    '#' ∈ lowerFrom before cs ↔ '#' ∈ cs := by
  induction cs generalizing before with
  | nil => rfl
  | cons c rest ih =>
    rw [lowerFrom, List.mem_append, ih, List.mem_cons]
    have hfront : '#' ∈ (if c = 'Σ' then
        (if meetsLetter before && !meetsLetter rest then ['ς'] else ['σ']) else lowerChar c) ↔
        '#' = c := by
      split
      · rename_i hc
        subst hc
        split <;> decide
      · rw [hash_mem_lowerChar_iff, eq_comm]
    rw [hfront]

theorem hash_mem_lower_iff : '#' ∈ lower cs ↔ '#' ∈ cs := hash_mem_lowerFrom_iff

theorem hash_mem_capital_iff : '#' ∈ capital cs ↔ '#' ∈ cs := by
  cases cs with
  | nil => rfl
  | cons c rest =>
    rw [capital, List.mem_append, hash_mem_upperChar_iff, hash_mem_lower_iff, List.mem_cons,
      eq_comm]

end

/-! ### Clusters -/

theorem flatten_clustersFrom (t : Tail) (g cs : List Char) :
    (clustersFrom t g cs).flatten = g.reverse ++ cs := by
  induction cs generalizing t g with
  | nil => simp [clustersFrom]
  | cons c rest ih =>
    rw [clustersFrom]
    split
    · rw [ih]
      simp
    · rw [List.flatten_cons, ih]
      simp

/-- Nothing of a text is lost between its clusters. -/
theorem flatten_clusters (cs : List Char) : (clusters cs).flatten = cs := by
  cases cs with
  | nil => rfl
  | cons c rest => exact flatten_clustersFrom _ _ _

end Text

/-! ### Rules -/

namespace Derive.RenameRule

open Text

theorem hash_mem_wordsFrom_iff {word : List Char} {gs : List Cluster} :
    '#' ∈ (wordsFrom word gs).flatten ↔ '#' ∈ word ∨ '#' ∈ gs.flatten := by
  fun_induction wordsFrom word gs with
  | case1 => simp
  | case2 word g rest hsep ih =>
    have hg : '#' ∉ g := by
      rw [isSeparator] at hsep
      rintro hg
      rcases (by simpa [or_assoc] using hsep : g = ['_'] ∨ g = ['-'] ∨ g = [' ']) with
        rfl | rfl | rfl <;> simp at hg
    simp [ih, hg]
  | case3 => simp
  | case4 => simp_all
  | case5 => simp_all [or_assoc]

theorem hash_mem_words_iff {cs : List Char} : (∃ w ∈ words cs, '#' ∈ w) ↔ '#' ∈ cs := by
  rw [← List.mem_flatten, words]
  split
  · rename_i h
    subst h
    rfl
  · rw [hash_mem_wordsFrom_iff, flatten_clusters]
    simp

/-- What is done to each word keeps the mark where it is. -/
theorem hash_mem_map_iff {change : List Char → List Char} (h : ∀ w, '#' ∈ change w ↔ '#' ∈ w)
    {ws : List (List Char)} : (∃ u ∈ ws.map change, '#' ∈ u) ↔ ∃ w ∈ ws, '#' ∈ w := by
  constructor
  · rintro ⟨u, hu, hhash⟩
    obtain ⟨w, hw, rfl⟩ := List.mem_map.mp hu
    exact ⟨w, hw, (h w).mp hhash⟩
  · rintro ⟨w, hw, hhash⟩
    exact ⟨change w, List.mem_map_of_mem hw, (h w).mpr hhash⟩

theorem hash_mem_intercalate_iff {sep : Char} (hsep : sep ≠ '#') : ∀ {ws : List (List Char)},
    '#' ∈ [sep].intercalate ws ↔ ∃ w ∈ ws, '#' ∈ w
  | [] => by simp
  | [w] => by simp
  | w :: u :: rest => by
    have ih : '#' ∈ [sep].intercalate (u :: rest) ↔ ∃ w ∈ u :: rest, '#' ∈ w :=
      hash_mem_intercalate_iff hsep
    rw [List.intercalate_cons_of_ne_nil (by simp), List.mem_append, List.mem_append, ih]
    simp [hsep.symm]

/-- A name has the mark under a rule exactly if it has it at all. -/
theorem hash_mem_applyChars_iff {r : RenameRule} {cs : List Char} :
    '#' ∈ r.applyChars cs ↔ '#' ∈ cs := by
  have hlower : ∀ w, '#' ∈ lower w ↔ '#' ∈ w := fun _ => hash_mem_lower_iff
  have hupper : ∀ w, '#' ∈ upper w ↔ '#' ∈ w := fun _ => hash_mem_upper_iff
  have hcapital : ∀ w, '#' ∈ capital w ↔ '#' ∈ w := fun _ => hash_mem_capital_iff
  have hwords : (∃ w ∈ words cs, '#' ∈ w) ↔ '#' ∈ cs := hash_mem_words_iff
  cases r with
  | lowercase => exact hlower cs
  | uppercase => exact hupper cs
  | camel =>
    rw [applyChars, List.mem_flatten, ← hwords]
    cases words cs with
    | nil => rfl
    | cons w ws =>
      simp only [camelWords, List.mem_cons, exists_eq_or_imp, hlower]
      rw [hash_mem_map_iff hcapital]
  | pascal => rw [applyChars, List.mem_flatten, hash_mem_map_iff hcapital, hwords]
  | snake => rw [applyChars, hash_mem_intercalate_iff (by decide), hash_mem_map_iff hlower, hwords]
  | screamingSnake =>
    rw [applyChars, hash_mem_intercalate_iff (by decide), hash_mem_map_iff hupper, hwords]
  | kebab => rw [applyChars, hash_mem_intercalate_iff (by decide), hash_mem_map_iff hlower, hwords]

end Derive.RenameRule

end Abridge

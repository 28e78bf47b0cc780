import Abridge.Proofs.Bytes
import Abridge.Text.Limit

/-!
What a limit makes of a text. The limit counts characters and the cut is made at a byte, and since
the byte is the first one of a character, the two agree: what is kept of a text that is too long are
the bytes of as many characters as the limit allows, with the ellipsis behind them. Such a text is
cut to itself, so that a limit makes no difference where it has been applied before.
-/
namespace Abridge.Text

variable {limit : Int} {s : String}

/-- Neither a limit that is none nor a short text leads to a cut. -/
theorem exceeds_eq_false_iff : exceeds limit s = false ↔ limit ≤ 0 ∨ s.length ≤ limit := by
  rw [← Bool.not_eq_true, exceeds_iff]
  omega

/-! ### Bytes of a cut -/

theorem length_bytes (s : String) : (bytes s).length = s.utf8ByteSize := rfl

theorem bytes_append (s t : String) : bytes (s ++ t) = bytes s ++ bytes t := by
  rw [bytes_eq_flatMap, bytes_eq_flatMap, bytes_eq_flatMap, String.toList_append,
    List.flatMap_append]

/-- The byte of the cut comes behind those of the characters that the limit has room for. -/
theorem cutOffset?_eq_some_iff {n : Nat} : cutOffset? limit s = some n ↔
    0 < limit ∧ limit < s.length ∧
      (bytes (String.ofList (s.toList.take limit.toNat))).length = n := by
  have hlong : limit.toNat < s.length ∧ 0 < limit ↔ 0 < limit ∧ limit < s.length := by omega
  rw [cutOffset?_eq, length_bytes]
  split
  · rename_i h
    rw [Option.some_inj, ← and_assoc, and_iff_right (hlong.mp h.symm)]
  · rename_i h
    refine iff_of_false (by simp) fun hn => h (hlong.mpr ⟨hn.1, hn.2.1⟩).symm

/-- The bytes in front of the cut are those of the characters that the limit has room for. -/
theorem take_bytes {n : Nat} (h : cutOffset? limit s = some n) :
    (bytes s).take n = bytes (String.ofList (s.toList.take limit.toNat)) := by
  obtain ⟨_, _, rfl⟩ := cutOffset?_eq_some_iff.mp h
  have hsplit : bytes s = bytes (String.ofList (s.toList.take limit.toNat)) ++
      bytes (String.ofList (s.toList.drop limit.toNat)) := by
    rw [← bytes_append, ← String.ofList_append, List.take_append_drop, String.ofList_toList]
  rw [hsplit]
  exact List.take_left

/-! ### The law -/

theorem length_limited_le (h : 0 < limit) : (limited limit s).length ≤ limit + 3 := by
  cases he : exceeds limit s with
  | false =>
    rw [limited_of_not_exceeds he]
    have hshort := exceeds_eq_false_iff.mp he
    omega
  | true =>
    have hlong := exceeds_iff.mp he
    have hmark : ellipsis.length = 3 := rfl
    rw [limited_of_exceeds he, String.length_ofList, List.length_append, List.length_take, hmark]
    omega

/-- A text within the limit stays as it is, and so does every text if the limit is zero or less. Any
other one is cut at a byte that is a boundary of characters, behind as many of them as the limit
allows, and has the ellipsis put behind them. So a text that was cut is cut to itself, and is at
most three characters longer than the limit. -/
theorem limited_law (limit : Int) (s : String) :
    limited limit s = (if limit ≤ 0 ∨ s.length ≤ limit then s
      else String.ofList (s.toList.take limit.toNat) ++ "...") ∧
    ((cutOffset? limit s).isSome ↔ ¬ (limit ≤ 0 ∨ s.length ≤ limit)) ∧
    (∀ n, cutOffset? limit s = some n → String.Pos.Raw.IsValid s ⟨n⟩ ∧
      (bytes s).take n = bytes (String.ofList (s.toList.take limit.toNat))) ∧
    limited limit (limited limit s) = limited limit s ∧
    (0 < limit → (limited limit s).length ≤ limit + 3) := by
  have hcut : limited limit s = if limit ≤ 0 ∨ s.length ≤ limit then s
      else String.ofList (s.toList.take limit.toNat) ++ "..." := by
    split
    · rename_i hshort
      exact limited_of_not_exceeds (exceeds_eq_false_iff.mpr hshort)
    · rename_i hlong
      have he : exceeds limit s = true := by
        rw [← Bool.not_eq_false, exceeds_eq_false_iff]
        exact hlong
      rw [limited_of_exceeds he, String.ofList_append]
      rfl
  have hoffset : (cutOffset? limit s).isSome ↔ ¬ (limit ≤ 0 ∨ s.length ≤ limit) := by
    rw [← exceeds_eq_false_iff, Bool.not_eq_false]
    rfl
  exact ⟨hcut, hoffset, fun n hn => ⟨isValid_of_cutOffset? hn, take_bytes hn⟩,
    limited_limited limit s, length_limited_le⟩

/-- Three characters of three bytes each are left of a text in another script. -/
theorem limited_law_script : cutOffset? 3 "日本語テキスト" = some 9 ∧
    String.Pos.Raw.IsValid "日本語テキスト" ⟨9⟩ ∧ limited 3 "日本語テキスト" = "日本語..." ∧
    (limited 3 "日本語テキスト").length ≤ (3 : Int) + 3 := by
  obtain ⟨hcut, _, hbyte, _, hlength⟩ := limited_law 3 "日本語テキスト"
  have hoffset : cutOffset? 3 "日本語テキスト" = some 9 := by decide
  exact ⟨hoffset, (hbyte 9 hoffset).1, hcut.trans (by decide), hlength (by decide)⟩

end Abridge.Text

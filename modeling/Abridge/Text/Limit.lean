/-!
Texts of bounded length. A limit counts characters, not bytes; what it cuts off is replaced by an
ellipsis, and a limit of zero or less is no limit. The cut is made at a byte, the first one of the
character for which there is no room.
-/
namespace Abridge.Text

/-- What stands for the part of a text that was cut off. -/
def ellipsis : List Char := ['.', '.', '.']

/-! ### Where a text is cut -/

/-- The number of the first byte of each character; `n` bytes come before all of them. -/
def offsets (n : Nat) : List Char → List Nat
  | [] => []
  | c :: cs => n :: offsets (n + c.utf8Size) cs

/-- The byte at which the text is cut, if it is longer than the limit allows. -/
def cutOffset? (limit : Int) (s : String) : Option Nat :=
  if limit ≤ 0 then none else (offsets 0 s.toList)[limit.toNat]?

theorem utf8ByteSize_ofList_cons (c : Char) (cs : List Char) :
    (String.ofList (c :: cs)).utf8ByteSize = c.utf8Size + (String.ofList cs).utf8ByteSize := by
  rw [← List.singleton_append, String.ofList_append, String.utf8ByteSize_append,
    ← String.singleton_eq_ofList, String.utf8ByteSize_singleton]

/-- A character is found behind all bytes of those in front of it. -/
theorem offsets_getElem? (n i : Nat) (cs : List Char) :
    (offsets n cs)[i]? =
      if i < cs.length then some (n + (String.ofList (cs.take i)).utf8ByteSize) else none := by
  induction cs generalizing n i with
  | nil => rfl
  | cons c cs ih =>
    cases i with
    | zero => simp [offsets]
    | succ i =>
      rw [offsets, List.getElem?_cons_succ, ih, List.take_succ_cons, utf8ByteSize_ofList_cons,
        Nat.add_assoc]
      simp

theorem cutOffset?_eq (limit : Int) (s : String) : cutOffset? limit s =
    if 0 < limit ∧ limit.toNat < s.length then
      some (String.ofList (s.toList.take limit.toNat)).utf8ByteSize
    else none := by
  rw [cutOffset?, offsets_getElem?, String.length_toList, Nat.zero_add]
  by_cases hl : limit ≤ 0
  · rw [if_pos hl, if_neg (by omega)]
  · rw [if_neg hl]
    simp [Int.not_le.mp hl]

/-- The byte of the cut never lies within a character. -/
theorem isValid_of_cutOffset? {limit : Int} {s : String} {n : Nat}
    (h : cutOffset? limit s = some n) : String.Pos.Raw.IsValid s ⟨n⟩ := by
  rw [cutOffset?_eq] at h
  split at h
  · exact String.Pos.Raw.isValid_iff_exists_take_toList.mpr ⟨_, (Option.some.inj h).symm⟩
  · cases h

/-! ### Cutting -/

/-- Is the text longer than the limit allows? -/
def exceeds (limit : Int) (s : String) : Bool := (cutOffset? limit s).isSome

/-- The text, cut to the limit. -/
def limited (limit : Int) (s : String) : String :=
  match h : cutOffset? limit s with
  | none => s
  | some n => (s.sliceTo (s.pos ⟨n⟩ (isValid_of_cutOffset? h))).copy ++ String.ofList ellipsis

theorem exceeds_iff {limit : Int} {s : String} :
    exceeds limit s = true ↔ 0 < limit ∧ limit.toNat < s.length := by
  rw [exceeds, cutOffset?_eq]
  split <;> simp [*]

theorem limited_of_not_exceeds {limit : Int} {s : String} (h : exceeds limit s = false) :
    limited limit s = s := by
  rw [exceeds, Option.isSome_eq_false_iff, Option.isNone_iff_eq_none] at h
  rw [limited]
  split
  · rfl
  · rename_i n hn
    rw [h] at hn
    cases hn

/-- The characters in front of the byte of the cut are as many as the limit allows. -/
theorem limited_of_exceeds {limit : Int} {s : String} (h : exceeds limit s = true) :
    limited limit s = String.ofList (s.toList.take limit.toNat ++ ellipsis) := by
  have hcut : cutOffset? limit s =
      some (String.ofList (s.toList.take limit.toNat)).utf8ByteSize := by
    rw [cutOffset?_eq, if_pos (exceeds_iff.mp h)]
  rw [limited]
  split
  · rename_i hnone
    rw [hcut] at hnone
    cases hnone
  · rename_i n hn
    obtain rfl := Option.some.inj (hcut.symm.trans hn)
    have hsplits : (s.pos _ (isValid_of_cutOffset? hn)).Splits
        (String.ofList (s.toList.take limit.toNat)) (String.ofList (s.toList.drop limit.toNat)) :=
      { eq_append := by rw [← String.ofList_append, List.take_append_drop, String.ofList_toList]
        offset_eq_rawEndPos := rfl }
    rw [hsplits.copy_sliceTo_eq, String.ofList_append]

/-! ### Cutting by characters -/

/-- The first `n` characters and the ellipsis, or the whole text if it has no more than `n`. -/
def cut (n : Nat) (cs : List Char) : List Char :=
  if n < cs.length then cs.take n ++ ellipsis else cs

theorem cut_of_length_le {n : Nat} {cs : List Char} (h : cs.length ≤ n) : cut n cs = cs := by
  simp [cut, Nat.not_lt.mpr h]

theorem limited_eq_cut {limit : Int} (h : 0 < limit) (s : String) :
    limited limit s = String.ofList (cut limit.toNat s.toList) := by
  rw [cut, String.length_toList]
  split
  · rename_i hlong
    exact limited_of_exceeds (exceeds_iff.mpr ⟨h, hlong⟩)
  · rename_i hshort
    rw [String.ofList_toList]
    exact limited_of_not_exceeds (eq_false_of_ne_true fun hlong =>
      hshort (exceeds_iff.mp hlong).2)

/-- The first `n` characters and the ellipsis are cut to themselves. -/
theorem cut_cut (n : Nat) (cs : List Char) : cut n (cut n cs) = cut n cs := by
  by_cases h : n < cs.length
  · have hcut : cut n cs = cs.take n ++ ellipsis := if_pos h
    have hlen : (cs.take n).length = n := List.length_take_of_le (Nat.le_of_lt h)
    have hlong : n < (cs.take n ++ ellipsis).length := by
      rw [List.length_append, hlen]
      exact Nat.lt_add_of_pos_right (by decide)
    rw [hcut, cut, if_pos hlong, List.take_left' hlen]
  · rw [cut_of_length_le (Nat.le_of_not_lt h), cut_of_length_le (Nat.le_of_not_lt h)]

theorem limited_limited (limit : Int) (s : String) :
    limited limit (limited limit s) = limited limit s := by
  by_cases h : 0 < limit
  · rw [limited_eq_cut h, limited_eq_cut h, String.toList_ofList, cut_cut]
  · have hnot : exceeds limit (limited limit s) = false :=
      eq_false_of_ne_true fun he => h (exceeds_iff.mp he).1
    exact limited_of_not_exceeds hnot

end Abridge.Text

import Abridge.Proofs.Entries

/-!
Texts as bytes. The order of texts is that of their characters, and it is also the order of their
bytes in UTF-8: the first byte of a character tells how many others follow it, and is larger if more
do, and the bits of its number come with the highest ones in front.
-/
namespace Abridge.Text

/-- The bytes of a text in UTF-8. -/
def bytes (s : String) : List UInt8 := s.toByteArray.data.toList

/-! ### One character -/

/-- The last `k` bytes of a character: six bits of its number each, the highest ones in front. -/
def trail : Nat → Nat → List UInt8
  | 0, _ => []
  | k + 1, v => trail k (v / 64) ++ [UInt8.ofNat (v % 64 + 128)]

/-- What these bytes leave of the number. -/
def front : Nat → Nat → Nat
  | 0, v => v
  | k + 1, v => front k (v / 64)

/-- How many bytes follow the first one. -/
def trailing (v : Nat) : Nat :=
  if v ≤ 0x7f then 0 else if v ≤ 0x7ff then 1 else if v ≤ 0xffff then 2 else 3

/-- The mark of a first byte that so many others follow. -/
def leadMark : Nat → Nat
  | 0 => 0
  | 1 => 0xc0
  | 2 => 0xe0
  | _ => 0xf0

/-- The first byte: what the others leave of the number, under the mark. -/
def lead (v : Nat) : Nat := front (trailing v) v + leadMark (trailing v)

theorem toNat_lt (c : Char) : c.toNat < 0x110000 := by
  rcases c.valid with h | ⟨_, h⟩
  · exact Nat.lt_trans h (by decide)
  · exact h

theorem utf8EncodeChar_eq (c : Char) : String.utf8EncodeChar c =
    UInt8.ofNat (lead c.toNat) :: trail (trailing c.toNat) c.toNat := by
  have hc := toNat_lt c
  have hv : c.val.toNat = c.toNat := rfl
  rw [String.utf8EncodeChar, lead, trailing]
  simp only [hv]
  split
  · simp [trail, front, leadMark]
  · split
    · have h : c.toNat / 64 < 32 := by omega
      simp [trail, front, leadMark, Nat.mod_eq_of_lt h]
    · split
      · have h : c.toNat / 4096 < 16 := by omega
        simp [trail, front, leadMark, Nat.div_div_eq_div_mul, Nat.mod_eq_of_lt h]
      · have h : c.toNat / 262144 < 8 := by omega
        simp [trail, front, leadMark, Nat.div_div_eq_div_mul, Nat.mod_eq_of_lt h]

/-! ### Two characters -/

theorem ofNat_cons_lt {m n : Nat} (h : m < n) (hn : n < 256) (r s : List UInt8) :
    UInt8.ofNat m :: r < UInt8.ofNat n :: s := by
  refine List.cons_lt_cons_iff.mpr (Or.inl ?_)
  rw [UInt8.lt_iff_toNat_lt, UInt8.toNat_ofNat', UInt8.toNat_ofNat']
  omega

/-- Numbers that agree but for their last bits come in the order of these. -/
theorem trail_lt {k m n : Nat} (h : m < n) (hk : front k m = front k n) (r s : List UInt8) :
    trail k m ++ r < trail k n ++ s := by
  induction k generalizing m n r s with
  | zero => exact absurd hk (Nat.ne_of_lt h)
  | succ k ih =>
    rw [trail, trail, List.append_assoc, List.append_assoc]
    by_cases hq : m / 64 < n / 64
    · exact ih hq hk _ _
    · have heq : m / 64 = n / 64 := by omega
      rw [heq]
      refine List.append_left_lt (ofNat_cons_lt ?_ ?_ r s)
      · omega
      · omega

theorem front_mono {k m n : Nat} (h : m ≤ n) : front k m ≤ front k n := by
  induction k generalizing m n with
  | zero => exact h
  | succ k ih => exact ih (Nat.div_le_div_right h)

theorem trailing_mono {m n : Nat} (h : m < n) : trailing m ≤ trailing n := by
  rw [trailing, trailing]
  split <;> split <;> (repeat' split) <;> omega

theorem lead_lt_of_trailing_lt {m n : Nat} (h : trailing m < trailing n) : lead m < lead n := by
  revert h
  rw [lead, lead, trailing, trailing]
  split <;> split <;> (repeat' split) <;> simp only [front, leadMark] <;> omega

theorem lead_lt_byte {n : Nat} (h : n < 0x110000) : lead n < 256 := by
  rw [lead, trailing]
  (repeat' split) <;> simp only [front, leadMark] <;> omega

/-- Two characters come in the order of their bytes, whatever follows them. -/
theorem utf8EncodeChar_append_lt {c d : Char} (h : c < d) (r s : List UInt8) :
    String.utf8EncodeChar c ++ r < String.utf8EncodeChar d ++ s := by
  have hd := lead_lt_byte (toNat_lt d)
  have hlt : c.toNat < d.toNat := h
  rw [utf8EncodeChar_eq, utf8EncodeChar_eq, List.cons_append, List.cons_append]
  rcases Nat.lt_or_eq_of_le (trailing_mono hlt) with hmore | hsame
  · exact ofNat_cons_lt (lead_lt_of_trailing_lt hmore) hd _ _
  · have hle : front (trailing d.toNat) c.toNat ≤ front (trailing d.toNat) d.toNat :=
      front_mono (Nat.le_of_lt hlt)
    rcases Nat.lt_or_eq_of_le hle with hfront | hfront
    · have hlead : lead c.toNat < lead d.toNat := by
        rw [lead, lead, hsame]
        exact Nat.add_lt_add_right hfront _
      exact ofNat_cons_lt hlead hd _ _
    · have hlead : lead c.toNat = lead d.toNat := by rw [lead, lead, hsame, hfront]
      rw [hlead, hsame]
      exact List.cons_lt_cons_iff.mpr (Or.inr ⟨rfl, trail_lt hlt hfront _ _⟩)

/-! ### Texts -/

theorem bytes_eq_flatMap (s : String) : bytes s = s.toList.flatMap String.utf8EncodeChar := by
  conv => lhs; rw [bytes, ← String.ofList_toList (s := s)]
  simp [String.ofList, List.utf8Encode]

theorem flatMap_utf8EncodeChar_lt {cs ds : List Char} (h : cs < ds) :
    cs.flatMap String.utf8EncodeChar < ds.flatMap String.utf8EncodeChar := by
  induction h with
  | @nil d ds =>
    rw [List.flatMap_cons, utf8EncodeChar_eq]
    exact List.nil_lt_cons _ _
  | rel h => exact utf8EncodeChar_append_lt h _ _
  | cons _ ih => exact List.append_left_lt ih

/-- Texts come in the order of their bytes. -/
theorem bytes_lt {s t : String} (h : s < t) : bytes s < bytes t := by
  rw [bytes_eq_flatMap, bytes_eq_flatMap]
  exact flatMap_utf8EncodeChar_lt h

end Abridge.Text

namespace Abridge.Entries

/-- Entries in order stand in the order of the bytes of their keys. -/
theorem Ordered.bytes {α : Type} {es : Entries α} (h : Ordered es) :
    es.Pairwise fun a b => Text.bytes a.1 < Text.bytes b.1 :=
  h.imp Text.bytes_lt

end Abridge.Entries

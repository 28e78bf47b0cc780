import Abridge.Binary64
import Mathlib.Tactic.Ring

/-!
Whole numbers among the floating point numbers. Below `2 ^ 53` each of them has a number of its own,
and these stand in their order. Counting with them is exact: nothing changes when nothing is added,
the smaller one of two is found, and one can be taken away.
-/
namespace Abridge.Binary64

/-! ### The fields of the bits -/

theorem exponent_eq (x : Binary64) : x.exponent = x.bits.toNat / 2 ^ 52 % 2 ^ 11 := by
  rw [exponent, UInt64.toNat_and, UInt64.toNat_shiftRight]
  change (x.bits.toNat >>> (52 % 64)) &&& (2 ^ 11 - 1) = _
  rw [Nat.and_two_pow_sub_one_eq_mod, Nat.shiftRight_eq_div_pow]

theorem fraction_eq (x : Binary64) : x.fraction = x.bits.toNat % 2 ^ 52 := by
  rw [fraction, UInt64.toNat_and]
  change x.bits.toNat &&& (2 ^ 52 - 1) = _
  rw [Nat.and_two_pow_sub_one_eq_mod]

theorem units_of_isZero {x : Binary64} (hx : x.isZero = true) : x.units = 0 := by
  simp only [isZero, Bool.and_eq_true, beq_iff_eq] at hx
  rw [units, mantissa, if_pos hx.1, hx.2, Nat.zero_mul]

theorem isNaN_of_isZero {x : Binary64} (hx : x.isZero = true) : x.isNaN = false := by
  simp only [isZero, Bool.and_eq_true, beq_iff_eq] at hx
  simp [isNaN, hx.1]

theorem isZero_zero : zero.isZero = true := by decide

theorem isZero_times {x : Binary64} (hx : x.isZero = true) (y : Binary64) :
    (x.times y).isZero = true := by
  simp only [isZero, Bool.and_eq_true, beq_iff_eq] at hx
  have hmantissa : x.mantissa = 0 := by rw [mantissa, if_pos hx.1, hx.2]
  have hofSign : ∀ s, (ofSign s 0).isZero = true := by decide
  rw [times, hmantissa, Nat.zero_mul, Nat.zero_mul, ofRatio, if_pos rfl]
  exact hofSign _

theorem eq_of_toNat_bits {x y : Binary64} (h : x.bits.toNat = y.bits.toNat) : x = y := by
  cases x
  cases y
  exact congrArg mk (UInt64.toNat_inj.mp h)

/-! ### The bits of a whole number -/

theorem hiddenBit_eq : hiddenBit = 2 ^ 52 := rfl

theorem twoTo_natCast (k : Nat) : twoTo k = 2 ^ k := rfl

theorem twoTo_neg (k : Nat) : twoTo (-k) = 1 := by
  rw [twoTo, Int.toNat_neg_natCast]

theorem roundHalfEven_mul (n : Nat) {d : Nat} (hd : 0 < d) : roundHalfEven (n * d) d = n := by
  simp [roundHalfEven, Nat.mul_div_cancel n hd, hd]

theorem floorLog2_mul {n : Nat} (hn : n ≠ 0) (k : Nat) :
    floorLog2 (n * 2 ^ k) (2 ^ k) = n.log2 := by
  have hlog : (n * 2 ^ k).log2 = n.log2 + k := by
    refine (Nat.log2_eq_iff (Nat.mul_ne_zero hn (Nat.two_pow_pos k).ne')).mpr ⟨?_, ?_⟩
    · rw [pow_add]
      exact Nat.mul_le_mul_right _ (Nat.log2_self_le hn)
    · rw [show n.log2 + k + 1 = n.log2 + 1 + k by ring, pow_add]
      exact Nat.mul_lt_mul_of_pos_right Nat.lt_log2_self (Nat.two_pow_pos _)
  have hle : 2 ^ k * 2 ^ n.log2 ≤ n * 2 ^ k := by
    rw [Nat.mul_comm]
    exact Nat.mul_le_mul_right _ (Nat.log2_self_le hn)
  rw [floorLog2, hlog, Nat.log2_two_pow]
  simp only [Nat.cast_add, Int.add_sub_cancel, twoTo_natCast, twoTo_neg, Nat.mul_one]
  exact if_pos hle

/-- The significant bits of a whole number, the first of them in the place of the hidden bit. -/
def lead (n : Nat) : Nat := n * 2 ^ (52 - n.log2)

theorem log2_le_of_lt {n : Nat} (hn : n ≠ 0) (h : n < 2 ^ 53) : n.log2 ≤ 52 :=
  Nat.le_of_lt_succ ((Nat.log2_lt hn).mpr h)

theorem le_lead {n : Nat} (hn : n ≠ 0) (h : n < 2 ^ 53) : 2 ^ 52 ≤ lead n := by
  have hlog := log2_le_of_lt hn h
  calc 2 ^ 52 = 2 ^ n.log2 * 2 ^ (52 - n.log2) := by rw [← pow_add]; congr 1; omega
    _ ≤ lead n := Nat.mul_le_mul_right _ (Nat.log2_self_le hn)

theorem lead_lt {n : Nat} (hn : n ≠ 0) (h : n < 2 ^ 53) : lead n < 2 ^ 53 := by
  have hlog := log2_le_of_lt hn h
  calc lead n < 2 ^ (n.log2 + 1) * 2 ^ (52 - n.log2) :=
        Nat.mul_lt_mul_of_pos_right Nat.lt_log2_self (Nat.two_pow_pos _)
    _ = 2 ^ 53 := by rw [← pow_add]; congr 1; omega

/-- A whole number is found whatever the unit is that it is counted in. -/
theorem toNat_bits_ofRatio {n : Nat} (hn : n ≠ 0) (h : n < 2 ^ 53) (k : Nat) :
    (ofRatio false (n * twoTo k) (twoTo k)).bits.toNat = (n.log2 + 1022) * 2 ^ 52 + lead n := by
  have hlog := log2_le_of_lt hn h
  have hlead := lead_lt hn h
  have hq : max ((n.log2 : Int) - 52) (-1074) = -((52 - n.log2 : Nat) : Int) := by omega
  have hexp : (-((52 - n.log2 : Nat) : Int) + 1074).toNat = n.log2 + 1022 := by omega
  have hm : roundHalfEven (n * 2 ^ k * 2 ^ (52 - n.log2)) (2 ^ k) = lead n := by
    rw [Nat.mul_right_comm]
    exact roundHalfEven_mul _ (Nat.two_pow_pos k)
  have hbits : (n.log2 + 1022) * 2 ^ 52 + lead n < 2047 * 2 ^ 52 := by omega
  have hpos : n * 2 ^ k ≠ 0 := Nat.mul_ne_zero hn (Nat.two_pow_pos k).ne'
  rw [twoTo_natCast, ofRatio, if_neg hpos, floorLog2_mul hn]
  simp only [hq, Int.neg_neg, twoTo_natCast, twoTo_neg, Nat.mul_one, hm, hexp, hiddenBit_eq]
  rw [if_neg (Nat.not_le.mpr hbits), ofSign, if_neg Bool.false_ne_true, UInt64.toNat_ofNat']
  exact Nat.mod_eq_of_lt (by omega)

theorem toNat_bits_ofNat {n : Nat} (hn : n ≠ 0) (h : n < 2 ^ 53) :
    (ofNat n).bits.toNat = (n.log2 + 1022) * 2 ^ 52 + lead n := by
  have hbits := toNat_bits_ofRatio hn h 0
  rwa [twoTo_natCast, Nat.pow_zero, Nat.mul_one] at hbits

theorem ofNat_zero : ofNat 0 = zero := rfl

theorem exponent_ofNat {n : Nat} (hn : n ≠ 0) (h : n < 2 ^ 53) :
    (ofNat n).exponent = n.log2 + 1023 := by
  have hlog := log2_le_of_lt hn h
  have hle := le_lead hn h
  have hlt := lead_lt hn h
  rw [exponent_eq, toNat_bits_ofNat hn h]
  omega

theorem fraction_ofNat {n : Nat} (hn : n ≠ 0) (h : n < 2 ^ 53) :
    (ofNat n).fraction = lead n - 2 ^ 52 := by
  have hle := le_lead hn h
  have hlt := lead_lt hn h
  rw [fraction_eq, toNat_bits_ofNat hn h]
  omega

theorem isNaN_ofNat {n : Nat} (h : n < 2 ^ 53) : (ofNat n).isNaN = false := by
  by_cases hn : n = 0
  · subst hn
    rfl
  · have hlog := log2_le_of_lt hn h
    have hexp : (ofNat n).exponent ≠ 2047 := by
      rw [exponent_ofNat hn h]
      omega
    simp [isNaN, hexp]

theorem units_ofNat {n : Nat} (h : n < 2 ^ 53) : (ofNat n).units = n * twoTo 1074 := by
  by_cases hn : n = 0
  · subst hn
    rw [Nat.zero_mul]
    exact units_of_isZero rfl
  · have hlog := log2_le_of_lt hn h
    have hle := le_lead hn h
    have hexp : (ofNat n).exponent ≠ 0 := by
      rw [exponent_ofNat hn h]
      omega
    have hmantissa : (ofNat n).mantissa = lead n := by
      rw [mantissa, if_neg hexp, fraction_ofNat hn h, hiddenBit_eq]
      omega
    have hscale : (ofNat n).scale + 1074 = ((n.log2 + 1022 : Nat) : Int) := by
      rw [scale, if_neg hexp, exponent_ofNat hn h]
      omega
    have hunit : 2 ^ (52 - n.log2) * 2 ^ (n.log2 + 1022) = twoTo 1074 := by
      rw [← pow_add, ← twoTo_natCast, show 52 - n.log2 + (n.log2 + 1022) = 1074 by omega]
      rfl
    rw [units, hmantissa, hscale, twoTo_natCast, lead, Nat.mul_assoc, hunit]

/-! ### Order -/

theorem toNat_bits_lt {m n : Nat} (hmn : m < n) (h : n < 2 ^ 53) :
    (ofNat m).bits.toNat < (ofNat n).bits.toNat := by
  have hn : n ≠ 0 := by omega
  have hle := le_lead hn h
  rw [toNat_bits_ofNat hn h]
  by_cases hm : m = 0
  · subst hm
    rw [ofNat_zero, zero]
    exact Nat.lt_of_lt_of_le (by decide) (Nat.le_trans hle (Nat.le_add_left ..))
  · have hm' : m < 2 ^ 53 := Nat.lt_trans hmn h
    have hlt := lead_lt hm hm'
    rw [toNat_bits_ofNat hm hm']
    have hlog : m.log2 ≤ n.log2 :=
      (Nat.le_log2 hn).mpr (Nat.le_trans (Nat.log2_self_le hm) hmn.le)
    rcases hlog.lt_or_eq with hlog | hlog
    · omega
    · -- equally long numbers have their first bit in one place
      have hlead : lead m < lead n := by
        rw [lead, lead, hlog]
        exact Nat.mul_lt_mul_of_pos_right hmn (Nat.two_pow_pos _)
      omega

theorem belowPositive_ofNat {m n : Nat} (hm : m < 2 ^ 53) (hn : n < 2 ^ 53) :
    (ofNat m).belowPositive (ofNat n) = decide (m < n) := by
  rw [belowPositive, decide_eq_decide, UInt64.lt_iff_toNat_lt]
  constructor
  · intro h
    by_contra hle
    rcases Nat.lt_or_eq_of_le (Nat.not_lt.mp hle) with hlt | heq
    · exact Nat.lt_asymm h (toNat_bits_lt hlt hm)
    · exact Nat.lt_irrefl _ (heq ▸ h)
  · exact fun h => toNat_bits_lt h hn

theorem least_ofNat {m n : Nat} (hmn : m ≤ n) (hn : n < 2 ^ 53) :
    (ofNat m).least (ofNat n) = ofNat m := by
  have hm : m < 2 ^ 53 := Nat.lt_of_le_of_lt hmn hn
  have hnot : ¬ n < m := Nat.not_lt.mpr hmn
  rw [least, isNaN_ofNat hm, if_neg Bool.false_ne_true, belowPositive_ofNat hn hm]
  simp [hnot]

/-! ### Counting -/

theorem ofUnits_mul {n : Nat} (h : n < 2 ^ 53) : ofUnits (n * twoTo 1074) = ofNat n := by
  by_cases hn : n = 0
  · subst hn
    rw [Nat.zero_mul, ofUnits, ofNat, ofRatio, ofRatio, if_pos rfl, if_pos rfl]
  · refine eq_of_toNat_bits ?_
    rw [toNat_bits_ofNat hn h]
    exact toNat_bits_ofRatio hn h 1074

theorem plus_of_isZero {n : Nat} (h : n < 2 ^ 53) {x : Binary64} (hx : x.isZero = true) :
    (ofNat n).plus x = ofNat n := by
  rw [plus, isNaN_ofNat h, isNaN_of_isZero hx, Bool.or_self, if_neg Bool.false_ne_true,
    units_of_isZero hx, units_ofNat h, Nat.add_zero, ofUnits_mul h]

theorem minus_ofNat {m n : Nat} (hm : m < 2 ^ 53) (hn : n < 2 ^ 53) :
    (ofNat m).minus (ofNat n) = ofNat (m - n) := by
  rw [minus, units_ofNat hm, units_ofNat hn, ← Nat.sub_mul,
    ofUnits_mul (Nat.lt_of_le_of_lt (Nat.sub_le m n) hm)]

end Abridge.Binary64

/-!
Binary floating point numbers of 64 bits, held as their bits. Every question about them is answered
in whole-number arithmetic: what kind of number the bits stand for, which real it is, whether two
are equal, and which one is nearest to a given ratio.
-/
namespace Abridge

/-- A 64-bit binary floating point number, as its sign, exponent and fraction bits. -/
structure Binary64 where
  bits : UInt64
  deriving DecidableEq

namespace Binary64

def nan : Binary64 := ⟨0x7ff8000000000000⟩

def infinity : Binary64 := ⟨0x7ff0000000000000⟩

def zero : Binary64 := ⟨0⟩

/-- The eleven exponent bits. -/
def exponent (x : Binary64) : Nat := ((x.bits >>> 52) &&& 0x7ff).toNat

/-- The 52 fraction bits. -/
def fraction (x : Binary64) : Nat := (x.bits &&& 0xfffffffffffff).toNat

def isNegative (x : Binary64) : Bool := x.bits >>> 63 == 1

def isNaN (x : Binary64) : Bool := x.exponent == 2047 && x.fraction != 0

def isInfinite (x : Binary64) : Bool := x.exponent == 2047 && x.fraction == 0

def isFinite (x : Binary64) : Bool := x.exponent != 2047

def isZero (x : Binary64) : Bool := x.exponent == 0 && x.fraction == 0

/-- The bit in front of the fraction, which is not written. -/
def hiddenBit : Nat := 0x10000000000000

/-- The size of a finite number is `mantissa * 2 ^ scale`. -/
def mantissa (x : Binary64) : Nat :=
  if x.exponent = 0 then x.fraction else hiddenBit + x.fraction

def scale (x : Binary64) : Int :=
  if x.exponent = 0 then -1074 else (x.exponent : Int) - 1075

/-- Numeric equality: the two zeros are equal, and a NaN equals nothing. -/
def same (x y : Binary64) : Bool :=
  !x.isNaN && !y.isNaN && (x == y || (x.isZero && y.isZero))

/-- Above zero; no NaN is. -/
def isPositive (x : Binary64) : Bool := !x.isNegative && !x.isNaN && !x.isZero

/-- Order of two numbers that are neither negative nor NaN is the order of their bits. -/
def belowPositive (x y : Binary64) : Bool := x.bits < y.bits

def ofSign (negative : Bool) (size : UInt64) : Binary64 :=
  if negative then ⟨size ||| 0x8000000000000000⟩ else ⟨size⟩

/-! ### The nearest number to a ratio -/

/-- `2 ^ k`; one if `k` is negative. -/
def twoTo (k : Int) : Nat := Nat.pow 2 k.toNat

/-- `10 ^ k`; one if `k` is negative. -/
def tenTo (k : Int) : Nat := Nat.pow 10 k.toNat

/-- `n / d` rounded to a whole number; half way goes to the even neighbour. -/
def roundHalfEven (n d : Nat) : Nat :=
  let q := n / d
  let r := n % d
  if 2 * r < d then q else if d < 2 * r then q + 1 else q + q % 2

/-- The largest `e` with `2 ^ e * d ≤ n`, for positive `n` and `d`. -/
def floorLog2 (n d : Nat) : Int :=
  let e : Int := (n.log2 : Int) - d.log2
  if d * twoTo e ≤ n * twoTo (-e) then e else e - 1

/-- The number nearest to `n / d`, ties to the even one; too large a ratio gives infinity. The
rounded mantissa is added to the exponent bits, so that a carry out of it raises the exponent. -/
def ofRatio (negative : Bool) (n d : Nat) : Binary64 :=
  if n = 0 then ofSign negative 0
  else
    let q : Int := max (floorLog2 n d - 52) (-1074)
    let m := roundHalfEven (n * twoTo (-q)) (d * twoTo q)
    let bits := (q + 1074).toNat * hiddenBit + m
    ofSign negative (if 2047 * hiddenBit ≤ bits then infinity.bits else UInt64.ofNat bits)

def ofInt (z : Int) : Binary64 := ofRatio (decide (z < 0)) z.natAbs 1

/-- The number nearest to `digits * 10 ^ exp`. -/
def ofDecimal (negative : Bool) (digits : Nat) (exp : Int) : Binary64 :=
  ofRatio negative (digits * tenTo exp) (tenTo (-exp))

/-! ### Products and quotients

Of finite numbers; each result is the number nearest to the exact one.
-/

def times (x y : Binary64) : Binary64 :=
  let e := x.scale + y.scale
  ofRatio (x.isNegative != y.isNegative) (x.mantissa * y.mantissa * twoTo e) (twoTo (-e))

/-- The divisor is not zero. -/
def dividedBy (x y : Binary64) : Binary64 :=
  let e := x.scale - y.scale
  ofRatio (x.isNegative != y.isNegative) (x.mantissa * twoTo e) (y.mantissa * twoTo (-e))

/-! ### Sums and differences

Of numbers that are not negative. Each of them is a whole number of units, so that the exact result
is one too. Infinity counts as the power of two above all finite numbers, which is rounded to
infinity again.
-/

/-- Size in units of the smallest positive number. -/
def units (x : Binary64) : Nat := x.mantissa * twoTo (x.scale + 1074)

/-- The number nearest to so many units. -/
def ofUnits (n : Nat) : Binary64 := ofRatio false n (twoTo 1074)

def plus (x y : Binary64) : Binary64 :=
  if x.isNaN || y.isNaN then nan else ofUnits (x.units + y.units)

/-- What is taken away is finite and not the larger one. -/
def minus (x y : Binary64) : Binary64 := ofUnits (x.units - y.units)

/-- The smaller of two numbers that are not negative; a number rather than NaN. -/
def least (x y : Binary64) : Binary64 :=
  if x.isNaN then y else if y.belowPositive x then y else x

def ofNat (n : Nat) : Binary64 := ofRatio false n 1

/-- Widening of a 32-bit number, which loses nothing. -/
def ofBinary32 (bits : UInt32) : Binary64 :=
  let negative := bits >>> 31 == 1
  let e := ((bits >>> 23) &&& 0xff).toNat
  let f := (bits &&& 0x7fffff).toNat
  if e = 255 then
    if f = 0 then ofSign negative infinity.bits else nan
  else if e = 0 then ofRatio negative f (twoTo 149)
  else ofRatio negative ((0x800000 + f) * twoTo ((e : Int) - 150)) (twoTo (150 - (e : Int)))

end Binary64

end Abridge

import Abridge.Binary64

/-!
The shortest decimal that reads back as a given number. The reals that round to a number form an
interval around it; among the decimals in that interval those with the fewest digits are taken, of
these the nearest to the number, and a tie goes by the rule of the format.
-/
namespace Abridge.Binary64

/-- Where an exact tie between two decimals of the same length goes. -/
inductive Tie where | toEven | up
  deriving DecidableEq

/-- The decimal `digits * 10 ^ exp`. -/
structure Decimal where
  digits : Nat
  exp : Int
  deriving DecidableEq

/-- The order of `a * 10 ^ i` and `n * 2 ^ j`, exactly. -/
def compareScaled (a : Nat) (i : Int) (n : Nat) (j : Int) : Ordering :=
  compare (a * tenTo i * twoTo (-j)) (n * twoTo j * tenTo (-i))

/-- Below a power of two the neighbour is half as far away as above it. -/
def narrowBelow (x : Binary64) : Bool := x.fraction == 0 && 1 < x.exponent

/-- The decimal lies among the reals that round to `x`; the ends belong to it when the mantissa is
even. -/
def readsBack (x : Binary64) (d : Decimal) : Bool :=
  let low := if x.narrowBelow then 4 * x.mantissa - 1 else 4 * x.mantissa - 2
  let closed := x.mantissa % 2 == 0
  let below := compareScaled d.digits d.exp low (x.scale - 2)
  let above := compareScaled d.digits d.exp (4 * x.mantissa + 2) (x.scale - 2)
  (below == .gt || (closed && below == .eq)) && (above == .lt || (closed && above == .eq))

/-- The number of digits before the point of a number from one up; for a smaller one, minus the
number of zeros that follow the point. No number is below `10 ^ -400`. -/
def magnitude (x : Binary64) : Int :=
  let whole := x.mantissa * twoTo x.scale * tenTo 400 / twoTo (-x.scale)
  ((Nat.toDigits 10 whole).length : Int) - 400

/-- The largest multiple of `10 ^ e` that is at most the number, counted in that unit. -/
def floorAt (x : Binary64) (e : Int) : Nat :=
  x.mantissa * twoTo x.scale * tenTo (-e) / (twoTo (-x.scale) * tenTo e)

/-- The better of the two neighbours of the number among the multiples of `10 ^ e`, if one reads
back. -/
def nearestAt? (tie : Tie) (x : Binary64) (e : Int) : Option Decimal :=
  let a := x.floorAt e
  match x.readsBack ⟨a, e⟩, x.readsBack ⟨a + 1, e⟩ with
  | false, false => none
  | true, false => some ⟨a, e⟩
  | false, true => some ⟨a + 1, e⟩
  | true, true =>
    match compareScaled (2 * a + 1) e (2 * x.mantissa) x.scale with
    | .gt => some ⟨a, e⟩
    | .lt => some ⟨a + 1, e⟩
    | .eq => if tie = .toEven ∧ a % 2 = 0 then some ⟨a, e⟩ else some ⟨a + 1, e⟩

/-- Zeros at the end of the digits move into the exponent. -/
def Decimal.strip (fuel : Nat) (d : Decimal) : Decimal :=
  match fuel with
  | 0 => d
  | n + 1 => if d.digits % 10 = 0 then Decimal.strip n ⟨d.digits / 10, d.exp + 1⟩ else d

/-- The exact value, which always reads back. -/
def exact (x : Binary64) : Decimal :=
  ⟨x.mantissa * twoTo x.scale * Nat.pow 5 (-x.scale).toNat, min x.scale 0⟩

/-- The shortest decimal of a finite number other than zero: grids of one, two, up to seventeen
digits are tried in turn. -/
def shortest (tie : Tie) (x : Binary64) : Decimal :=
  let k := x.magnitude
  let found := (List.range 17).findSome? fun n => nearestAt? tie x (k - (n + 1 : Nat))
  Decimal.strip 20 (found.getD x.exact)

end Abridge.Binary64

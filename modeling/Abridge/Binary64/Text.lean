import Abridge.Binary64.Shortest

/-!
How a number is written: the shortest digits that read back, with or without an exponent. Three
formats are in use, and each is one record of its decisions.
-/
namespace Abridge.Binary64

/-- The decisions of a format. Exponents of the leading digit from `positionalFrom` up to, but not
including, `positionalBelow` are written without an exponent; a missing bound is no bound. -/
structure Format where
  positionalFrom : Option Int
  positionalBelow : Option Int
  /-- A whole number keeps `.0` when it is written without an exponent. -/
  pointZero : Bool
  /-- A positive exponent has its sign. -/
  exponentPlus : Bool
  tie : Tie

/-- Numbers of a JSON text. -/
def Format.json : Format := ⟨some (-5), some 16, true, true, .toEven⟩

/-- Numbers for people: never an exponent. -/
def Format.plain : Format := ⟨none, none, false, false, .up⟩

/-- Numbers in a description of a value. -/
def Format.inspect : Format := ⟨some (-4), some 16, true, false, .up⟩

/-- Is a leading digit of exponent `e` written without an exponent? -/
def Format.positional (f : Format) (e : Int) : Bool :=
  (f.positionalFrom.all fun a => decide (a ≤ e)) && f.positionalBelow.all fun b => decide (e < b)

/-- The digits with the point in its place: behind, inside or before them. -/
def layPositional (f : Format) (ds : List Char) (exp : Int) : List Char :=
  if 0 ≤ exp then
    ds ++ List.replicate exp.toNat '0' ++ if f.pointZero then ['.', '0'] else []
  else if (-exp).toNat < ds.length then
    ds.take (ds.length - (-exp).toNat) ++ '.' :: ds.drop (ds.length - (-exp).toNat)
  else '0' :: '.' :: List.replicate ((-exp).toNat - ds.length) '0' ++ ds

/-- One digit, the point, the others, and the exponent of the leading digit. -/
def layExponent (f : Format) (ds : List Char) (e : Int) : List Char :=
  ds.take 1 ++ (if ds.length = 1 then [] else '.' :: ds.drop 1) ++ ['e'] ++
    (if e < 0 then ['-'] else if f.exponentPlus then ['+'] else []) ++ Nat.toDigits 10 e.natAbs

/-- A finite number without its sign. -/
def sizeText (f : Format) (x : Binary64) : List Char :=
  if x.isZero then layPositional f ['0'] 0
  else
    let d := x.shortest f.tie
    let ds := Nat.toDigits 10 d.digits
    let e := d.exp + ds.length - 1
    if f.positional e then layPositional f ds d.exp else layExponent f ds e

/-- A sign is written for negative zero too, and never for a NaN. -/
def text (f : Format) (x : Binary64) : List Char :=
  if x.isNaN then ['N', 'a', 'N']
  else
    (if x.isNegative then ['-'] else []) ++
      if x.isInfinite then ['i', 'n', 'f'] else sizeText f x

end Abridge.Binary64

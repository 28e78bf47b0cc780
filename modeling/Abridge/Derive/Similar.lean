/-!
Similarity of names, for suggestions. Two characters match if they are equal and not too far apart;
the score weighs how many match and how many of them stand in another order, and a common beginning
raises it.
-/
namespace Abridge.Derive

/-- The first free place from `low` on and before `high` that holds `c`, in the row of characters
with their marks; `i` is the place of the first one. -/
def claim (c : Char) (low high i : Nat) : List (Char × Bool) → Option (List (Char × Bool))
  | [] => none
  | (d, taken) :: rest =>
    if low ≤ i ∧ i < high ∧ c = d ∧ taken = false then some ((d, true) :: rest)
    else (claim c low high (i + 1) rest).map ((d, taken) :: ·)

/-- The characters of the first name that find a match, and the second name with the matches
marked; `i` is the place of the first character. -/
def matchFrom (range i : Nat) (row : List (Char × Bool)) :
    List Char → List Char × List (Char × Bool)
  | [] => ([], row)
  | c :: rest =>
    match claim c (i - range) (i + range + 1) 0 row with
    | some row' => let (ms, out) := matchFrom range (i + 1) row' rest; (c :: ms, out)
    | none => matchFrom range (i + 1) row rest

/-- Share of matches in both names and of matches in order, equally weighed. -/
def jaro (a b : List Char) : Float :=
  if a = [] ∧ b = [] then 1.0
  else
    let range := max a.length b.length / 2 - 1
    let (ms, row) := matchFrom range 0 (b.map fun c => (c, false)) a
    let ns := (row.filter Prod.snd).map Prod.fst
    let swapped := ((ms.zip ns).filter fun (x, y) => x ≠ y).length / 2
    if ms = [] then 0.0
    else
      let m := Float.ofNat ms.length
      (m / Float.ofNat a.length + m / Float.ofNat b.length +
        Float.ofNat (ms.length - swapped) / m) / 3.0

/-- The number of equal characters in front, four at most. -/
def commonStart (a b : List Char) : Nat :=
  (((a.take 4).zip b).takeWhile fun (x, y) => x = y).length

/-- A score from zero to one. -/
def similarity (a b : String) : Float :=
  let s := jaro a.toList b.toList
  if 0.7 < s then s + 0.1 * Float.ofNat (commonStart a.toList b.toList) * (1.0 - s) else s

/-- The most similar of the known names, if one is similar enough; of equally similar ones the
first. -/
def suggestion? (name : String) (known : List String) : Option String :=
  let better (best : Option (Float × String)) (k : String) : Option (Float × String) :=
    let s := similarity name k
    if 0.8 < s ∧ (best.all fun b => decide (b.1 < s)) then some (s, k) else best
  (known.foldl better none).map Prod.snd

end Abridge.Derive

import Abridge.Tree

/-!
Where a tree stands in another. Only the maps above it are counted, so a level of the tree is what
the trimmer spends a level of depth on.
-/
namespace Abridge

/-- A tree that holds no other. -/
def Tree.isLeaf : Tree → Bool
  | .seq _ => false
  | .map _ => false
  | _ => true

/-- `Below t n s`: the tree `s` is `t` or stands in it, with `n` maps above. -/
inductive Below : Tree → Nat → Tree → Prop
  | here {t} : Below t 0 t
  | item {t ts n s} : t ∈ ts → Below t n s → Below (.seq ts) n s
  | entry {k t es n s} : (k, t) ∈ es → Below t n s → Below (.map es) (n + 1) s

theorem Below.of_leaf {t s : Tree} {n : Nat} (ht : t.isLeaf = true) (h : Below t n s) :
    n = 0 ∧ s = t := by
  cases h with
  | here => exact ⟨rfl, rfl⟩
  | item | entry => cases ht

/-- A tree in a sequence stands in one of its items. -/
theorem Below.of_seq {ts : List Tree} {n : Nat} {s : Tree} (h : Below (.seq ts) n s)
    (hs : s ≠ .seq ts) : ∃ t ∈ ts, Below t n s := by
  cases h with
  | here => exact absurd rfl hs
  | item ht h => exact ⟨_, ht, h⟩

/-- A tree in a map is the map, or stands in one of its entries with a map less above it. -/
theorem Below.of_map {es : List (String × Tree)} {n : Nat} {s : Tree} (h : Below (.map es) n s) :
    (n = 0 ∧ s = .map es) ∨ ∃ w ∈ es, ∃ m, n = m + 1 ∧ Below w.2 m s := by
  cases h with
  | here => exact Or.inl ⟨rfl, rfl⟩
  | entry hw h => exact Or.inr ⟨_, hw, _, rfl, h⟩

end Abridge

import Abridge.Proofs.Below
import Abridge.Proofs.Log

/-!
The order of trees by what they tell. A tree tells less than another if it is the other with items
cut off the ends of sequences and keys left out of maps, at any depth; leaves are the same. What
containers do with what they see of a value keeps this order: whether a field is null does not
depend on how much is told, and one that has content keeps some when more is told.
-/
namespace Abridge

mutual

/-- `t.Le u`: the tree `u` tells all that `t` tells. -/
inductive Tree.Le : Tree → Tree → Prop
  | leaf {t} : t.isLeaf = true → Tree.Le t t
  | seq {ts us} : ItemsLe ts us → Tree.Le (.seq ts) (.seq us)
  | map {es fs} : (∀ k, FoundLe (Entries.find? k es) (Entries.find? k fs)) →
    Tree.Le (.map es) (.map fs)

/-- Item by item, up to where the first list ends. -/
inductive ItemsLe : List Tree → List Tree → Prop
  | nil {us} : ItemsLe [] us
  | cons {t u ts us} : Tree.Le t u → ItemsLe ts us → ItemsLe (t :: ts) (u :: us)

/-- What a key is bound to: if it is bound in the first place, it is in the second, to no less. -/
inductive FoundLe : Option Tree → Option Tree → Prop
  | none {u} : FoundLe none u
  | some {t u} : Tree.Le t u → FoundLe (some t) (some u)

end

/-- The keys of the first are keys of the second, bound to no less. -/
def EntriesLe (es fs : Entries Tree) : Prop :=
  ∀ k, FoundLe (Entries.find? k es) (Entries.find? k fs)

/-! ### Items and entries -/

theorem ItemsLe.eq_nil {ts : List Tree} (h : ItemsLe ts []) : ts = [] := by
  cases h
  rfl

theorem EntriesLe.nil (fs : Entries Tree) : EntriesLe [] fs := fun _ => .none

theorem EntriesLe.eq_nil {es : Entries Tree} (h : EntriesLe es []) : es = [] := by
  cases es with
  | nil => rfl
  | cons w es =>
    have hw : Entries.find? w.1 (w :: es) = some w.2 := if_pos rfl
    have hle := h w.1
    rw [hw] at hle
    cases hle

theorem EntriesLe.insert {es fs : Entries Tree} (h : EntriesLe es fs) (k : String) {t u : Tree}
    (htu : t.Le u) : EntriesLe (Entries.insert k t es) (Entries.insert k u fs) := by
  intro j
  by_cases hj : j = k
  · rw [hj, Entries.find?_insert_self, Entries.find?_insert_self]
    exact .some htu
  · rw [Entries.find?_insert_of_ne hj, Entries.find?_insert_of_ne hj]
    exact h j

/-- More may be bound to keys that are free in the first. -/
theorem EntriesLe.insert_right {es fs : Entries Tree} (h : EntriesLe es fs) {k : String}
    (hk : Entries.find? k es = none) (u : Tree) : EntriesLe es (Entries.insert k u fs) := by
  intro j
  by_cases hj : j = k
  · rw [hj, hk]
    exact .none
  · rw [Entries.find?_insert_of_ne hj]
    exact h j

theorem EntriesLe.play_right {es : Entries Tree} : ∀ {log : List (String × Tree)}
    {fs : Entries Tree}, EntriesLe es fs → (∀ w ∈ log, Entries.find? w.1 es = none) →
      EntriesLe es (Entries.play fs log)
  | [], _, h, _ => h
  | w :: _, _, h, hlog =>
    (h.insert_right (hlog w List.mem_cons_self) w.2).play_right fun u hu =>
      hlog u (List.mem_cons_of_mem _ hu)

/-! ### What is seen -/

/-- The same sight, with no less in it. -/
inductive Seen.Le : Seen → Seen → Prop
  | nothing : Le .nothing .nothing
  | leaf {t} : t.isLeaf = true → Le (.leaf t) (.leaf t)
  | table {es fs} : EntriesLe es fs → Le (.table es) (.table fs)
  | list {n ts us} : ItemsLe ts us → Le (.list n ts) (.list n us)
  | boxed {t u} : t.Le u → Le (.boxed t) (.boxed u)

theorem Tree.Le.isNull_eq {t u : Tree} (h : t.Le u) : t.isNull = u.isNull := by
  cases h <;> rfl

namespace Seen.Le

theorem tree {s r : Seen} (h : s.Le r) : s.tree.Le r.tree := by
  cases h with
  | nothing => exact .leaf rfl
  | leaf ht => exact .leaf ht
  | table hes => exact .map hes
  | list hts => exact .seq hts
  | boxed htu => exact htu

/-- A field tells no less if it sees no less, as long as its keys are free. -/
theorem asField {s r : Seen} (h : s.Le r) {name : String} {es fs : Entries Tree}
    (hle : EntriesLe es fs) (hfree : ∀ w ∈ r.fieldWrites name, Entries.find? w.1 es = none) :
    EntriesLe (s.asField name es) (r.asField name fs) := by
  have hskip : EntriesLe es (r.asField name fs) := by
    rw [Seen.asField_eq_play]
    exact hle.play_right hfree
  cases h with
  | nothing => exact hle
  | leaf ht => exact hle.insert name (.leaf ht)
  | @table as bs hab =>
    rw [Seen.asField]
    split
    · exact hskip
    · rename_i has
      have hbs : bs.isEmpty = false := by
        cases bs with
        | nil => exact absurd (by rw [hab.eq_nil]; rfl) has
        | cons => rfl
      rw [Seen.asField, hbs]
      exact hle.insert name (.map hab)
  | @list n ts us htu =>
    rw [Seen.asField]
    split
    · exact hskip
    · rename_i hts
      have hus : us.isEmpty = false := by
        cases us with
        | nil => exact absurd (by rw [htu.eq_nil]; rfl) hts
        | cons => rfl
      rw [Seen.asField, hus]
      exact (hle.insert name (.seq htu)).insert _ (.leaf rfl)
  | boxed htu =>
    rw [Seen.asField, Seen.asField, htu.isNull_eq]
    split
    · exact hle
    · exact hle.insert name htu

theorem asEntry {s r : Seen} (h : s.Le r) (key : String) {es fs : Entries Tree}
    (hle : EntriesLe es fs) : EntriesLe (s.asEntry key es) (r.asEntry key fs) := by
  have htree := hle.insert key h.tree
  cases h with
  | nothing => exact hle
  | _ => exact htree

/-- An item is kept or dropped however much is told, so that no other item changes its place. -/
theorem asItem {s r : Seen} (h : s.Le r) {ts us : List Tree} (hle : ItemsLe ts us) :
    ItemsLe (s.asItem ++ ts) (r.asItem ++ us) := by
  have htree := ItemsLe.cons h.tree hle
  cases h with
  | nothing | list => exact hle
  | _ => exact htree

end Seen.Le

end Abridge

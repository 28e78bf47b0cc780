import Mathlib
import Abridge.Value.Standard

/-!
Keys of common types. Each type has an order in which its keys come, and no two keys of one type
have the same text. A map with keys of such a type shows each text once.
-/
namespace Abridge

/-- The keys stand in one order, and their texts tell them apart. -/
class LawfulMapKey (κ : Type) [MapKey κ] : Prop where
  irrefl : ∀ a : κ, ¬ MapKey.before a a
  trans : ∀ a b c : κ, MapKey.before a b → MapKey.before b c → MapKey.before a c
  eq_of_not_before : ∀ a b : κ, ¬ MapKey.before a b → ¬ MapKey.before b a → a = b
  text_injective : Function.Injective (MapKey.text : κ → String)

/-! ### Types of keys -/

instance : LawfulMapKey String where
  irrefl a h := String.lt_irrefl a (of_decide_eq_true h)
  trans _ _ _ hab hbc :=
    decide_eq_true (String.lt_trans (of_decide_eq_true hab) (of_decide_eq_true hbc))
  eq_of_not_before _ _ hab hba :=
    String.le_antisymm (fun h => hba (decide_eq_true h)) fun h => hab (decide_eq_true h)
  text_injective := Function.injective_id

instance : LawfulMapKey Bool where
  irrefl := by decide
  trans := by decide
  eq_of_not_before := by decide
  text_injective := by decide

instance : LawfulMapKey Char where
  irrefl a h := Char.lt_irrefl a (of_decide_eq_true h)
  trans _ _ _ hab hbc :=
    decide_eq_true (Char.lt_trans (of_decide_eq_true hab) (of_decide_eq_true hbc))
  eq_of_not_before _ _ hab hba :=
    Char.le_antisymm (Char.not_lt.mp fun h => hba (decide_eq_true h))
      (Char.not_lt.mp fun h => hab (decide_eq_true h))
  text_injective := by
    intro a b h
    have hl : [a] = [b] := by
      rw [← String.toList_singleton a, ← String.toList_singleton b]
      exact congrArg String.toList h
    exact List.head_eq_of_cons_eq hl

instance : LawfulMapKey Int where
  irrefl a h := Int.lt_irrefl a (of_decide_eq_true h)
  trans _ _ _ hab hbc :=
    decide_eq_true (Int.lt_trans (of_decide_eq_true hab) (of_decide_eq_true hbc))
  eq_of_not_before _ _ hab hba :=
    Int.le_antisymm (Int.not_lt.mp fun h => hba (decide_eq_true h))
      (Int.not_lt.mp fun h => hab (decide_eq_true h))
  text_injective _ _ h := Int.repr_injective h

namespace Uuid

theorem toList_text (u : Uuid) : u.text.toList = u.digits.take 8 ++ '-' :: ((u.digits.drop 8).take 4
    ++ '-' :: ((u.digits.drop 12).take 4 ++ '-' :: ((u.digits.drop 16).take 4
    ++ '-' :: (u.digits.drop 20).take 12))) := by
  simp [text]

theorem drop_inj_of_take {cs ds : List Char} {i n : Nat}
    (htake : (cs.drop i).take n = (ds.drop i).take n) (hdrop : cs.drop (i + n) = ds.drop (i + n)) :
    cs.drop i = ds.drop i := by
  rw [← List.take_append_drop n (cs.drop i), ← List.take_append_drop n (ds.drop i), htake,
    List.drop_drop, List.drop_drop, hdrop]

/-- The groups stand between dashes at fixed places, so the text tells the digits. -/
theorem text_injective : Function.Injective text := by
  intro u w h
  have hl := congrArg String.toList h
  rw [toList_text, toList_text] at hl
  have hlen : u.digits.length = w.digits.length := u.length_digits.trans w.length_digits.symm
  obtain ⟨h8, hl⟩ := List.append_inj hl (by simp [hlen])
  obtain ⟨h4, hl⟩ := List.append_inj (List.tail_eq_of_cons_eq hl) (by simp [hlen])
  obtain ⟨h4', hl⟩ := List.append_inj (List.tail_eq_of_cons_eq hl) (by simp [hlen])
  obtain ⟨h4'', hl⟩ := List.append_inj (List.tail_eq_of_cons_eq hl) (by simp [hlen])
  have h12 := List.tail_eq_of_cons_eq hl
  have hend : u.digits.drop 32 = w.digits.drop 32 := by
    rw [List.drop_of_length_le u.length_digits.le, List.drop_of_length_le w.length_digits.le]
  have hdigits : u.digits.drop 0 = w.digits.drop 0 :=
    drop_inj_of_take h8 (drop_inj_of_take h4 (drop_inj_of_take h4' (drop_inj_of_take h4''
      (drop_inj_of_take h12 hend))))
  cases u
  cases w
  cases hdigits
  rfl

end Uuid

instance : LawfulMapKey Uuid where
  irrefl a h := String.lt_irrefl a.text (of_decide_eq_true h)
  trans _ _ _ hab hbc :=
    decide_eq_true (String.lt_trans (of_decide_eq_true hab) (of_decide_eq_true hbc))
  eq_of_not_before _ _ hab hba := Uuid.text_injective <|
    String.le_antisymm (fun h => hba (decide_eq_true h)) fun h => hab (decide_eq_true h)
  text_injective := Uuid.text_injective

/-! ### Maps -/

section Order

variable {α κ : Type} [MapKey κ] (key : α → κ)

theorem Value.mem_insertBy {x y : α} : ∀ {xs : List α},
    y ∈ Value.insertBy MapKey.before key x xs → y = x ∨ y ∈ xs := by
  intro xs h
  induction xs with
  | nil => exact Or.inl (List.mem_singleton.mp h)
  | cons z rest ih =>
    rw [Value.insertBy] at h
    split at h
    · exact List.mem_cons.mp h
    · split at h
      · rcases List.mem_cons.mp h with rfl | h
        · exact Or.inr List.mem_cons_self
        · exact (ih h).imp id (List.mem_cons_of_mem _)
      · rcases List.mem_cons.mp h with h | h
        · exact Or.inl h
        · exact Or.inr (List.mem_cons_of_mem _ h)

variable [LawfulMapKey κ]

theorem Value.pairwise_insertBy (x : α) {xs : List α}
    (h : xs.Pairwise fun a b => MapKey.before (key a) (key b)) :
    (Value.insertBy MapKey.before key x xs).Pairwise fun a b => MapKey.before (key a) (key b) := by
  induction xs with
  | nil => exact List.pairwise_singleton ..
  | cons y rest ih =>
    obtain ⟨hy, hrest⟩ := List.pairwise_cons.mp h
    rw [Value.insertBy]
    split
    · rename_i hxy
      refine List.pairwise_cons.mpr ⟨fun z hz => ?_, h⟩
      rcases List.mem_cons.mp hz with rfl | hz
      · exact hxy
      · exact LawfulMapKey.trans _ _ _ hxy (hy z hz)
    · rename_i hxy
      split
      · rename_i hyx
        refine List.pairwise_cons.mpr ⟨fun z hz => ?_, ih hrest⟩
        rcases Value.mem_insertBy key hz with rfl | hz
        · exact hyx
        · exact hy z hz
      · rename_i hyx
        have heq : key x = key y := LawfulMapKey.eq_of_not_before _ _ hxy hyx
        exact List.pairwise_cons.mpr ⟨fun z hz => heq ▸ hy z hz, hrest⟩

theorem Value.pairwise_orderBy (xs : List α) :
    (Value.orderBy MapKey.before key xs).Pairwise fun a b => MapKey.before (key a) (key b) := by
  have from_sorted : ∀ acc : List α, (acc.Pairwise fun a b => MapKey.before (key a) (key b)) →
      (xs.foldl (fun acc x => Value.insertBy MapKey.before key x acc) acc).Pairwise
        fun a b => MapKey.before (key a) (key b) := by
    induction xs with
    | nil => exact fun acc h => h
    | cons x xs ih => exact fun acc h => ih _ (Value.pairwise_insertBy key x h)
  exact from_sorted [] List.Pairwise.nil

end Order

/-- The texts of keys are apart, and a map with such keys shows none of them twice. -/
structure MapKey.Apart (κ : Type) [MapKey κ] : Prop where
  injective : Function.Injective (MapKey.text : κ → String)
  nodup : ∀ es : List (κ × Value),
    ∃ shown, Value.ofKeyed es = .map shown ∧ (shown.map Prod.fst).Nodup

theorem MapKey.apart (κ : Type) [MapKey κ] [LawfulMapKey κ] : MapKey.Apart κ where
  injective := LawfulMapKey.text_injective
  nodup es := by
    have hordered := Value.pairwise_orderBy (Prod.fst : κ × Value → κ) es
    refine ⟨_, rfl, ?_⟩
    rw [List.map_map, List.Nodup, List.pairwise_map]
    refine hordered.imp fun {a b} hab htext => ?_
    have hkey : a.1 = b.1 := LawfulMapKey.text_injective htext
    exact LawfulMapKey.irrefl b.1 (hkey ▸ hab)

end Abridge

import Abridge.Proofs.Entries
import Abridge.Proofs.Parts
import Abridge.Tree
import Abridge.Trim

/-!
Documents as data. A check of parts, told how many objects are around each, extends to a check of
whole documents; `Proper` is the one that every document passes that can be held in memory. A proper
document is the document of its tree, so nothing of it is lost on the way there and back.
-/
namespace Abridge.Json

@[elab_as_elim, induction_eliminator]
theorem parts {motive : Json → Prop} (null : motive .null) (bool : ∀ b, motive (.bool b))
    (integer : ∀ z, motive (.integer z)) (float : ∀ x, motive (.float x))
    (text : ∀ s, motive (.text s)) (array : ∀ xs, (∀ x ∈ xs, motive x) → motive (.array xs))
    (object : ∀ es, (∀ k x, (k, x) ∈ es → motive x) → motive (.object es)) : ∀ d, motive d
  | .null => null
  | .bool b => bool b
  | .integer z => integer z
  | .float x => float x
  | .text s => text s
  | .array xs => array xs fun x _ => parts null bool integer float text array object x
  | .object es => object es fun _ x hx =>
    have := sizeOf_lt_of_mem_pairs hx
    parts null bool integer float text array object x

/-! ### Checks of all parts -/

mutual

/-- Does `ok` hold of the document and of all that is in it, told how many objects are around? -/
def every (ok : Nat → Json → Bool) (n : Nat) : Json → Bool
  | .array xs => ok n (.array xs) && everyItem ok n xs
  | .object es => ok n (.object es) && everyMember ok (n + 1) es
  | d => ok n d

def everyItem (ok : Nat → Json → Bool) (n : Nat) : List Json → Bool
  | [] => true
  | x :: xs => every ok n x && everyItem ok n xs

def everyMember (ok : Nat → Json → Bool) (n : Nat) : List (String × Json) → Bool
  | [] => true
  | (_, x) :: es => every ok n x && everyMember ok n es

end

variable {ok : Nat → Json → Bool} {n : Nat}

theorem everyItem_iff {xs : List Json} :
    everyItem ok n xs = true ↔ ∀ x ∈ xs, x.every ok n = true := by
  induction xs with
  | nil => simp [everyItem]
  | cons x xs ih => simp [everyItem, ih]

theorem everyMember_iff {es : List (String × Json)} :
    everyMember ok n es = true ↔ ∀ k x, (k, x) ∈ es → x.every ok n = true := by
  induction es with
  | nil => simp [everyMember]
  | cons e es ih =>
    obtain ⟨k, x⟩ := e
    rw [everyMember, Bool.and_eq_true, ih]
    constructor
    · rintro ⟨hx, hes⟩ j y hm
      rcases List.mem_cons.mp hm with h | hm
      · cases h
        exact hx
      · exact hes j y hm
    · intro h
      exact ⟨h k x List.mem_cons_self, fun j y hm => h j y (List.mem_cons_of_mem _ hm)⟩

theorem every_array {xs : List Json} : (array xs).every ok n = true ↔
    ok n (.array xs) = true ∧ ∀ x ∈ xs, x.every ok n = true := by
  rw [every, Bool.and_eq_true, everyItem_iff]

theorem every_object {es : List (String × Json)} : (object es).every ok n = true ↔
    ok n (.object es) = true ∧ ∀ k x, (k, x) ∈ es → x.every ok (n + 1) = true := by
  rw [every, Bool.and_eq_true, everyMember_iff]

/-- A part as documents have it: a 64-bit word holds an integer, a float is finite, the members of
an object stand in the order of their keys, and memory holds the items of an array, 32 bytes
each. -/
def proper (_ : Nat) : Json → Bool
  | .integer z => decide (Word.minSigned ≤ z) && decide (z ≤ Word.maxUnsigned)
  | .float x => x.isFinite
  | .array xs => decide (xs.length ≤ maxRoom)
  | .object es => decide (Entries.Ordered es)
  | _ => true

/-- A document as it can be read and held. -/
def Proper (d : Json) : Prop := d.every proper 0 = true

instance (d : Json) : Decidable d.Proper := inferInstanceAs (Decidable (_ = true))

/-! ### The tree of a document -/

mutual

/-- The tree that shows all of a document; an integer is unsigned only if it must be. -/
def tree : Json → Tree
  | .null => .null
  | .bool b => .bool b
  | .integer z => if z ≤ Word.maxSigned then .int z else .uint z.toNat
  | .float x => .float x
  | .text s => .text s
  | .array xs => .seq (itemTrees xs)
  | .object es => .map (memberTrees es)

def itemTrees : List Json → List Tree
  | [] => []
  | x :: xs => tree x :: itemTrees xs

def memberTrees : List (String × Json) → List (String × Tree)
  | [] => []
  | (k, x) :: es => (k, tree x) :: memberTrees es

end

theorem memberTrees_eq_mapValues (es : List (String × Json)) :
    memberTrees es = Entries.mapValues tree es := by
  induction es with
  | nil => rfl
  | cons e es ih =>
    rw [memberTrees, ih]
    rfl

theorem itemDocuments_itemTrees {xs : List Json} (h : ∀ x ∈ xs, x.tree.document = .ok x) :
    Tree.itemDocuments (itemTrees xs) = .ok xs := by
  induction xs with
  | nil => rfl
  | cons x xs ih =>
    rw [itemTrees, Tree.itemDocuments, h x List.mem_cons_self,
      ih fun y hy => h y (List.mem_cons_of_mem _ hy)]
    rfl

theorem entryDocuments_memberTrees {es : List (String × Json)}
    (h : ∀ k x, (k, x) ∈ es → x.tree.document = .ok x) :
    Tree.entryDocuments (memberTrees es) = .ok es := by
  induction es with
  | nil => rfl
  | cons e es ih =>
    obtain ⟨k, x⟩ := e
    rw [memberTrees, Tree.entryDocuments, h k x List.mem_cons_self,
      ih fun j y hy => h j y (List.mem_cons_of_mem _ hy)]
    rfl

/-- A proper document comes back from its tree. -/
theorem document_tree {d : Json} (hd : d.every proper n = true) : d.tree.document = .ok d := by
  induction d generalizing n with
  | null | bool | text => rfl
  | integer z =>
    rw [tree]
    split
    · rfl
    · have hz : 0 ≤ z := by omega
      rw [Tree.document, Int.toNat_of_nonneg hz]
  | float x =>
    have hx : x.isFinite = true := hd
    rw [tree, Tree.document, if_pos hx]
  | array xs ih =>
    have hxs := (every_array.mp hd).2
    rw [tree, Tree.document, itemDocuments_itemTrees fun x hx => ih x hx (hxs x hx)]
    rfl
  | object es ih =>
    have hes := (every_object.mp hd).2
    rw [tree, Tree.document, entryDocuments_memberTrees fun k x hx => ih k x hx (hes k x hx)]
    rfl

end Abridge.Json

import Abridge.Proofs.Document
import Abridge.Proofs.Level
import Abridge.Report
import Abridge.Value.Standard

/-!
Trimming of documents. What is left of a document is a document again, found without looking at
values or trees: `trimmed`. Trimming it once more changes nothing, and a document within the limits
is left as it is.
-/
namespace Abridge

namespace Json

def isNull : Json → Bool
  | .null => true
  | _ => false

/-- Does a sequence keep it as an item? -/
def isItem : Json → Bool
  | .null => false
  | .array _ => false
  | _ => true

/-! ### What is left of a document -/

mutual

/-- The document that trimming leaves, with so many levels left. -/
def trimmed (p : Policy) (depth : Int) : Json → Json
  | .text s => .text (Text.limited p.stringLimit s)
  | .array xs => .array (trimmedItems p depth p.arrayLimit.toNat xs)
  | .object es =>
    .object (if spend depth ≤ 0 then [] else Entries.ofList (trimmedMembers p (spend depth) es))
  | d => d

/-- Of the first `n` items, those that are kept. -/
def trimmedItems (p : Policy) (depth : Int) : Nat → List Json → List Json
  | 0, _ => []
  | _, [] => []
  | n + 1, x :: xs =>
    if x.isItem then trimmed p depth x :: trimmedItems p depth n xs
    else trimmedItems p depth n xs

/-- The members with content under visible names. -/
def trimmedMembers (p : Policy) (depth : Int) : List (String × Json) → List (String × Json)
  | [] => []
  | (k, x) :: es =>
    if p.isVisible k && !x.isNull then (k, trimmed p depth x) :: trimmedMembers p depth es
    else trimmedMembers p depth es

end

theorem trimmedItems_eq (p : Policy) (depth : Int) (n : Nat) (xs : List Json) :
    trimmedItems p depth n xs = ((xs.take n).filter isItem).map (trimmed p depth) := by
  induction xs generalizing n with
  | nil => cases n <;> rfl
  | cons x xs ih =>
    cases n with
    | zero => rfl
    | succ n =>
      rw [trimmedItems, List.take_succ_cons, List.filter_cons, ih]
      split <;> rfl

theorem trimmedMembers_eq (p : Policy) (depth : Int) (es : List (String × Json)) :
    trimmedMembers p depth es = Entries.mapValues (trimmed p depth)
      (es.filter fun w => p.isVisible w.1 && !w.2.isNull) := by
  induction es with
  | nil => rfl
  | cons e es ih =>
    obtain ⟨k, x⟩ := e
    rw [trimmedMembers, List.filter_cons, ih]
    split <;> rfl

@[simp] theorem isNull_trimmed (p : Policy) (depth : Int) (d : Json) :
    (d.trimmed p depth).isNull = d.isNull := by
  cases d <;> rfl

@[simp] theorem isItem_trimmed (p : Policy) (depth : Int) (d : Json) :
    (d.trimmed p depth).isItem = d.isItem := by
  cases d <;> rfl

theorem mem_trimmedItems {p : Policy} {depth : Int} {n : Nat} {xs : List Json} {y : Json}
    (h : y ∈ trimmedItems p depth n xs) : ∃ x ∈ xs, x.isItem = true ∧ y = x.trimmed p depth := by
  rw [trimmedItems_eq] at h
  obtain ⟨x, hx, rfl⟩ := List.mem_map.mp h
  obtain ⟨hx, hitem⟩ := List.mem_filter.mp hx
  exact ⟨x, List.mem_of_mem_take hx, hitem, rfl⟩

theorem length_trimmedItems_le (p : Policy) (depth : Int) (n : Nat) (xs : List Json) :
    (trimmedItems p depth n xs).length ≤ min n xs.length := by
  rw [trimmedItems_eq, List.length_map, ← List.length_take]
  exact List.length_filter_le ..

theorem mem_trimmedMembers {p : Policy} {depth : Int} {es : List (String × Json)} {k : String}
    {y : Json} (h : (k, y) ∈ trimmedMembers p depth es) : ∃ x, (k, x) ∈ es ∧
      p.isVisible k = true ∧ x.isNull = false ∧ y = x.trimmed p depth := by
  rw [trimmedMembers_eq] at h
  obtain ⟨⟨j, x⟩, hx, hw⟩ := List.mem_map.mp h
  cases hw
  obtain ⟨hx, hshown⟩ := List.mem_filter.mp hx
  rw [Bool.and_eq_true, Bool.not_eq_true'] at hshown
  exact ⟨x, hx, hshown.1, hshown.2, rfl⟩

/-! ### Documents that are left as they are -/

/-- Items that are all kept, within the window, stay if each is left as it is. -/
theorem trimmedItems_eq_self {p : Policy} {depth : Int} {n : Nat} {xs : List Json}
    (hlen : xs.length ≤ n) (h : ∀ x ∈ xs, x.isItem = true ∧ x.trimmed p depth = x) :
    trimmedItems p depth n xs = xs := by
  rw [trimmedItems_eq, List.take_of_length_le hlen, List.filter_eq_self.mpr fun x hx => (h x hx).1]
  calc xs.map (trimmed p depth) = xs.map id := List.map_congr_left fun x hx => (h x hx).2
    _ = xs := List.map_id xs

theorem trimmedMembers_eq_self {p : Policy} {depth : Int} {es : List (String × Json)}
    (h : ∀ k x, (k, x) ∈ es →
      p.isVisible k = true ∧ x.isNull = false ∧ x.trimmed p depth = x) :
    trimmedMembers p depth es = es := by
  have hshown : ∀ w ∈ es, (p.isVisible w.1 && !w.2.isNull) = true := by
    intro w hw
    obtain ⟨hk, hx, _⟩ := h w.1 w.2 hw
    rw [hk, hx]
    rfl
  rw [trimmedMembers_eq, List.filter_eq_self.mpr hshown]
  calc Entries.mapValues (trimmed p depth) es = es.map id :=
        List.map_congr_left fun w hw => congrArg (Prod.mk w.1) (h w.1 w.2 hw).2.2
    _ = es := List.map_id es

/-- What is left of a document is left as it is. -/
theorem trimmed_trimmed (p : Policy) (depth : Int) (d : Json) :
    (d.trimmed p depth).trimmed p depth = d.trimmed p depth := by
  induction d generalizing depth with
  | null | bool | integer | float => rfl
  | text s => rw [trimmed, trimmed, Text.limited_limited]
  | array xs ih =>
    -- What is dropped makes the array shorter, so all of the rest stands within the window.
    have hlen := length_trimmedItems_le p depth p.arrayLimit.toNat xs
    rw [trimmed, trimmed, trimmedItems_eq_self (by omega)]
    intro y hy
    obtain ⟨x, hx, hitem, rfl⟩ := mem_trimmedItems hy
    exact ⟨by rw [isItem_trimmed, hitem], ih x hx depth⟩
  | object es ih =>
    rw [trimmed, trimmed]
    split
    · rfl
    · rw [trimmedMembers_eq_self, Entries.ofList_eq_self (Entries.ordered_ofList _)]
      intro k y hy
      obtain ⟨x, hx, hk, hnull, rfl⟩ := mem_trimmedMembers (Entries.mem_of_mem_ofList hy)
      exact ⟨hk, by rw [isNull_trimmed, hnull], ih k x hx (spend depth)⟩

/-- What is left of a proper document is a proper document. -/
theorem every_proper_trimmed {p : Policy} {d : Json} {n : Nat} (hd : d.every proper n = true)
    (depth : Int) : (d.trimmed p depth).every proper n = true := by
  induction d generalizing n depth with
  | null | bool | integer | float => exact hd
  | text => rfl
  | array xs ih =>
    obtain ⟨hroom, hxs⟩ := every_array.mp hd
    have hroom : xs.length ≤ maxRoom := of_decide_eq_true hroom
    have hlen := length_trimmedItems_le p depth p.arrayLimit.toNat xs
    refine every_array.mpr ⟨decide_eq_true (by omega), fun y hy => ?_⟩
    obtain ⟨x, hx, _, rfl⟩ := mem_trimmedItems hy
    exact ih x hx (hxs x hx) depth
  | object es ih =>
    have hes := (every_object.mp hd).2
    rw [trimmed]
    split
    · rfl
    · refine every_object.mpr ⟨decide_eq_true (Entries.ordered_ofList _), fun k y hy => ?_⟩
      obtain ⟨x, hx, _, _, rfl⟩ := mem_trimmedMembers (Entries.mem_of_mem_ofList hy)
      exact ih k x hx (hes k x hx) (spend depth)

/-! ### The trimmer on documents -/

/-- What a container sees of a document. -/
def seen (p : Policy) (place : Place) (depth : Int) : Json → Seen
  | .null => .nothing
  | .array xs =>
    if place = .item then .nothing
    else .list xs.length (itemTrees (trimmedItems p depth p.arrayLimit.toNat xs))
  | .object es => .table (memberTrees
      (if spend depth ≤ 0 then [] else Entries.ofList (trimmedMembers p (spend depth) es)))
  | d => .leaf (d.trimmed p depth).tree

theorem asItem_seen (p : Policy) (depth : Int) (d : Json) :
    (d.seen p .item depth).asItem =
      if d.isItem then [(d.trimmed p depth).tree] else [] := by
  cases d <;> rfl

theorem entryWrites_seen (p : Policy) (depth : Int) (k : String) (d : Json) :
    (d.seen p .entry depth).entryWrites k =
      if d.isNull then [] else [(k, (d.trimmed p depth).tree)] := by
  cases d <;> rfl

theorem tree_seen (p : Policy) (depth : Int) (d : Json) :
    (d.seen p .root depth).tree = (d.trimmed p depth).tree := by
  cases d <;> rfl

theorem items_ofItems {p : Policy} {depth : Int} {xs : List Json}
    (h : ∀ x ∈ xs, look p .item false depth (Value.ofJson x) = .ok (x.seen p .item depth))
    (n : Nat) :
    items p depth n (Value.ofItems xs) = .ok (itemTrees (trimmedItems p depth n xs)) := by
  induction xs generalizing n with
  | nil => cases n <;> rfl
  | cons x xs ih =>
    cases n with
    | zero => rfl
    | succ n =>
      rw [Value.ofItems, items, h x List.mem_cons_self,
        ih (fun y hy => h y (List.mem_cons_of_mem _ hy)) n, trimmedItems]
      change Except.ok ((x.seen p .item depth).asItem ++ _) = _
      rw [asItem_seen]
      split <;> rfl

theorem entryLog_ofMembers {p : Policy} {depth : Int} {es : List (String × Json)}
    (h : ∀ k x, (k, x) ∈ es →
      look p .entry false depth (Value.ofJson x) = .ok (x.seen p .entry depth)) :
    entryLog p depth (Value.ofMembers es) = .ok (memberTrees (trimmedMembers p depth es)) := by
  induction es with
  | nil => rfl
  | cons e es ih =>
    obtain ⟨k, x⟩ := e
    have hes := ih fun j y hy => h j y (List.mem_cons_of_mem _ hy)
    rw [Value.ofMembers, entryLog, trimmedMembers, h k x List.mem_cons_self, hes]
    cases hk : p.isVisible k with
    | false => rfl
    | true =>
      change Except.ok ((x.seen p .entry depth).entryWrites k ++ _) = _
      rw [entryWrites_seen]
      cases x.isNull <;> rfl

/-- The trimmer sees of a document what is left of it. -/
theorem look_ofJson {p : Policy} {d : Json} {n : Nat} (hd : d.every proper n = true) (place : Place)
    (depth : Int) : look p place false depth (Value.ofJson d) = .ok (d.seen p place depth) := by
  induction d generalizing n place depth with
  | null | bool | float | text => rfl
  | integer z =>
    have hleaf : (integer z).seen p place depth = .leaf (integer z).tree := rfl
    rw [hleaf, Value.ofJson, tree]
    split <;> rfl
  | array xs ih =>
    obtain ⟨hroom, hxs⟩ := every_array.mp hd
    have hroom : xs.length ≤ maxRoom := of_decide_eq_true hroom
    have hitems := items_ofItems (fun x hx => ih x hx (hxs x hx) .item depth) p.arrayLimit.toNat
    rw [Value.ofJson, look, seen]
    split
    · rfl
    · split
      · rename_i hempty
        have hnil : trimmedItems p depth p.arrayLimit.toNat xs = [] := by
          rw [trimmedItems_eq]
          rcases hempty with h | h
          · rw [Int.toNat_of_nonpos h]
            rfl
          · rw [List.length_eq_zero_iff.mp h, List.take_nil]
            rfl
        rw [hnil]
        rfl
      · rw [if_neg (by omega), hitems]
        rfl
  | object es ih =>
    have hes := (every_object.mp hd).2
    have hlog := entryLog_ofMembers fun k x hx => ih k x hx (hes k x hx) .entry (spend depth)
    rw [Value.ofJson, look, seen]
    split
    · rfl
    · -- Insertion does not look at values, so it makes no difference when trees are made of them.
      rw [entries_eq_play, hlog, Entries.ofList_eq_play, memberTrees_eq_mapValues,
        memberTrees_eq_mapValues, Entries.mapValues_play]
      rfl

theorem trim_ofJson {d : Json} (hd : d.Proper) (p : Policy) :
    (Value.ofJson d).trim p = .ok (d.trimmed p p.depthLimit).tree := by
  rw [Value.trim, look_ofJson hd, ← tree_seen]
  rfl

/-! ### Trimming again, and trimming within the limits -/

/-- A part within the limits, as the policy and the number of objects around it have it. -/
def fits (p : Policy) (n : Nat) : Json → Bool
  | .text s => decide (p.stringLimit ≤ 0) || decide ((s.length : Int) ≤ p.stringLimit)
  | .array xs => decide ((xs.length : Int) ≤ max 0 p.arrayLimit) && xs.all isItem
  | .object es =>
    (es.isEmpty || decide ((n : Int) + 1 < p.depthLimit)) &&
      es.all fun w => p.isVisible w.1 && !w.2.isNull
  | _ => true

/-- A document within the limits of a policy. -/
def Fits (p : Policy) (d : Json) : Prop := d.every (fits p) 0 = true

instance (p : Policy) (d : Json) : Decidable (d.Fits p) := inferInstanceAs (Decidable (_ = true))

theorem limited_of_fits {p : Policy} {n : Nat} {s : String} (h : fits p n (.text s) = true) :
    Text.limited p.stringLimit s = s := by
  simp only [fits, Bool.or_eq_true, decide_eq_true_eq] at h
  refine Text.limited_of_not_exceeds (eq_false_of_ne_true fun hlong => ?_)
  obtain ⟨hpos, hlt⟩ := Text.exceeds_iff.mp hlong
  omega

/-- With as many levels left as the objects around it leave, nothing is taken from a document within
the limits. -/
theorem trimmed_of_fits {p : Policy} {d : Json} {n m : Nat} {depth : Int}
    (hd : d.every proper m = true) (hf : d.every (fits p) n = true)
    (hn : p.depthLimit - n ≤ depth) : d.trimmed p depth = d := by
  induction d generalizing n m depth with
  | null | bool | integer | float => rfl
  | text s =>
    have hs : fits p n (.text s) = true := hf
    rw [trimmed, limited_of_fits hs]
  | array xs ih =>
    have hxs := (every_array.mp hd).2
    obtain ⟨hfits, hall⟩ := every_array.mp hf
    simp only [fits, Bool.and_eq_true, decide_eq_true_eq, List.all_eq_true] at hfits
    rw [trimmed, trimmedItems_eq_self (by omega)]
    exact fun x hx => ⟨hfits.2 x hx, ih x hx (hxs x hx) (hall x hx) hn⟩
  | object es ih =>
    obtain ⟨hordered, hes⟩ := every_object.mp hd
    obtain ⟨hfits, hall⟩ := every_object.mp hf
    simp only [fits, Bool.and_eq_true, Bool.or_eq_true, decide_eq_true_eq, List.all_eq_true,
      List.isEmpty_iff] at hfits
    obtain ⟨rfl | hdepth, hshown⟩ := hfits
    · rw [trimmed]
      split <;> rfl
    · -- There is a level left, so that spending one cannot reach the smallest limit.
      have hspend : spend depth = depth - 1 := by
        simp only [spend, Word.minSigned]
        omega
      rw [trimmed, if_neg (by omega), trimmedMembers_eq_self,
        Entries.ofList_eq_self (of_decide_eq_true hordered)]
      intro k x hx
      obtain ⟨hk, hnull⟩ := hshown (k, x) hx
      exact ⟨hk, by simpa using hnull, ih k x hx (hes k x hx) (hall k x hx) (by omega)⟩

end Json

/-- The tree of a document has a document, and that has the same tree. -/
theorem trim_idempotent {d : Json} (hd : d.Proper) (p : Policy) : ∃ t e,
    (Value.ofJson d).trim p = .ok t ∧ t.document = .ok e ∧ e.Proper ∧
      (Value.ofJson e).trim p = .ok t := by
  have he : (d.trimmed p p.depthLimit).Proper := Json.every_proper_trimmed hd p.depthLimit
  refine ⟨_, _, Json.trim_ofJson hd p, Json.document_tree he, he, ?_⟩
  rw [Json.trim_ofJson he, Json.trimmed_trimmed]

theorem trim_idempotent_order :
    let d : Json := .object [("id", .integer 18446744073709551615),
      ("lines", .array [.null, .text "tea set", .array [.integer 1], .bool true]),
      ("ship", .object [("city", .object [("zip", .integer 7)])]), ("token", .text "t0k3n")]
    let p : Policy := ⟨2, 2, 3, 0, ["token"]⟩
    d.Proper ∧ ∃ t e, (Value.ofJson d).trim p = .ok t ∧ t.document = .ok e ∧ e.Proper ∧
      (Value.ofJson e).trim p = .ok t :=
  ⟨by decide, trim_idempotent (by decide) _⟩

/-- A document within the limits comes back as it is, and nothing is reported. -/
theorem report_of_fits {p : Policy} {d : Json} (hd : d.Proper) (hf : d.Fits p) : ∃ t,
    (Value.ofJson d).report p = ⟨t, []⟩ ∧ t.document = .ok d := by
  refine ⟨d.tree, ?_, Json.document_tree hd⟩
  rw [Value.report, Json.trim_ofJson hd, Json.trimmed_of_fits hd hf (Int.le_of_eq (by omega))]

theorem report_of_fits_order :
    let d : Json := .object [("lines", .array [.text "tea", .object []]),
      ("ship", .object [("geo", .object []), ("zip", .integer 7)])]
    let p : Policy := ⟨2, 3, 3, 0, ["token"]⟩
    d.Proper ∧ d.Fits p ∧ ∃ t, (Value.ofJson d).report p = ⟨t, []⟩ ∧ t.document = .ok d :=
  ⟨by decide, by decide, report_of_fits (by decide) (by decide)⟩

end Abridge

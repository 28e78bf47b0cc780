import Abridge.Proofs.Contained
import Abridge.Proofs.Limits

/-!
The limit of levels at its ends. Where no level is left it does not count how far the number has
fallen, and where a number is larger than what a value can spend it does not count by how much. The
number of levels falls by one for every record, map and trait object that spends one, stops at the
smallest signed word, and never rises.
-/
namespace Abridge

/-! ### Height -/

namespace Value

mutual

/-- The most records, maps and trait objects on one path into the value. -/
def height : Value → Nat
  | .optional v => v.height
  | .dynamic v => v.height + 1
  | .record fs => heightFields fs + 1
  | .map es => heightEntries es + 1
  | .seq _ vs => heightItems vs
  | .broken .seq _ => 0
  | .broken _ _ => 1
  | _ => 0

def heightFields : List (Descriptor × Value) → Nat
  | [] => 0
  | (_, v) :: rest => max v.height (heightFields rest)

def heightEntries : List (String × Value) → Nat
  | [] => 0
  | (_, v) :: rest => max v.height (heightEntries rest)

def heightItems : List Value → Nat
  | [] => 0
  | v :: rest => max v.height (heightItems rest)

end

end Value

/-! ### Numbers of levels -/

/-- With either number a traversal comes as far into a value of the height: both leave no level, or
both are enough. -/
def AsFar (h : Nat) (d e : Int) : Prop := d ≤ 1 ∧ e ≤ 1 ∨ h < d ∧ h < e

section Levels

variable {h k : Nat} {d e : Int}

theorem AsFar.mono (hkh : k ≤ h) (hde : AsFar h d e) : AsFar k d e := by
  simp only [AsFar] at *
  omega

theorem AsFar.deeper (hde : AsFar (h + 1) d e) : AsFar h (spend d) (spend e) := by
  simp only [AsFar, spend, Word.minSigned] at *
  omega

/-- A record or map has a level to spend with both or with neither. -/
theorem AsFar.spent_iff (hde : AsFar (h + 1) d e) : spend d ≤ 0 ↔ spend e ≤ 0 := by
  simp only [AsFar, spend, Word.minSigned] at *
  omega

theorem AsFar.dynamicDepth (place : Place) (hde : AsFar (h + 1) d e) :
    AsFar h (place.dynamicDepth d) (place.dynamicDepth e) := by
  rw [Place.dynamicDepth, Place.dynamicDepth]
  split
  · exact hde.mono (Nat.le_succ h)
  · exact hde.deeper

end Levels

/-! ### What is seen of them -/

section Looks

variable (p : Policy)

mutual

/-- Where a traversal comes as far, it sees the same: by induction over the value, whose height
bounds those of its parts. -/
theorem look_eq_of_asFar {place : Place} {opened : Bool} {d e : Int} : ∀ {v : Value},
    AsFar v.height d e → look p place opened d v = look p place opened e v
  | .absent, _ | .unsupported, _ | .faulty _, _ | .scalar _, _ | .special _, _ => rfl
  | .optional v, hde => by
    rw [look, look, look_eq_of_asFar (v := v) hde]
  | .dynamic v, hde => by
    rw [look, look, look_eq_of_asFar (v := v) (hde.dynamicDepth place)]
  | .record fs, hde => by
    rw [look, look, fields_eq_of_asFar hde.deeper]
    simp only [hde.spent_iff]
  | .map es, hde => by
    rw [look, look, entries_eq_of_asFar hde.deeper]
    simp only [hde.spent_iff]
  | .seq n vs, hde => by
    have hitems : AsFar (Value.heightItems vs) d e := hde
    rw [look, look, items_eq_of_asFar hitems]
  | .broken .seq _, _ => rfl
  | .broken .record f, hde | .broken .map f, hde => by
    change (if spend d ≤ 0 then Except.ok (Seen.table []) else .error f) =
      if spend e ≤ 0 then .ok (.table []) else .error f
    simp only [hde.spent_iff]

theorem fields_eq_of_asFar {d e : Int} : ∀ {fs : List (Descriptor × Value)} {out : Entries Tree},
    AsFar (Value.heightFields fs) d e → fields p d out fs = fields p e out fs
  | [], _, _ => rfl
  | (c, v) :: rest, out, hde => by
    have hv : AsFar v.height d e := hde.mono (Nat.le_max_left ..)
    have hrest : AsFar (Value.heightFields rest) d e := hde.mono (Nat.le_max_right ..)
    rw [fields, fields, look_eq_of_asFar hv]
    simp only [fields_eq_of_asFar hrest]

theorem entries_eq_of_asFar {d e : Int} : ∀ {es : List (String × Value)} {out : Entries Tree},
    AsFar (Value.heightEntries es) d e → entries p d out es = entries p e out es
  | [], _, _ => rfl
  | (k, v) :: rest, out, hde => by
    have hv : AsFar v.height d e := hde.mono (Nat.le_max_left ..)
    have hrest : AsFar (Value.heightEntries rest) d e := hde.mono (Nat.le_max_right ..)
    rw [entries, entries, look_eq_of_asFar hv]
    simp only [entries_eq_of_asFar hrest]

theorem items_eq_of_asFar {d e : Int} : ∀ {n : Nat} {vs : List Value},
    AsFar (Value.heightItems vs) d e → items p d n vs = items p e n vs
  | 0, _, _ => by rw [items, items]
  | n + 1, [], _ => by rw [items_nil, items_nil]
  | n + 1, v :: rest, hde => by
    have hv : AsFar v.height d e := hde.mono (Nat.le_max_left ..)
    have hrest : AsFar (Value.heightItems rest) d e := hde.mono (Nat.le_max_right ..)
    rw [items, items, look_eq_of_asFar hv, items_eq_of_asFar hrest]

end

end Looks

theorem trim_eq_of_asFar (p : Policy) {v : Value} {d e : Int} (hde : AsFar v.height d e) :
    v.trim { p with depthLimit := d } = v.trim { p with depthLimit := e } := by
  rw [trim_depthLimit, trim_depthLimit, look_eq_of_asFar p hde]

/-! ### The levels on the way to a value -/

namespace Spot

/-- How many levels a value spends on what is in it. -/
def spends (a : Spot) : Value → Nat
  | .record _ | .map _ => 1
  | .dynamic _ => if a.place = .root then 0 else 1
  | _ => 0

/-- How many levels are spent on the way to a position. -/
def spent (p : Policy) (a : Spot) (v : Value) : List Nat → Nat
  | [] => 0
  | i :: path =>
    match (a.visits p v)[i]? with
    | some (some (b, u)) => a.spends v + b.spent p u path
    | _ => 0

theorem depth_of_mem_visits {p : Policy} {a b : Spot} {v u : Value} (ha : Word.minSigned ≤ a.depth)
    (h : some (b, u) ∈ a.visits p v) : b.depth = max (a.depth - a.spends v) Word.minSigned := by
  have hkept : a.depth = max (a.depth - (0 : Nat)) Word.minSigned := by omega
  cases mem_visits_iff.mp h with
  | optional | item => exact hkept
  | dynamic =>
    change a.place.dynamicDepth a.depth = _
    rw [spends, Place.dynamicDepth]
    split
    · exact hkept
    · rfl
  | field | entry => rfl

theorem depth_of_reached? {p : Policy} {b : Spot} {w : Value} {path : List Nat} :
    ∀ {a : Spot} {v : Value}, Word.minSigned ≤ a.depth → a.reached? p v path = some (b, w) →
      b.depth = max (a.depth - a.spent p v path) Word.minSigned := by
  induction path with
  | nil =>
    intro a v ha h
    cases h
    rw [spent]
    omega
  | cons i path ih =>
    intro a v ha h
    cases hi : (a.visits p v)[i]? with
    | none =>
      rw [reached?, hi] at h
      cases h
    | some x =>
      rw [reached?, hi] at h
      rw [spent, hi]
      cases x with
      | none => cases h
      | some s =>
        obtain ⟨c, u⟩ := s
        have hc := depth_of_mem_visits ha (List.mem_of_getElem? hi)
        have hb : b.depth = max (c.depth - c.spent p u path) Word.minSigned := ih (by omega) h
        -- What stops at the smallest word on the way stops there in one subtraction, too.
        change b.depth = max (a.depth - (a.spends v + c.spent p u path : Nat)) Word.minSigned
        omega

end Spot

/-- All limits that leave no level give the same tree or panic, and so do all limits larger than the
height of the value. On the way no number of levels leaves the range of words, and what is left is
the limit less what was spent, or the smallest word. -/
theorem depth_limit_saturates (p : Policy) (v : Value) :
    (∀ d e : Int, d ≤ 1 → e ≤ 1 →
      v.trim { p with depthLimit := d } = v.trim { p with depthLimit := e }) ∧
    (∀ d e : Int, v.height < d → v.height < e →
      v.trim { p with depthLimit := d } = v.trim { p with depthLimit := e }) ∧
    (Word.holdsSigned p.depthLimit = true → ∀ path b w, p.start.reached? p v path = some (b, w) →
      b.depth = max (p.depthLimit - p.start.spent p v path) Word.minSigned ∧
      Word.holdsSigned b.depth = true ∧ Word.holdsSigned (spend b.depth) = true ∧
      spend b.depth ≤ b.depth) := by
  refine ⟨fun d e hd he => trim_eq_of_asFar p (Or.inl ⟨hd, he⟩),
    fun d e hd he => trim_eq_of_asFar p (Or.inr ⟨hd, he⟩), fun hp path b w hb => ?_⟩
  have holds (z : Int) : Word.holdsSigned z = true ↔ Word.minSigned ≤ z ∧ z ≤ Word.maxSigned := by
    simp [Word.holdsSigned]
  have hrange := (holds _).mp hp
  have hdepth : b.depth = max (p.depthLimit - p.start.spent p v path) Word.minSigned :=
    Spot.depth_of_reached? hrange.1 hb
  rw [holds, holds, spend]
  omega

/-- Trait objects in sequences go on spending: the record is empty at the smallest limit as it is at
1, and full at the largest as it is at 4, one above the height; at the height itself it is not. -/
theorem depth_limit_saturates_relayed :
    let v : Value := .list [.dynamic (.list [.dynamic (.record [(⟨"x", none⟩, .text "a")])])]
    let p : Policy := { Policy.standard with depthLimit := Word.minSigned }
    v.height = 3 ∧ v.trim { p with depthLimit := Word.minSigned } = .ok (.seq [.seq [.map []]]) ∧
      v.trim { p with depthLimit := 3 } = .ok (.seq [.seq [.map []]]) ∧
      v.trim { p with depthLimit := Word.maxSigned } = .ok (.seq [.seq [.map [("x", .text "a")]]]) ∧
      ∃ b w, p.start.reached? p v [0, 0, 0, 0] = some (b, w) ∧ b.depth = Word.minSigned ∧
        Word.holdsSigned (spend b.depth) = true := by
  intro v p
  obtain ⟨hspent, hlarge, hrange⟩ := depth_limit_saturates p v
  obtain ⟨_, _, hspend, _⟩ := hrange (by decide) [0, 0, 0, 0] _ _ rfl
  refine ⟨rfl, ?_, rfl, ?_, _, _, rfl, rfl, hspend⟩
  · rw [hspent _ 1 (by decide) (by decide)]
    rfl
  · rw [hlarge _ 4 (by decide) (by decide)]
    rfl

end Abridge

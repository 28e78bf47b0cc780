import Abridge.Proofs.Log

/-!
Limits that a look does not ask for. What is seen of a value depends on the levels that are left,
not on those the traversal began with, and the limit of the whole text concerns nothing but its
report.
-/
namespace Abridge

mutual

/-- A look asks neither for the limit of levels nor for that of the whole text. -/
theorem look_limits (p : Policy) (d w : Int) (place : Place) (opened : Bool) (depth : Int) :
    ∀ v : Value, look { p with depthLimit := d, wholeLimit := w } place opened depth v =
      look p place opened depth v
  | .absent | .unsupported | .faulty _ | .broken .seq _ | .broken .record _ | .broken .map _ => rfl
  | .scalar s => by cases s <;> rfl
  | .special s => by cases s <;> rfl
  | .optional v => by rw [look, look, look_limits p d w place true depth v]
  | .dynamic v => by rw [look, look, look_limits p d w .root false _ v]
  | .record fs => by rw [look, look, fields_limits p d w _ fs]
  | .map es => by rw [look, look, entries_limits p d w _ es]
  | .seq n vs => by rw [look, look, items_limits p d w depth vs]

theorem fields_limits (p : Policy) (d w depth : Int) : ∀ (fs : List (Descriptor × Value))
    (out : Entries Tree),
    fields { p with depthLimit := d, wholeLimit := w } depth out fs = fields p depth out fs
  | [], _ => rfl
  | (c, v) :: rest, out => by
    rw [fields, fields, look_limits p d w .field false depth v]
    simp only [fields_limits p d w depth rest]
    rfl

theorem entries_limits (p : Policy) (d w depth : Int) : ∀ (es : List (String × Value))
    (out : Entries Tree),
    entries { p with depthLimit := d, wholeLimit := w } depth out es = entries p depth out es
  | [], _ => rfl
  | (k, v) :: rest, out => by
    rw [entries, entries, look_limits p d w .entry false depth v]
    simp only [entries_limits p d w depth rest]
    rfl

theorem items_limits (p : Policy) (d w depth : Int) : ∀ (vs : List Value) (n : Nat),
    items { p with depthLimit := d, wholeLimit := w } depth n vs = items p depth n vs
  | _, 0 => by rw [items, items]
  | [], n + 1 => by rw [items_nil, items_nil]
  | v :: rest, n + 1 => by
    rw [items, items, look_limits p d w .item false depth v, items_limits p d w depth rest]

end

/-- The limit of levels counts where the traversal begins, and nowhere else. -/
theorem look_depthLimit (p : Policy) (d : Int) (place : Place) (opened : Bool) (depth : Int)
    (v : Value) : look { p with depthLimit := d } place opened depth v =
      look p place opened depth v :=
  look_limits p d p.wholeLimit place opened depth v

theorem trim_depthLimit (p : Policy) (d : Int) (v : Value) :
    v.trim { p with depthLimit := d } = (look p .root false d v).map Seen.tree :=
  congrArg (Except.map Seen.tree) (look_depthLimit p d .root false d v)

/-- The limit of the whole text has no part in the tree of a value. -/
theorem trim_wholeLimit (p : Policy) (w : Int) (v : Value) :
    v.trim { p with wholeLimit := w } = v.trim p :=
  congrArg (Except.map Seen.tree) (look_limits p p.depthLimit w .root false p.depthLimit v)

end Abridge

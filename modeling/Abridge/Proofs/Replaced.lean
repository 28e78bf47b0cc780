import Mathlib.Logic.Relation
import Abridge.Proofs.Contained
import Abridge.Proofs.Overwritten

/-!
Parts that are replaced. Two values are alike at a spot if a look sees the same of them, or panics
alike. What is seen of a container comes from what is seen of its parts and from nothing else in
them, so a value stays alike when a part of it gives way to one that is alike at the spot of that
part, and the whole has the same tree as before, or the same panic.
-/
namespace Abridge

/-! ### Alike -/

/-- What is seen, without the claimed length of a sequence that shows no items: nobody is told. -/
def Seen.gist : Seen → Seen
  | .list _ [] => .list 0 []
  | s => s

namespace Seen

theorem tree_gist (s : Seen) : s.gist.tree = s.tree := by
  cases s with
  | list n ts => cases ts <;> rfl
  | _ => rfl

theorem asField_gist (s : Seen) (name : String) (out : Entries Tree) :
    s.gist.asField name out = s.asField name out := by
  cases s with
  | list n ts => cases ts <;> rfl
  | _ => rfl

theorem asEntry_gist (s : Seen) (key : String) (out : Entries Tree) :
    s.gist.asEntry key out = s.asEntry key out := by
  cases s with
  | list n ts => cases ts <;> rfl
  | _ => rfl

theorem asItem_gist (s : Seen) : s.gist.asItem = s.asItem := by
  cases s with
  | list n ts => cases ts <;> rfl
  | _ => rfl

end Seen

/-- A look from the spot sees the same of both values, or panics alike. -/
def Spot.Alike (p : Policy) (a : Spot) (v w : Value) : Prop :=
  (look p a.place a.opened a.depth v).map Seen.gist =
    (look p a.place a.opened a.depth w).map Seen.gist

namespace Spot.Alike

variable {p : Policy} {a : Spot} {v w : Value}

theorem of_look_eq (h : look p a.place a.opened a.depth v = look p a.place a.opened a.depth w) :
    a.Alike p v w :=
  congrArg _ h

/-- Whatever comes next, if it asks for no more than what counts, it comes out alike. -/
theorem bind_eq (h : a.Alike p v w) {α : Type} {next : Seen → Except Fault α}
    (hnext : ∀ s, next s.gist = next s) :
    (look p a.place a.opened a.depth v).bind next =
      (look p a.place a.opened a.depth w).bind next := by
  have hgist : ∀ x : Except Fault Seen, (x.map Seen.gist).bind next = x.bind next := by
    intro x
    cases x with
    | error f => rfl
    | ok s => exact hnext s
  rw [← hgist, h, hgist]

theorem map_tree_eq (h : a.Alike p v w) {α : Type} (g : Tree → α) :
    (look p a.place a.opened a.depth v).map (fun s => g s.tree) =
      (look p a.place a.opened a.depth w).map fun s => g s.tree := by
  have hgist : ∀ x : Except Fault Seen,
      (x.map Seen.gist).map (fun s => g s.tree) = x.map fun s => g s.tree := by
    intro x
    cases x with
    | error f => rfl
    | ok s => exact congrArg (fun t => Except.ok (g t)) s.tree_gist
  rw [← hgist, h, hgist]

theorem trim_eq (h : p.start.Alike p v w) : v.trim p = w.trim p := h.map_tree_eq id

end Spot.Alike

/-! ### Alike among others -/

theorem entries_append (p : Policy) (depth : Int) (as bs : List (String × Value))
    (out : Entries Tree) : entries p depth out (as ++ bs) =
      (entries p depth out as).bind fun mid => entries p depth mid bs := by
  induction as generalizing out with
  | nil => rfl
  | cons e as ih =>
    obtain ⟨k, v⟩ := e
    rw [List.cons_append, entries, entries]
    split
    · cases look p .entry false depth v with
      | error f => rfl
      | ok s => exact ih _
    · exact ih out

section Among

variable {p : Policy} {depth : Int} {v w : Value}

theorem fields_alike (h : Spot.Alike p ⟨.field, false, depth⟩ v w)
    (as : List (Descriptor × Value)) (d : Descriptor) (bs : List (Descriptor × Value))
    (out : Entries Tree) :
    fields p depth out (as ++ (d, v) :: bs) = fields p depth out (as ++ (d, w) :: bs) := by
  rw [fields_append, fields_append]
  refine congrArg _ (funext fun mid => ?_)
  cases hd : p.shows d with
  | false => rw [fields_cons_of_hidden hd, fields_cons_of_hidden hd]
  | true =>
    obtain ⟨name, hname, hp⟩ := (Option.any_eq_true ..).mp hd
    rw [fields_cons_of_shown hname hp, fields_cons_of_shown hname hp]
    exact h.bind_eq fun s => by rw [Seen.asField_gist]

theorem entries_alike (h : Spot.Alike p ⟨.entry, false, depth⟩ v w)
    (as : List (String × Value)) (k : String) (bs : List (String × Value)) (out : Entries Tree) :
    entries p depth out (as ++ (k, v) :: bs) = entries p depth out (as ++ (k, w) :: bs) := by
  rw [entries_append, entries_append]
  refine congrArg _ (funext fun mid => ?_)
  cases hk : p.isVisible k with
  | false => rw [entries_cons_of_hidden hk, entries_cons_of_hidden hk]
  | true =>
    rw [entries_cons_of_shown hk, entries_cons_of_shown hk]
    exact h.bind_eq fun s => by rw [Seen.asEntry_gist]

theorem items_alike (h : Spot.Alike p ⟨.item, false, depth⟩ v w) (as bs : List Value) (n : Nat) :
    items p depth n (as ++ v :: bs) = items p depth n (as ++ w :: bs) := by
  induction as generalizing n with
  | nil =>
    cases n with
    | zero => rw [items, items]
    | succ n =>
      rw [List.nil_append, List.nil_append, items, items]
      exact h.bind_eq fun s => by rw [Seen.asItem_gist]
  | cons u as ih =>
    cases n with
    | zero => rw [items, items]
    | succ n => rw [List.cons_append, List.cons_append, items, items, ih n]

end Among

/-! ### One part replaced -/

/-- `Replaced R a v w`: the value `w` at the spot `a` is `v` but for one part, which `R` relates at
the spot where it stands. -/
inductive Replaced (R : Spot → Value → Value → Prop) : Spot → Value → Value → Prop
  | here {a v w} : R a v w → Replaced R a v w
  | optional {a v w} : Replaced R ⟨a.place, true, a.depth⟩ v w →
    Replaced R a (.optional v) (.optional w)
  | dynamic {a v w} : Replaced R ⟨.root, false, a.place.dynamicDepth a.depth⟩ v w →
    Replaced R a (.dynamic v) (.dynamic w)
  | field {a d v w as bs} : Replaced R ⟨.field, false, spend a.depth⟩ v w →
    Replaced R a (.record (as ++ (d, v) :: bs)) (.record (as ++ (d, w) :: bs))
  | entry {a k v w as bs} : Replaced R ⟨.entry, false, spend a.depth⟩ v w →
    Replaced R a (.map (as ++ (k, v) :: bs)) (.map (as ++ (k, w) :: bs))
  | item {a n v w as bs} : Replaced R ⟨.item, false, a.depth⟩ v w →
    Replaced R a (.seq n (as ++ v :: bs)) (.seq n (as ++ w :: bs))

/-- If the part stays alike, so does the whole. -/
theorem Replaced.alike {p : Policy} {R : Spot → Value → Value → Prop} {a : Spot} {v w : Value}
    (h : Replaced R a v w) (hR : ∀ b x y, Inside v x → R b x y → b.Alike p x y) :
    a.Alike p v w := by
  induction h with
  | here hvw => exact hR _ _ _ .here hvw
  | @optional a v w _ ih =>
    have hin := ih fun b x y hx => hR b x y (.optional hx)
    rw [Spot.Alike, look, look]
    split
    · rfl
    · exact hin
  | @dynamic a v w _ ih =>
    have hin := ih fun b x y hx => hR b x y (.dynamic hx)
    refine .of_look_eq ?_
    rw [look, look]
    exact hin.map_tree_eq Seen.boxed
  | @field a d v w as bs _ ih =>
    have hm : (d, v) ∈ as ++ (d, v) :: bs := List.mem_append_right _ List.mem_cons_self
    have hin := ih fun b x y hx => hR b x y (.field hm hx)
    refine .of_look_eq ?_
    rw [look, look, fields_alike hin]
  | @entry a k v w as bs _ ih =>
    have hm : (k, v) ∈ as ++ (k, v) :: bs := List.mem_append_right _ List.mem_cons_self
    have hin := ih fun b x y hx => hR b x y (.entry hm hx)
    refine .of_look_eq ?_
    rw [look, look, entries_alike hin]
  | @item a n v w as bs _ ih =>
    have hm : v ∈ as ++ v :: bs := List.mem_append_right _ List.mem_cons_self
    have hin := ih fun b x y hx => hR b x y (.item hm hx)
    refine .of_look_eq ?_
    rw [look, look, items_alike hin]

/-- A relation that asks of a spot only whether an option has been opened there relates parts of a
value wherever the value stands, however many levels are left. -/
theorem Replaced.at_spot {R : Spot → Value → Value → Prop}
    (hR : ∀ a b x y, a.opened = b.opened → R a x y → R b x y) {a : Spot} {v w : Value}
    (h : Replaced R a v w) {b : Spot} (hab : a.opened = b.opened) : Replaced R b v w := by
  induction h generalizing b with
  | here hvw => exact .here (hR _ _ _ _ hab hvw)
  | optional _ ih => exact .optional (ih rfl)
  | dynamic _ ih => exact .dynamic (ih rfl)
  | field _ ih => exact .field (ih rfl)
  | entry _ ih => exact .entry (ih rfl)
  | item _ ih => exact .item (ih rfl)

theorem Replaced.run_at_spot {R : Spot → Value → Value → Prop}
    (hR : ∀ a b x y, a.opened = b.opened → R a x y → R b x y) {a b : Spot} {v w : Value}
    (h : Relation.ReflTransGen (Replaced R a) v w) (hab : a.opened = b.opened) :
    Relation.ReflTransGen (Replaced R b) v w := by
  have hstep : ∀ x y, Replaced R a x y → Replaced R b x y := fun _ _ hxy => hxy.at_spot hR hab
  exact Relation.ReflTransGen.mono hstep _ _ h

section Run

variable {p : Policy} {R : Spot → Value → Value → Prop} {v w : Value}

/-- One part after the other, any number of them. What makes a replacement alike may be a property
of the whole value, if every replacement keeps it. -/
theorem trim_eq_of_kept_replaced {P : Value → Prop}
    (hkeep : ∀ v w, P v → Replaced R p.start v w → P w)
    (hR : ∀ v, P v → ∀ b x y, Inside v x → R b x y → b.Alike p x y) (hv : P v)
    (h : Relation.ReflTransGen (Replaced R p.start) v w) : v.trim p = w.trim p := by
  have run : P w ∧ v.trim p = w.trim p := by
    induction h with
    | refl => exact ⟨hv, rfl⟩
    | tail _ hstep ih =>
      obtain ⟨hmid, heq⟩ := ih
      exact ⟨hkeep _ _ hmid hstep, heq.trans (hstep.alike (hR _ hmid)).trim_eq⟩
  exact run.2

theorem trim_eq_of_replaced (hR : ∀ b x y, R b x y → b.Alike p x y)
    (h : Relation.ReflTransGen (Replaced R p.start) v w) : v.trim p = w.trim p := by
  have anything : (fun _ : Value => True) v := trivial
  exact trim_eq_of_kept_replaced (fun _ _ _ _ => trivial) (fun _ _ b x y _ => hR b x y) anything h

end Run

end Abridge

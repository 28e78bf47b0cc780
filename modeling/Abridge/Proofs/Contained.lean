import Abridge.Proofs.Hidden
import Abridge.Proofs.Log
import Abridge.Proofs.Parts
import Abridge.Report

/-!
Which panic ends a traversal. Positions in a value are paths of indices, and the traversal comes to
them in their lexicographic order, so a trimming fails exactly if one of the positions that it
comes to panics, and with the panic of the first one. It comes to no hidden field or entry, to no
item beyond the window, into no sequence that is itself an item, into no record or map without a
level left, and below no two options.
-/
namespace Abridge

/-- Where a value stands that is looked at: its place, whether an option has been opened just
before, and the levels left. -/
structure Spot where
  place : Place
  opened : Bool
  depth : Int

/-- `v.Holds u`: the value `u` stands directly in `v`. -/
inductive Value.Holds : Value → Value → Prop
  | optional {u} : Holds (.optional u) u
  | dynamic {u} : Holds (.dynamic u) u
  | field {d u fs} : (d, u) ∈ fs → Holds (.record fs) u
  | entry {k u es} : (k, u) ∈ es → Holds (.map es) u
  | item {n u vs} : u ∈ vs → Holds (.seq n vs) u

theorem Value.Holds.inside {v u w : Value} (h : v.Holds u) (hw : Inside u w) : Inside v w := by
  cases h with
  | optional => exact .optional hw
  | dynamic => exact .dynamic hw
  | field hm => exact .field hm hw
  | entry hm => exact .entry hm hw
  | item hm => exact .item hm hw

/-- Induction over a value that may assume the property of all that stands directly in it. -/
@[elab_as_elim]
theorem Value.holds_induction {motive : Value → Prop}
    (step : ∀ v : Value, (∀ u, v.Holds u → motive u) → motive v) (v : Value) : motive v := by
  induction v with
  | absent | unsupported | scalar | special | faulty | broken =>
    exact step _ fun u hu => nomatch hu
  | optional v ih | dynamic v ih =>
    refine step _ fun u hu => ?_
    cases hu
    exact ih
  | record fs ih =>
    refine step _ fun u hu => ?_
    cases hu with
    | field hm => exact ih _ u hm
  | map es ih =>
    refine step _ fun u hu => ?_
    cases hu with
    | entry hm => exact ih _ u hm
  | seq n vs ih =>
    refine step _ fun u hu => ?_
    cases hu with
    | item hm => exact ih u hm

/-- The panic that ended a step, if one did. -/
def faultOf {α : Type} : Except Fault α → Option Fault
  | .ok _ => none
  | .error f => some f

theorem faultOf_map {α β : Type} (g : α → β) (x : Except Fault α) :
    faultOf (x.map g) = faultOf x := by
  cases x <;> rfl

theorem faultOf_eq_some_iff {α : Type} {x : Except Fault α} {f : Fault} :
    faultOf x = some f ↔ x = .error f := by
  cases x <;> simp [faultOf]

theorem faultOf_eq_none_iff {α : Type} {x : Except Fault α} :
    faultOf x = none ↔ ∃ y, x = .ok y := by
  cases x <;> simp [faultOf]

namespace Spot

/-! ### Where the traversal goes -/

def ofField (p : Policy) (depth : Int) (f : Descriptor × Value) : Option (Spot × Value) :=
  if p.shows f.1 then some (⟨.field, false, depth⟩, f.2) else none

def ofEntry (p : Policy) (depth : Int) (e : String × Value) : Option (Spot × Value) :=
  if p.isVisible e.1 then some (⟨.entry, false, depth⟩, e.2) else none

def ofItem (depth : Int) (v : Value) : Option (Spot × Value) := some (⟨.item, false, depth⟩, v)

/-- The values that a look goes on to, in order; one that it passes over leaves its position. -/
def visits (p : Policy) (a : Spot) : Value → List (Option (Spot × Value))
  | .optional v => if a.opened then [] else [some (⟨a.place, true, a.depth⟩, v)]
  | .dynamic v => [some (⟨.root, false, a.place.dynamicDepth a.depth⟩, v)]
  | .record fs => if spend a.depth ≤ 0 then [] else fs.map (ofField p (spend a.depth))
  | .map es => if spend a.depth ≤ 0 then [] else es.map (ofEntry p (spend a.depth))
  | .seq n vs =>
    if a.place = .item ∨ p.arrayLimit ≤ 0 ∨ n = 0 then []
    else (vs.take p.arrayLimit.toNat).map (ofItem a.depth)
  | _ => []

/-- `a.GoesOn p v b u`: a look at `v` from `a` goes on to `u` at `b`. -/
inductive GoesOn (p : Policy) (a : Spot) : Value → Spot → Value → Prop
  | optional {u} : a.opened = false → GoesOn p a (.optional u) ⟨a.place, true, a.depth⟩ u
  | dynamic {u} : GoesOn p a (.dynamic u) ⟨.root, false, a.place.dynamicDepth a.depth⟩ u
  | field {d u fs} : 0 < spend a.depth → (d, u) ∈ fs → p.shows d = true →
    GoesOn p a (.record fs) ⟨.field, false, spend a.depth⟩ u
  | entry {k u es} : 0 < spend a.depth → (k, u) ∈ es → p.isVisible k = true →
    GoesOn p a (.map es) ⟨.entry, false, spend a.depth⟩ u
  | item {n u vs} : a.place ≠ .item → 0 < p.arrayLimit → n ≠ 0 → u ∈ vs.take p.arrayLimit.toNat →
    GoesOn p a (.seq n vs) ⟨.item, false, a.depth⟩ u

theorem mem_visits_iff {p : Policy} {a b : Spot} {v u : Value} :
    some (b, u) ∈ a.visits p v ↔ a.GoesOn p v b u := by
  constructor
  · intro h
    cases v with
    | absent | unsupported | faulty | scalar | special | broken => cases h
    | optional v =>
      rw [visits] at h
      split at h
      · cases h
      · rename_i ho
        cases List.mem_singleton.mp h
        exact .optional (by simpa using ho)
    | dynamic v =>
      cases List.mem_singleton.mp h
      exact .dynamic
    | record fs =>
      rw [visits] at h
      split at h
      · cases h
      · obtain ⟨⟨d, w⟩, hm, hw⟩ := List.mem_map.mp h
        rw [ofField] at hw
        split at hw
        · cases hw
          exact .field (by omega) hm ‹_›
        · cases hw
    | map es =>
      rw [visits] at h
      split at h
      · cases h
      · obtain ⟨⟨k, w⟩, hm, hw⟩ := List.mem_map.mp h
        rw [ofEntry] at hw
        split at hw
        · cases hw
          exact .entry (by omega) hm ‹_›
        · cases hw
    | seq n vs =>
      rw [visits] at h
      split at h
      · cases h
      · rename_i hasked
        obtain ⟨hplace, hasked⟩ := not_or.mp hasked
        obtain ⟨hlimit, hn⟩ := not_or.mp hasked
        obtain ⟨w, hm, hw⟩ := List.mem_map.mp h
        cases hw
        exact .item hplace (by omega) hn hm
  · intro h
    cases h with
    | optional ho =>
      rw [visits, if_neg (by simp [ho])]
      exact List.mem_singleton_self _
    | dynamic => exact List.mem_singleton_self _
    | field hdepth hm hshown =>
      rw [visits, if_neg (by omega)]
      exact List.mem_map.mpr ⟨_, hm, if_pos hshown⟩
    | entry hdepth hm hvisible =>
      rw [visits, if_neg (by omega)]
      exact List.mem_map.mpr ⟨_, hm, if_pos hvisible⟩
    | item hplace hlimit hn hm =>
      rw [visits, if_neg (not_or.mpr ⟨hplace, not_or.mpr ⟨by omega, hn⟩⟩)]
      exact List.mem_map.mpr ⟨_, hm, rfl⟩

/-- The value at a position, and where it stands, if the traversal comes there. -/
def reached? (p : Policy) (a : Spot) (v : Value) : List Nat → Option (Spot × Value)
  | [] => some (a, v)
  | i :: path =>
    match (a.visits p v)[i]? with
    | some (some (b, u)) => b.reached? p u path
    | _ => none

/-! ### What panics -/

/-- The panic of asking the value for its shape, or for its content where that is asked for. -/
def adapter? (p : Policy) (a : Spot) : Value → Option Fault
  | .faulty f => some f
  | .broken .seq f => if a.place = .item ∨ p.arrayLimit ≤ 0 then none else some f
  | .broken _ f => if spend a.depth ≤ 0 then none else some f
  | _ => none

/-- Is there no room for the items to be kept? -/
def overfull (p : Policy) (a : Spot) : Value → Bool
  | .seq n _ => decide (a.place ≠ .item) && decide (maxRoom < min p.arrayLimit.toNat n)
  | _ => false

/-- The panic at the value itself, whatever is in it. -/
def panic? (p : Policy) (a : Spot) (v : Value) : Option Fault :=
  if a.overfull p v then some noRoom else a.adapter? p v

/-- The panic at a position that the traversal comes to. -/
def panicAt? (p : Policy) (a : Spot) (v : Value) (path : List Nat) : Option Fault :=
  (a.reached? p v path).bind fun s => s.1.panic? p s.2

/-- The order of traversal: a value comes before what is in it, and what is in it in its order. -/
def Before (path other : List Nat) : Prop := List.Lex (· < ·) path other

/-- Of all positions with a panic, `f` is that of the first one. -/
def FirstOf (panicOf? : List Nat → Option Fault) (f : Fault) : Prop :=
  ∃ path, panicOf? path = some f ∧ ∀ other g, panicOf? other = some g → ¬ Before other path

theorem FirstOf.unique {panicOf? : List Nat → Option Fault} {f g : Fault}
    (hf : FirstOf panicOf? f) (hg : FirstOf panicOf? g) : f = g := by
  obtain ⟨path, hpath, hfirst⟩ := hf
  obtain ⟨other, hother, hfirst'⟩ := hg
  have heq : path = other :=
    List.lex_trichotomous (fun _ _ => by omega) (hfirst other g hother) (hfirst' path f hpath)
  rw [heq, hother] at hpath
  exact (Option.some.inj hpath).symm

/-- The panic `f` is that of the first position that panics. -/
def PanicsFirst (p : Policy) (a : Spot) (v : Value) (f : Fault) : Prop :=
  FirstOf (a.panicAt? p v) f

/-- The panic that ends a look. -/
def fault? (p : Policy) (a : Spot) (v : Value) : Option Fault :=
  faultOf (look p a.place a.opened a.depth v)

/-- The first panic of several looks, one after the other. -/
def firstFault (p : Policy) (xs : List (Option (Spot × Value))) : Option Fault :=
  xs.findSome? fun x => x.bind fun s => s.1.fault? p s.2

/-! ### One look -/

theorem faultOf_bind {α β : Type} (x : Except Fault α) {next : α → Except Fault β}
    {r : Option Fault} (h : ∀ y, faultOf (next y) = r) :
    faultOf (x.bind next) = (faultOf x).or r := by
  cases x with
  | error f => rfl
  | ok y => exact h y

theorem firstFault_cons (p : Policy) (x : Option (Spot × Value))
    (xs : List (Option (Spot × Value))) :
    firstFault p (x :: xs) = (x.bind fun s => s.1.fault? p s.2).or (firstFault p xs) := by
  rw [firstFault, List.findSome?_cons]
  cases x.bind fun s => s.1.fault? p s.2 <;> rfl

theorem faultOf_fields (p : Policy) (depth : Int) (fs : List (Descriptor × Value))
    (out : Entries Tree) :
    faultOf (fields p depth out fs) = firstFault p (fs.map (ofField p depth)) := by
  induction fs generalizing out with
  | nil => rfl
  | cons f rest ih =>
    obtain ⟨d, v⟩ := f
    rw [List.map_cons, firstFault_cons]
    cases hd : p.shows d with
    | false =>
      have hpassed : ofField p depth (d, v) = none := if_neg (by simp [hd])
      rw [fields_cons_of_hidden hd, hpassed]
      exact ih out
    | true =>
      have hvisit : ofField p depth (d, v) = some (⟨.field, false, depth⟩, v) := if_pos hd
      obtain ⟨name, hname, hp⟩ := (Option.any_eq_true ..).mp hd
      rw [fields_cons_of_shown hname hp, hvisit]
      exact faultOf_bind _ fun s => ih (s.asField name out)

theorem faultOf_entries (p : Policy) (depth : Int) (es : List (String × Value))
    (out : Entries Tree) :
    faultOf (entries p depth out es) = firstFault p (es.map (ofEntry p depth)) := by
  induction es generalizing out with
  | nil => rfl
  | cons e rest ih =>
    obtain ⟨k, v⟩ := e
    rw [List.map_cons, firstFault_cons]
    cases hk : p.isVisible k with
    | false =>
      have hpassed : ofEntry p depth (k, v) = none := if_neg (by simp [hk])
      rw [entries_cons_of_hidden hk, hpassed]
      exact ih out
    | true =>
      have hvisit : ofEntry p depth (k, v) = some (⟨.entry, false, depth⟩, v) := if_pos hk
      rw [entries_cons_of_shown hk, hvisit]
      exact faultOf_bind _ fun s => ih (s.asEntry k out)

theorem faultOf_items (p : Policy) (depth : Int) (vs : List Value) (n : Nat) :
    faultOf (items p depth n vs) = firstFault p ((vs.take n).map (ofItem depth)) := by
  induction vs generalizing n with
  | nil => rw [items_nil, List.take_nil]; rfl
  | cons v rest ih =>
    cases n with
    | zero => rw [items]; rfl
    | succ n =>
      rw [items, List.take_succ_cons, List.map_cons, firstFault_cons]
      refine faultOf_bind _ fun s => ?_
      rw [← ih n]
      exact faultOf_map _ (items p depth n rest)

theorem fault?_seq (p : Policy) (a : Spot) (n : Nat) (vs : List Value) :
    a.fault? p (.seq n vs) =
      (a.panic? p (.seq n vs)).or (firstFault p (a.visits p (.seq n vs))) := by
  have hown : a.panic? p (.seq n vs) =
      if a.place ≠ .item ∧ maxRoom < min p.arrayLimit.toNat n then some noRoom else none := by
    simp [panic?, overfull, adapter?]
  rw [hown, fault?, look, visits]
  by_cases hitem : a.place = .item
  · rw [if_pos hitem, if_neg fun h => h.1 hitem, if_pos (Or.inl hitem)]
    rfl
  · by_cases hempty : p.arrayLimit ≤ 0 ∨ n = 0
    · rw [if_neg hitem, if_pos hempty, if_neg (by omega), if_pos (Or.inr hempty)]
      rfl
    · rw [if_neg hitem, if_neg hempty, if_neg (not_or.mpr ⟨hitem, hempty⟩)]
      by_cases hroom : maxRoom < min p.arrayLimit.toNat n
      · rw [if_pos hroom, if_pos ⟨hitem, hroom⟩]
        rfl
      · rw [if_neg hroom, if_neg fun h => hroom h.2, faultOf_map, faultOf_items, Option.none_or]

/-- A value whose content panics is asked for it only where its content counts. -/
theorem fault?_broken (p : Policy) (a : Spot) (kind : ContainerKind) (f : Fault) :
    a.fault? p (.broken kind f) = a.adapter? p (.broken kind f) := by
  cases kind with
  | seq =>
    rw [fault?, look, adapter?]
    by_cases hitem : a.place = .item
    · rw [if_pos hitem, if_pos (Or.inl hitem)]
      rfl
    · by_cases hlimit : p.arrayLimit ≤ 0
      · rw [if_neg hitem, if_pos hlimit, if_pos (Or.inr hlimit)]
        rfl
      · rw [if_neg hitem, if_neg hlimit, if_neg (not_or.mpr ⟨hitem, hlimit⟩)]
        rfl
  | record | map =>
    change faultOf (look p a.place a.opened a.depth _) = if spend a.depth ≤ 0 then none else some f
    rw [look]
    · split <;> rfl
    · simp

/-- A look panics at the value itself, or else with the first panic of the looks that it goes on
to. -/
theorem fault?_eq (p : Policy) (a : Spot) (v : Value) :
    a.fault? p v = (a.panic? p v).or (firstFault p (a.visits p v)) := by
  cases v with
  | absent | unsupported | faulty | scalar | special => rfl
  | optional v =>
    have hown : a.panic? p (.optional v) = none := rfl
    rw [hown, fault?, look, visits, Option.none_or]
    split
    · rfl
    · rw [firstFault_cons]
      exact (Option.or_none ..).symm
  | dynamic v =>
    have hown : a.panic? p (.dynamic v) = none := rfl
    rw [hown, fault?, look, visits, Option.none_or, firstFault_cons, faultOf_map]
    exact (Option.or_none ..).symm
  | record fs =>
    have hown : a.panic? p (.record fs) = none := rfl
    rw [hown, fault?, look, visits, Option.none_or]
    split
    · rfl
    · rw [faultOf_map, faultOf_fields]
  | map es =>
    have hown : a.panic? p (.map es) = none := rfl
    rw [hown, fault?, look, visits, Option.none_or]
    split
    · rfl
    · rw [faultOf_map, faultOf_entries]
  | seq n vs => exact fault?_seq p a n vs
  | broken kind f =>
    rw [fault?_broken]
    exact (Option.or_none ..).symm

/-! ### Positions -/

theorem panicAt?_cons (p : Policy) (a : Spot) (v : Value) (i : Nat) (path : List Nat) :
    a.panicAt? p v (i :: path) =
      ((a.visits p v)[i]?).join.bind fun s => s.1.panicAt? p s.2 path := by
  rw [panicAt?, reached?]
  cases (a.visits p v)[i]? with
  | none => rfl
  | some x => cases x <;> rfl

/-- If no look at what comes next panics, no position below does. -/
theorem panicAt?_cons_eq_none {p : Policy} {a : Spot} {v : Value} {i : Nat}
    (h : ∀ b u, (a.visits p v)[i]? = some (some (b, u)) → ∀ path, b.panicAt? p u path = none)
    (path : List Nat) : a.panicAt? p v (i :: path) = none := by
  rw [panicAt?_cons]
  cases hi : (a.visits p v)[i]? with
  | none => rfl
  | some x =>
    cases x with
    | none => rfl
    | some s => exact h s.1 s.2 hi path

/-- What a look comes to next, it finds in the value. -/
theorem holds_of_mem_visits {p : Policy} {a b : Spot} {v u : Value}
    (h : some (b, u) ∈ a.visits p v) : v.Holds u := by
  cases mem_visits_iff.mp h with
  | optional _ => exact .optional
  | dynamic => exact .dynamic
  | field _ hm _ => exact .field hm
  | entry _ hm _ => exact .entry hm
  | item _ _ _ hm => exact .item (List.mem_of_mem_take hm)

/-- The first panic below a look is the first one of the first look that panics after it. -/
theorem PanicsFirst.cons {p : Policy} {a b : Spot} {v u : Value} {f : Fault}
    {before after : List (Option (Spot × Value))} (hown : a.panic? p v = none)
    (hsplit : a.visits p v = before ++ some (b, u) :: after)
    (hbefore : ∀ c w, some (c, w) ∈ before → ∀ path, c.panicAt? p w path = none)
    (h : b.PanicsFirst p u f) : a.PanicsFirst p v f := by
  obtain ⟨path, hpath, hfirst⟩ := h
  have hat : (a.visits p v)[before.length]? = some (some (b, u)) := by simp [hsplit]
  have hbelow : ∀ path, a.panicAt? p v (before.length :: path) = b.panicAt? p u path := by
    intro path
    rw [panicAt?_cons, hat]
    rfl
  refine ⟨before.length :: path, (hbelow path).trans hpath, fun other g hg => ?_⟩
  cases other with
  | nil =>
    have : a.panic? p v = some g := hg
    rw [hown] at this
    cases this
  | cons j other =>
    rcases Nat.lt_trichotomy j before.length with hj | rfl | hj
    · have hnone : a.panicAt? p v (j :: other) = none := by
        refine panicAt?_cons_eq_none (fun c w hc => hbefore c w ?_) other
        rw [hsplit, List.getElem?_append_left hj] at hc
        exact List.mem_of_getElem? hc
      rw [hnone] at hg
      cases hg
    · rw [hbelow] at hg
      have hother := hfirst other g hg
      rw [Before, List.cons_lex_cons_iff]
      rintro (hlt | ⟨_, hlt⟩)
      · omega
      · exact hother hlt
    · rw [Before, List.cons_lex_cons_iff]
      omega

/-- A look that does not panic comes to no position that does; one that does, panics with the first
position that does. -/
structure Exact (p : Policy) (a : Spot) (v : Value) : Prop where
  calm : a.fault? p v = none → ∀ path, a.panicAt? p v path = none
  first : ∀ f, a.fault? p v = some f → a.PanicsFirst p v f

/-- What holds of the looks that come next holds of a look. -/
theorem Exact.of_visits {p : Policy} {a : Spot} {v : Value}
    (ih : ∀ b u, some (b, u) ∈ a.visits p v → Exact p b u) : Exact p a v where
  calm := by
    intro h path
    rw [fault?_eq] at h
    obtain ⟨hown, hnext⟩ := Option.or_eq_none_iff.mp h
    cases path with
    | nil => exact hown
    | cons i path =>
      refine panicAt?_cons_eq_none (fun b u hi => ?_) path
      have hm := List.mem_of_getElem? hi
      exact (ih b u hm).calm (List.findSome?_eq_none_iff.mp hnext _ hm)
  first := by
    intro f h
    rw [fault?_eq] at h
    rcases Option.or_eq_some_iff.mp h with hown | ⟨hown, hnext⟩
    · exact ⟨[], hown, fun _ _ _ => List.not_lex_nil⟩
    · -- The looks before the first that panics are calm, so that nothing below them panics.
      obtain ⟨before, x, after, hsplit, hx, hbefore⟩ := List.findSome?_eq_some_iff.mp hnext
      obtain ⟨⟨b, u⟩, rfl, hu⟩ := Option.bind_eq_some_iff.mp hx
      have hmem : ∀ x, x ∈ before → x ∈ a.visits p v := fun x hx => by simp [hsplit, hx]
      have hnext : some (b, u) ∈ a.visits p v := by simp [hsplit]
      refine .cons hown hsplit (fun c w hc => ?_) ((ih b u hnext).first f hu)
      exact (ih c w (hmem _ hc)).calm (hbefore _ hc)

theorem look_exact (p : Policy) (a : Spot) (v : Value) : Exact p a v := by
  induction v using Value.holds_induction generalizing a with
  | step v ih => exact .of_visits fun b u h => ih u (holds_of_mem_visits h) b

/-- A look panics with the panic of the first position that panics, if there is one. -/
theorem fault?_eq_some_iff {p : Policy} {a : Spot} {v : Value} {f : Fault} :
    a.fault? p v = some f ↔ a.PanicsFirst p v f := by
  refine ⟨(look_exact p a v).first f, fun h => ?_⟩
  cases hlook : a.fault? p v with
  | none =>
    obtain ⟨path, hpath, _⟩ := h
    rw [(look_exact p a v).calm hlook path] at hpath
    cases hpath
  | some g => rw [FirstOf.unique h ((look_exact p a v).first g hlook)]

theorem fault?_eq_none_iff {p : Policy} {a : Spot} {v : Value} :
    a.fault? p v = none ↔ ∀ path, a.panicAt? p v path = none := by
  refine ⟨(look_exact p a v).calm, fun h => ?_⟩
  cases hlook : a.fault? p v with
  | none => rfl
  | some f =>
    obtain ⟨path, hpath, _⟩ := (look_exact p a v).first f hlook
    rw [h path] at hpath
    cases hpath

theorem inside_of_reached? {p : Policy} {b : Spot} {w : Value} {path : List Nat} :
    ∀ {a : Spot} {v : Value}, a.reached? p v path = some (b, w) → Inside v w := by
  induction path with
  | nil =>
    intro a v h
    cases h
    exact .here
  | cons i path ih =>
    intro a v h
    rw [reached?] at h
    split at h
    · rename_i c u hi
      exact (holds_of_mem_visits (List.mem_of_getElem? hi)).inside (ih h)
    · cases h

theorem overfull_iff {p : Policy} {a : Spot} {v : Value} : a.overfull p v = true ↔
    a.place ≠ .item ∧ ∃ n vs, v = .seq n vs ∧ maxRoom < min p.arrayLimit.toNat n := by
  cases v <;> simp [overfull]

/-- The panic at a value is its adapter's, or there is no room for its items. -/
theorem panic?_eq_some_iff {p : Policy} {a : Spot} {v : Value} {f : Fault} :
    a.panic? p v = some f ↔ a.adapter? p v = some f ∨ a.overfull p v = true ∧ f = noRoom := by
  rw [panic?]
  split
  · rename_i hfull
    obtain ⟨_, n, vs, rfl, _⟩ := overfull_iff.mp hfull
    -- The adapter of a sequence that is too long answers.
    have hcalm : a.adapter? p (.seq n vs) = none := rfl
    rw [hcalm]
    simp [hfull, eq_comm]
  · rename_i hfull
    simp [hfull]

end Spot

/-! ### The whole value -/

/-- Where the traversal begins. -/
def Policy.start (p : Policy) : Spot := ⟨.root, false, p.depthLimit⟩

theorem fault?_start (p : Policy) (v : Value) : p.start.fault? p v = faultOf (v.trim p) :=
  (faultOf_map Seen.tree _).symm

/-- Trimming fails with the panic of the first position that panics, and if there is none it does
not fail. -/
theorem trim_eq_error_iff {p : Policy} {v : Value} {f : Fault} :
    v.trim p = .error f ↔ p.start.PanicsFirst p v f := by
  rw [← Spot.fault?_eq_some_iff, fault?_start, faultOf_eq_some_iff]

theorem trim_eq_ok_iff {p : Policy} {v : Value} :
    (∃ t, v.trim p = .ok t) ↔ ∀ path, p.start.panicAt? p v path = none := by
  rw [← Spot.fault?_eq_none_iff, fault?_start, faultOf_eq_none_iff]

end Abridge

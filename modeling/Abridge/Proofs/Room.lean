import Abridge.Proofs.Contained
import Abridge.Proofs.Panics

/-!
Room for items. A value in which nothing panics when it is looked at has a tree, with one exception:
room is set aside for the items of a sequence before they are looked at, as many as the policy keeps
or as the sequence claims to have, whichever is less, and there is none for more than `maxRoom`. A
policy that keeps no more items than that never fails by itself. One that keeps more does, be it on
a sequence that only claims to be longer or on one that is, and then the panic that is reported need
not be one of the adapters'.
-/
namespace Abridge

/-- Nothing in the value panics when it is looked at; a sequence may claim any length. -/
structure Value.Calm (v : Value) : Prop where
  shape : ∀ f, ¬ Inside v (.faulty f)
  content : ∀ kind f, ¬ Inside v (.broken kind f)

theorem Value.Sound.toCalm {v : Value} (hv : v.Sound) : v.Calm := ⟨hv.calm, hv.whole⟩

/-- Every sequence knows its length. -/
def Value.Honest (v : Value) : Prop := ∀ n vs, Inside v (.seq n vs) → n = vs.length

/-- No sequence whose items a look asks for is to keep more of them than there is room for. -/
def Spot.HasRoom (p : Policy) (a : Spot) (v : Value) : Prop :=
  ∀ path b n vs, a.reached? p v path = some (b, .seq n vs) → b.place ≠ .item →
    min p.arrayLimit.toNat n ≤ maxRoom

/-- No sequence whose items are asked for is to keep more of them than there is room for. -/
def Policy.HasRoom (p : Policy) (v : Value) : Prop := p.start.HasRoom p v

namespace Spot

variable {p : Policy} {a : Spot} {v : Value}

theorem hasRoom_of_le (h : p.arrayLimit ≤ maxRoom) (a : Spot) (v : Value) : a.HasRoom p v :=
  fun _ _ _ _ _ _ => by omega

theorem HasRoom.overfull_eq_false {s : Spot × Value} {path : List Nat} (h : a.HasRoom p v)
    (hreached : a.reached? p v path = some s) : s.1.overfull p s.2 = false := by
  obtain ⟨b, w⟩ := s
  rw [← Bool.not_eq_true, overfull_iff]
  rintro ⟨hplace, n, vs, rfl, hlong⟩
  have := h path b n vs hreached hplace
  omega

/-- The panic of the adapter at a position that the traversal comes to. -/
def adapterAt? (p : Policy) (a : Spot) (v : Value) (path : List Nat) : Option Fault :=
  (a.reached? p v path).bind fun s => s.1.adapter? p s.2

/-- The panic `f` is that of the first adapter that panics. -/
def AdapterPanicsFirst (p : Policy) (a : Spot) (v : Value) (f : Fault) : Prop :=
  FirstOf (a.adapterAt? p v) f

/-- At a position the adapter panics, or there is no room for the items. -/
theorem panicAt?_eq_some_iff {path : List Nat} {f : Fault} : a.panicAt? p v path = some f ↔
    a.adapterAt? p v path = some f ∨
      f = noRoom ∧ ∃ s, a.reached? p v path = some s ∧ s.1.overfull p s.2 = true := by
  rw [panicAt?, adapterAt?]
  cases a.reached? p v path with
  | none => simp
  | some s => simp [panic?_eq_some_iff, and_comm]

/-- A first panic is the first of the adapters', or the want of room. -/
theorem PanicsFirst.adapter_or {f : Fault} (h : a.PanicsFirst p v f) :
    a.AdapterPanicsFirst p v f ∨ f = noRoom ∧
      ∃ path s, a.reached? p v path = some s ∧ s.1.overfull p s.2 = true := by
  obtain ⟨path, hpath, hfirst⟩ := h
  rcases panicAt?_eq_some_iff.mp hpath with hadapter | ⟨hf, hfull⟩
  · exact .inl ⟨path, hadapter, fun other g hg =>
      hfirst other g (panicAt?_eq_some_iff.mpr (.inl hg))⟩
  · exact .inr ⟨hf, path, hfull⟩

theorem HasRoom.adapterPanicsFirst {f : Fault} (hroom : a.HasRoom p v)
    (h : a.PanicsFirst p v f) : a.AdapterPanicsFirst p v f := by
  refine h.adapter_or.resolve_right ?_
  rintro ⟨_, path, s, hreached, hfull⟩
  rw [hroom.overfull_eq_false hreached] at hfull
  cases hfull

end Spot

namespace Value.Calm

variable {p : Policy} {v : Value} (hv : v.Calm)
include hv

theorem inside {w : Value} (hw : Inside v w) : w.Calm :=
  ⟨fun f hf => hv.shape f (hw.trans hf), fun kind f hf => hv.content kind f (hw.trans hf)⟩

/-- The only panic of a calm value is the want of room. -/
theorem eq_noRoom {place : Place} {opened : Bool} {depth : Int} {f : Fault}
    (h : look p place opened depth v = .error f) : f = noRoom := by
  cases look_error h with
  | faulty hf => exact absurd hf (hv.shape f)
  | broken hf => exact absurd hf (hv.content _ f)
  | room => rfl

theorem adapter?_eq_none {w : Value} (hw : Inside v w) (a : Spot) : a.adapter? p w = none := by
  cases w with
  | faulty f => exact absurd hw (hv.shape f)
  | broken kind f => exact absurd hw (hv.content kind f)
  | _ => rfl

theorem adapterAt?_eq_none (a : Spot) (path : List Nat) : a.adapterAt? p v path = none :=
  Option.bind_eq_none_iff.mpr fun _ hreached =>
    hv.adapter?_eq_none (Spot.inside_of_reached? hreached) _

/-- A look at a calm value panics exactly where there is no room. -/
theorem fault?_eq_none_iff {a : Spot} : a.fault? p v = none ↔ a.HasRoom p v := by
  rw [Spot.fault?_eq_none_iff]
  constructor
  · intro h path b n vs hreached hplace
    refine Nat.not_lt.mp fun hlong => ?_
    have hfull : b.overfull p (.seq n vs) = true :=
      Spot.overfull_iff.mpr ⟨hplace, n, vs, rfl, hlong⟩
    have hpanic : a.panicAt? p v path = some noRoom :=
      Spot.panicAt?_eq_some_iff.mpr (.inr ⟨rfl, _, hreached, hfull⟩)
    rw [h path] at hpanic
    cases hpanic
  · intro hroom path
    refine Option.eq_none_iff_forall_not_mem.mpr fun f hf => ?_
    rcases Spot.panicAt?_eq_some_iff.mp hf with hadapter | ⟨_, s, hreached, hfull⟩
    · rw [hv.adapterAt?_eq_none a path] at hadapter
      cases hadapter
    · rw [hroom.overfull_eq_false hreached] at hfull
      cases hfull

theorem look_eq_ok_iff {place : Place} {opened : Bool} {depth : Int} :
    (∃ s, look p place opened depth v = .ok s) ↔ Spot.HasRoom p ⟨place, opened, depth⟩ v := by
  rw [← faultOf_eq_none_iff, ← hv.fault?_eq_none_iff, Spot.fault?]

theorem trim_eq_ok_iff : (∃ t, v.trim p = .ok t) ↔ p.HasRoom v := by
  rw [← faultOf_eq_none_iff, ← fault?_start, hv.fault?_eq_none_iff, Policy.HasRoom]

end Value.Calm

theorem trim_seq_eq_error {p : Policy} {n : Nat} (h : maxRoom < min p.arrayLimit.toNat n)
    (vs : List Value) : (Value.seq n vs).trim p = .error noRoom := by
  have hasked : ¬ (p.arrayLimit ≤ 0 ∨ n = 0) := by omega
  rw [Value.trim, look, if_neg (by decide), if_neg hasked, if_pos h]
  rfl

theorem Value.Calm.seq {vs : List Value} (h : ∀ v ∈ vs, v.Calm) (n : Nat) :
    (Value.seq n vs).Calm where
  shape f hf := by
    cases hf with
    | item hm hf => exact (h _ hm).shape f hf
  content kind f hf := by
    cases hf with
    | item hm hf => exact (h _ hm).content kind f hf

/-! ### A sequence of nothing but absent items, which take no room themselves -/

theorem calm_list_replicate_absent (n : Nat) :
    (Value.list (List.replicate n .absent)).Calm := by
  refine Value.Calm.seq (fun v hv => ?_) _
  rw [List.eq_of_mem_replicate hv]
  exact ⟨nofun, nofun⟩

theorem honest_list_replicate_absent (n : Nat) :
    (Value.list (List.replicate n .absent)).Honest := by
  intro m vs hm
  cases hm with
  | here => rfl
  | item hv hm =>
    rw [List.eq_of_mem_replicate hv] at hm
    cases hm

theorem sound_list_replicate_absent (n : Nat) : (Value.list (List.replicate n .absent)).Sound :=
  ⟨(calm_list_replicate_absent n).shape, (calm_list_replicate_absent n).content,
    honest_list_replicate_absent n⟩

theorem trim_list_replicate_absent {p : Policy} (h : maxRoom < p.arrayLimit) :
    (Value.list (List.replicate (maxRoom + 1) .absent)).trim p = .error noRoom :=
  trim_seq_eq_error (by rw [List.length_replicate]; omega) _

/-! ### Values in which nothing panics -/

/-- A calm value has a tree exactly if there is room for all items that are to be kept, and fails
for want of room otherwise. A policy never fails on calm values, or on sound ones, exactly if it
keeps no more items of a sequence than there can be room for. -/
theorem fault_free_iff (p : Policy) :
    (∀ v : Value, v.Calm →
      ((∃ t, v.trim p = .ok t) ↔ p.HasRoom v) ∧ (v.trim p = .error noRoom ↔ ¬ p.HasRoom v)) ∧
    ((∀ v : Value, v.Calm → ∃ t, v.trim p = .ok t) ↔ p.arrayLimit ≤ maxRoom) ∧
    ((∀ v : Value, v.Sound → ∃ t, v.trim p = .ok t) ↔ p.arrayLimit ≤ maxRoom) := by
  have enough : p.arrayLimit ≤ maxRoom → ∀ v : Value, v.Calm → ∃ t, v.trim p = .ok t := by
    intro hlimit v hv
    exact hv.trim_eq_ok_iff.mpr (Spot.hasRoom_of_le hlimit p.start v)
  have needed : (∀ v : Value, v.Sound → ∃ t, v.trim p = .ok t) → p.arrayLimit ≤ maxRoom := by
    intro h
    refine Int.not_lt.mp fun hlimit => ?_
    obtain ⟨t, ht⟩ := h _ (sound_list_replicate_absent (maxRoom + 1))
    rw [trim_list_replicate_absent (by omega)] at ht
    cases ht
  refine ⟨fun v hv => ⟨hv.trim_eq_ok_iff, ?_⟩, ⟨fun h => ?_, enough⟩, needed, fun h v hv => ?_⟩
  · rw [← hv.trim_eq_ok_iff]
    cases h : v.trim p with
    | ok t => simp
    | error f => simp [hv.eq_noRoom (map_eq_error h)]
  · exact needed fun v hv => h v hv.toCalm
  · exact enough h v hv.toCalm

/-- One item, but a length and a limit as large as they can be. -/
theorem claimed_length_fails :
    let p : Policy := { Policy.standard with arrayLimit := Word.maxSigned }
    let v : Value := .seq Word.maxSigned [.scalar (.bool true)]
    v.Calm ∧ ¬ ∃ t, v.trim p = .ok t := by
  intro p v
  have hcalm : v.Calm := by
    refine Value.Calm.seq (fun u hu => ?_) _
    rw [List.mem_singleton.mp hu]
    exact ⟨nofun, nofun⟩
  refine ⟨hcalm, ?_⟩
  rintro ⟨t, ht⟩
  rw [trim_seq_eq_error (by decide)] at ht
  cases ht

/-! ### Values in which adapters panic -/

/-- Panics are contained: a trimming fails exactly if the adapter at a position panics that the
traversal comes to, and with the panic of the first one; then its text is reported in place of the
tree, uncut and once, and otherwise the tree without a report. -/
structure Contained (p : Policy) (v : Value) : Prop where
  fails_iff : ∀ f, v.trim p = .error f ↔ p.start.AdapterPanicsFirst p v f
  recovers : ∀ f, p.start.AdapterPanicsFirst p v f →
    v.report p = ⟨.text ("panic recovery: " ++ f.message), [Event.recovered f]⟩ ∧
      (Event.recovered f).level = .error
  calm_iff : (∀ path, p.start.adapterAt? p v path = none) ↔
    ∃ t, v.trim p = .ok t ∧ v.report p = ⟨t, []⟩

theorem Contained.of_fails_iff {p : Policy} {v : Value}
    (h : ∀ f, v.trim p = .error f ↔ p.start.AdapterPanicsFirst p v f) : Contained p v where
  fails_iff := h
  recovers f hf := by
    rw [Value.report, (h f).mpr hf]
    exact ⟨rfl, rfl⟩
  calm_iff := by
    constructor
    · intro hcalm
      cases htrim : v.trim p with
      | ok t => exact ⟨t, rfl, by rw [Value.report, htrim]⟩
      | error f =>
        obtain ⟨path, hpath, _⟩ := (h f).mp htrim
        rw [hcalm path] at hpath
        cases hpath
    · rintro ⟨t, ht, _⟩ path
      refine Option.eq_none_iff_forall_not_mem.mpr fun f hf => ?_
      have hpanic := Spot.panicAt?_eq_some_iff.mpr (.inl hf)
      rw [trim_eq_ok_iff.mp ⟨t, ht⟩ path] at hpanic
      cases hpanic

/-- Panics are contained exactly if the want of room is not the first panic, or an adapter gives it
as its own. -/
theorem contained_iff {p : Policy} {v : Value} : Contained p v ↔
    (p.start.PanicsFirst p v noRoom → p.start.AdapterPanicsFirst p v noRoom) := by
  constructor
  · exact fun h hfirst => (h.fails_iff _).mp (trim_eq_error_iff.mpr hfirst)
  · intro h
    have hadapter : ∀ f, p.start.PanicsFirst p v f → p.start.AdapterPanicsFirst p v f := by
      intro f hf
      rcases hf.adapter_or with hf' | ⟨rfl, _⟩
      · exact hf'
      · exact h hf
    refine .of_fails_iff fun f => trim_eq_error_iff.trans ⟨hadapter f, fun hf => ?_⟩
    -- Some position panics, and the first that does is the first adapter.
    cases htrim : v.trim p with
    | ok t =>
      obtain ⟨path, hpath, _⟩ := hf
      have hpanic := Spot.panicAt?_eq_some_iff.mpr (.inl hpath)
      rw [trim_eq_ok_iff.mp ⟨t, htrim⟩ path] at hpanic
      cases hpanic
    | error g =>
      have hg := trim_eq_error_iff.mp htrim
      rw [Spot.FirstOf.unique hf (hadapter g hg)]
      exact hg

/-- Where there is room for all items that are to be kept, panics are contained. More generally a
trimming fails exactly with the first panic, be it an adapter's or the want of room, so that panics
are contained unless the want of room comes first. A policy contains them in all values whose
sequences know their lengths exactly if it keeps no more items than there can be room for. -/
theorem panic_contained (p : Policy) :
    (∀ v : Value, p.HasRoom v → Contained p v) ∧
    (∀ v : Value, (∀ f, v.trim p = .error f ↔ p.start.PanicsFirst p v f) ∧
      (Contained p v ↔
        (p.start.PanicsFirst p v noRoom → p.start.AdapterPanicsFirst p v noRoom))) ∧
    ((∀ v : Value, v.Honest → Contained p v) ↔ p.arrayLimit ≤ maxRoom) := by
  have enough : ∀ v : Value, p.HasRoom v → Contained p v :=
    fun v hroom => contained_iff.mpr hroom.adapterPanicsFirst
  refine ⟨enough, fun v => ⟨fun f => trim_eq_error_iff, contained_iff⟩, fun h => ?_,
    fun hlimit v _ => enough v (Spot.hasRoom_of_le hlimit p.start v)⟩
  refine Int.not_lt.mp fun hlimit => ?_
  have hcontained := h _ (honest_list_replicate_absent (maxRoom + 1))
  obtain ⟨t, ht, _⟩ := hcontained.calm_iff.mp
    ((calm_list_replicate_absent _).adapterAt?_eq_none p.start)
  rw [trim_list_replicate_absent hlimit] at ht
  cases ht

/-- Nobody looks at the hidden token or at the second line; of the rest, the option comes first. -/
theorem panic_contained_shipment :
    let v : Value := .record [(⟨"token", none⟩, .faulty (.text "a")),
      (⟨"lines", none⟩, .list [.absent, .faulty (.text "b")]),
      (⟨"ship", none⟩, .optional (.faulty (.text "c"))), (⟨"note", none⟩, .faulty (.text "d"))]
    let p : Policy := ⟨1, 0, 2, 0, ["token"]⟩
    v.Honest ∧ p.HasRoom v ∧ Contained p v ∧ v.trim p = .error (.text "c") ∧
      p.start.adapterAt? p v [2, 0] = some (.text "c") ∧
      p.start.adapterAt? p v [3] = some (.text "d") := by
  intro v p
  have hroom : p.HasRoom v := Spot.hasRoom_of_le (by decide) p.start v
  refine ⟨fun n vs h => ?_, hroom, (panic_contained p).1 v hroom, rfl, rfl, rfl⟩
  simp only [v] at h
  cases h with
  | field hm h =>
    simp only [List.mem_cons, Prod.mk.injEq, List.not_mem_nil, or_false] at hm
    rcases hm with ⟨_, rfl⟩ | ⟨_, rfl⟩ | ⟨_, rfl⟩ | ⟨_, rfl⟩
    · cases h
    · cases h with
      | here => rfl
      | item hm h =>
        simp only [List.mem_cons, List.not_mem_nil, or_false] at hm
        rcases hm with rfl | rfl <;> cases h
    · cases h with
      | optional h => cases h
    · cases h

/-- Nothing panics, and yet the trimming does, before it looks at any of the absent items. -/
theorem absent_items_fail :
    let p : Policy := { Policy.standard with arrayLimit := maxRoom + 1 }
    let v : Value := .list (List.replicate (maxRoom + 1) .absent)
    v.Honest ∧ (∀ path, p.start.adapterAt? p v path = none) ∧ v.trim p = .error noRoom ∧
      ¬ Contained p v := by
  intro p v
  have hcalm : ∀ path, p.start.adapterAt? p v path = none :=
    (calm_list_replicate_absent _).adapterAt?_eq_none p.start
  have hfails : v.trim p = .error noRoom := trim_list_replicate_absent (Int.lt_succ _)
  refine ⟨honest_list_replicate_absent _, hcalm, hfails, fun h => ?_⟩
  obtain ⟨t, ht, _⟩ := h.calm_iff.mp hcalm
  rw [hfails] at ht
  cases ht

end Abridge

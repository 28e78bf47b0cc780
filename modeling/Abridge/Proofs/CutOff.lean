import Abridge.Proofs.Replaced

/-!
What the limits cut off. Nobody looks at the items beyond those that are kept, at anything of a
sequence that is itself an item or of one of which no items are kept, at the content of a record or
map without a level left, or at what stands below two options. All of it may be replaced, by values
that panic or others, at any depth and at any number of places: the tree is the same, or the panic.
-/
namespace Abridge

/-- The kind of a container, whether or not it panics when it is asked for its content. -/
def Value.container? : Value → Option ContainerKind
  | .record _ => some .record
  | .map _ => some .map
  | .seq _ _ => some .seq
  | .broken kind _ => some kind
  | _ => none

/-- `CutOff p a v w`: the values, looked at from `a`, differ in nothing but what is cut off there.
Containers of one kind may differ in all of their content, and in whether it panics. -/
inductive CutOff (p : Policy) (a : Spot) : Value → Value → Prop
  | beyond {n vs ws} : vs.take p.arrayLimit.toNat = ws.take p.arrayLimit.toNat →
    CutOff p a (.seq n vs) (.seq n ws)
  | unkept {v w} : p.arrayLimit ≤ 0 → v.container? = some .seq → w.container? = some .seq →
    CutOff p a v w
  | nested {v w} : a.place = .item → v.container? = some .seq → w.container? = some .seq →
    CutOff p a v w
  | record {v w} : spend a.depth ≤ 0 → v.container? = some .record → w.container? = some .record →
    CutOff p a v w
  | map {v w} : spend a.depth ≤ 0 → v.container? = some .map → w.container? = some .map →
    CutOff p a v w
  | twice {v w} : a.opened = true → CutOff p a (.optional v) (.optional w)

section Look

variable {p : Policy} {place : Place} {opened : Bool} {depth : Int} {v : Value}

/-- A sequence that is an item is passed over before it is asked for anything. -/
theorem look_nested (h : v.container? = some .seq) :
    look p .item opened depth v = .ok .nothing := by
  cases v with
  | seq n vs => rw [look, if_pos rfl]
  | broken kind f =>
    cases h
    rw [look, if_pos rfl]
  | _ => cases h

theorem look_unkept (hlimit : p.arrayLimit ≤ 0) (hplace : place ≠ .item)
    (h : v.container? = some .seq) : ∃ n, look p place opened depth v = .ok (.list n []) := by
  cases v with
  | seq n vs => exact ⟨n, by rw [look, if_neg hplace, if_pos (Or.inl hlimit)]⟩
  | broken kind f =>
    cases h
    exact ⟨0, by rw [look, if_neg hplace, if_pos hlimit]⟩
  | _ => cases h

/-- Without a level left nobody asks a record or a map for its content. -/
theorem look_spent (hdepth : spend depth ≤ 0)
    (h : v.container? = some .record ∨ v.container? = some .map) :
    look p place opened depth v = .ok (.table []) := by
  cases v with
  | record fs | map es => rw [look, if_pos hdepth]
  | broken kind f =>
    cases kind with
    | record | map =>
      rw [look, if_pos hdepth]
      simp
    | seq => rcases h with h | h <;> cases h
  | _ => rcases h with h | h <;> cases h

end Look

theorem items_take (p : Policy) (depth : Int) (vs : List Value) (n : Nat) :
    items p depth n (vs.take n) = items p depth n vs := by
  induction vs generalizing n with
  | nil => rw [List.take_nil]
  | cons v rest ih =>
    cases n with
    | zero => rw [items, items]
    | succ n => rw [List.take_succ_cons, items, items, ih n]

theorem CutOff.alike {p : Policy} {a : Spot} {v w : Value} (h : CutOff p a v w) :
    a.Alike p v w := by
  cases h with
  | @beyond n vs ws htake =>
    refine .of_look_eq ?_
    rw [look, look, ← items_take p a.depth vs, htake, items_take]
  | unkept hlimit hv hw =>
    by_cases hplace : a.place = .item
    · refine .of_look_eq ?_
      rw [hplace, look_nested hv, look_nested hw]
    · have empty : ∀ {u : Value}, u.container? = some .seq →
          ∃ n, look p a.place a.opened a.depth u = .ok (.list n []) := look_unkept hlimit hplace
      obtain ⟨m, hm⟩ := empty hv
      obtain ⟨n, hn⟩ := empty hw
      -- The two may claim different lengths, but neither shows an item.
      rw [Spot.Alike, hm, hn]
      rfl
  | nested hplace hv hw =>
    refine .of_look_eq ?_
    rw [hplace, look_nested hv, look_nested hw]
  | record hdepth hv hw =>
    refine .of_look_eq ?_
    rw [look_spent hdepth (Or.inl hv), look_spent hdepth (Or.inl hw)]
  | map hdepth hv hw =>
    refine .of_look_eq ?_
    rw [look_spent hdepth (Or.inr hv), look_spent hdepth (Or.inr hw)]
  | twice hopened =>
    refine .of_look_eq ?_
    rw [look, look, if_pos hopened, if_pos hopened]

/-- Values that differ only in parts that are cut off, however many and wherever they stand, have
the same tree, or the same panic. -/
theorem trim_eq_of_cut_off {p : Policy} {v w : Value}
    (h : Relation.ReflTransGen (Replaced (CutOff p) p.start) v w) : v.trim p = w.trim p :=
  trim_eq_of_replaced (fun _ _ _ hcut => hcut.alike) h

/-- An order with one line, one table and one level of records: what is behind them, or below two
options, may be anything. -/
theorem trim_eq_of_cut_off_order :
    let p : Policy := ⟨1, 0, 2, 0, []⟩
    let order := fun more row ship note : Value => Value.record
      [(⟨"lines", none⟩, .seq 2 [.scalar (.bool true), more]),
        (⟨"rows", none⟩, .seq 1 [.optional (.seq 1 [row])]),
        (⟨"ship", none⟩, ship), (⟨"note", none⟩, .optional (.optional note))]
    let sent : Value := .record [(⟨"to", none⟩, .text "c")]
    let panic : Value := .faulty .wordless
    let v := order (.text "a") (.text "b") sent (.text "d")
    let w := order panic panic (.broken .record .wordless) panic
    Relation.ReflTransGen (Replaced (CutOff p) p.start) v w ∧ v.trim p = w.trim p := by
  intro p order sent panic v w
  have lines : Replaced (CutOff p) p.start v (order panic (.text "b") sent (.text "d")) :=
    @Replaced.field _ _ _ _ _ [] _ (.here (.beyond rfl))
  have rows : Replaced (CutOff p) p.start (order panic (.text "b") sent (.text "d"))
      (order panic panic sent (.text "d")) :=
    @Replaced.field _ _ _ _ _ [_] _
      (@Replaced.item _ _ _ _ _ [] _ (.optional (.here (.nested rfl rfl rfl))))
  have ship : Replaced (CutOff p) p.start (order panic panic sent (.text "d"))
      (order panic panic (.broken .record .wordless) (.text "d")) :=
    @Replaced.field _ _ _ _ _ [_, _] _ (.here (.record (by decide) rfl rfl))
  have note : Replaced (CutOff p) p.start
      (order panic panic (.broken .record .wordless) (.text "d")) w :=
    @Replaced.field _ _ _ _ _ [_, _, _] _ (.optional (.here (.twice rfl)))
  have hsteps := (((Relation.ReflTransGen.single lines).tail rows).tail ship).tail note
  exact ⟨hsteps, trim_eq_of_cut_off hsteps⟩

end Abridge

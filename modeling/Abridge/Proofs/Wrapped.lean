import Abridge.Proofs.Replaced

/-!
One option around a value. Wherever a value stands that is neither an option nor held by one, it may
be put into an option: a look opens the option before it does anything else, and then sees what it
would have seen. So any number of parts of a value may be optional or not, and its tree is the same.
-/
namespace Abridge

/-- `Wraps a v w`: where no option has been opened before, `w` is `v`, no option itself, in one. -/
structure Wraps (a : Spot) (v w : Value) : Prop where
  closed : a.opened = false
  bare : ∀ u, v ≠ .optional u
  eq : w = .optional v

/-- Only an option asks whether one has been opened before. -/
theorem look_opened {v : Value} (h : ∀ u, v ≠ .optional u) (p : Policy) (place : Place)
    (depth : Int) : look p place true depth v = look p place false depth v := by
  cases v with
  | optional u => exact absurd rfl (h u)
  | broken kind f =>
    cases kind with
    | seq => rw [look, look]
    | record | map => rw [look, look] <;> simp
  | _ => rw [look, look]

theorem Wraps.alike {a : Spot} {v w : Value} (h : Wraps a v w) (p : Policy) : a.Alike p v w := by
  obtain ⟨hclosed, hbare, rfl⟩ := h
  refine .of_look_eq ?_
  calc look p a.place a.opened a.depth v
    _ = look p a.place true a.depth v := by rw [hclosed, look_opened hbare]
    _ = look p a.place a.opened a.depth (.optional v) := by rw [hclosed, look, if_neg (by simp)]

/-- A value in which any parts, none of them an option or held by one, are put into options has the
tree of the value, or its panic, under every policy. -/
theorem trim_eq_of_wrapped {depth : Int} {v w : Value}
    (h : Relation.ReflTransGen (Replaced Wraps ⟨.root, false, depth⟩) v w) (p : Policy) :
    w.trim p = v.trim p := by
  have hspot : ∀ a b x y, a.opened = b.opened → Wraps a x y → Wraps b x y :=
    fun _ _ _ _ hab hxy => ⟨hab ▸ hxy.closed, hxy.bare, hxy.eq⟩
  have hstart : Relation.ReflTransGen (Replaced Wraps p.start) v w :=
    Replaced.run_at_spot hspot h rfl
  exact (trim_eq_of_replaced (fun _ _ _ hxy => hxy.alike p) hstart).symm

/-- The root, a field with its length beside it, an item, and what a dynamic value holds. -/
theorem trim_eq_of_wrapped_lines :
    let v : Value := .record [(⟨"xs", none⟩, .list [.dynamic (.scalar (.bool true))])]
    let w : Value := .optional (.record [(⟨"xs", none⟩,
      .optional (.list [.optional (.dynamic (.optional (.scalar (.bool true))))]))])
    Relation.ReflTransGen (Replaced Wraps ⟨.root, false, 10⟩) v w ∧
      w.trim .standard = v.trim .standard := by
  intro v w
  let lines (x : Value) : Value := .record [(⟨"xs", none⟩, .list [x])]
  have content : Replaced Wraps ⟨.root, false, 10⟩ v
      (lines (.dynamic (.optional (.scalar (.bool true))))) :=
    @Replaced.field _ _ _ _ _ [] _ (@Replaced.item _ _ _ _ _ [] _
      (.dynamic (.here ⟨rfl, nofun, rfl⟩)))
  have item : Replaced Wraps ⟨.root, false, 10⟩
      (lines (.dynamic (.optional (.scalar (.bool true)))))
      (lines (.optional (.dynamic (.optional (.scalar (.bool true)))))) :=
    @Replaced.field _ _ _ _ _ [] _ (@Replaced.item _ _ _ _ _ [] _ (.here ⟨rfl, nofun, rfl⟩))
  have field : Replaced Wraps ⟨.root, false, 10⟩
      (lines (.optional (.dynamic (.optional (.scalar (.bool true))))))
      (.record [(⟨"xs", none⟩,
        .optional (.list [.optional (.dynamic (.optional (.scalar (.bool true))))]))]) :=
    @Replaced.field _ _ _ _ _ [] _ (.here ⟨rfl, nofun, rfl⟩)
  have root : Replaced Wraps ⟨.root, false, 10⟩ (.record [(⟨"xs", none⟩,
      .optional (.list [.optional (.dynamic (.optional (.scalar (.bool true))))]))]) w :=
    .here ⟨rfl, nofun, rfl⟩
  have hsteps := (((Relation.ReflTransGen.single content).tail item).tail field).tail root
  exact ⟨hsteps, trim_eq_of_wrapped hsteps .standard⟩

end Abridge

import Abridge.Proofs.Origins

/-!
What can stand where in a tree. Null stands at the root, or for a trait object in a map or a
sequence; records do not bind it. Without trait objects no sequence stands in a sequence, and no
record binds a container that is empty. What records, maps and sequences leave out differs, and so
it counts from which of them a node comes.
-/
namespace Abridge

/-! ### What is seen -/

section Seen

variable {p : Policy} {place : Place} {opened : Bool} {depth : Int} {v : Value}

/-- Plain data is neither a container nor null. -/
theorem isLeaf_of_look {t : Tree} (h : look p place opened depth v = .ok (.leaf t)) :
    t.isLeaf = true ∧ t ≠ .null := by
  obtain ⟨b, u, hu, _, hbare⟩ := exists_bare h
  rcases look_cases hu hbare with hs | ⟨u, hs, hleaf⟩ | ⟨_, _, _, _, hs⟩ | ⟨_, _, hs⟩ |
    ⟨_, _, _, hs, _⟩ <;> cases hs
  exact hleaf

/-- The tree of a trait object is seen of a trait object, or of an option that holds one. -/
theorem exists_dynamic {t : Tree} (h : look p place false depth v = .ok (.boxed t)) :
    ∃ u, (v = .dynamic u ∨ v = .optional (.dynamic u)) ∧
      (look p .root false (place.dynamicDepth depth) u).map Seen.tree = .ok t := by
  obtain ⟨b, w, hw, hv, hbare⟩ := exists_bare h
  rcases look_cases hw hbare with hs | ⟨_, hs, _⟩ | ⟨u, r, rfl, hr, hs⟩ | ⟨_, _, hs⟩ |
    ⟨_, _, _, hs, _⟩ <;> cases hs
  exact ⟨u, hv.imp Eq.symm And.left, by rw [hr]; rfl⟩

/-- A map is seen of a record or a map, if of neither a trait object nor an option. -/
theorem look_eq_map {s : Seen} {es : Entries Tree} (hs : look p place opened depth v = .ok s)
    (ht : s.tree = .map es) (hdynamic : ∀ u, v ≠ .dynamic u)
    (hoptional : ∀ u, v = .optional u → opened = true) :
    (v.container? = some .record ∨ v.container? = some .map) ∧ s = .table es := by
  rcases look_cases hs hoptional with rfl | ⟨t, rfl, hleaf, _⟩ | ⟨u, _, rfl, _⟩ |
    ⟨hkind, out, rfl⟩ | ⟨_, _, _, rfl, _⟩
  · cases ht
  · obtain rfl : t = .map es := ht
    cases hleaf
  · exact absurd rfl (hdynamic u)
  · cases ht
    exact ⟨hkind, rfl⟩
  · cases ht

/-- Null is seen where nothing is there, or of a trait object. -/
theorem Seen.of_tree_null {s : Seen} (hs : look p place opened depth v = .ok s)
    (ht : s.tree = .null) : s = .nothing ∨ s = .boxed .null := by
  cases s with
  | nothing => exact Or.inl rfl
  | leaf t => exact absurd ht (isLeaf_of_look hs).2
  | table | list => cases ht
  | boxed t => exact Or.inr (congrArg _ ht)

end Seen

/-! ### What a container supplies -/

section Supplied

variable {p : Policy} {a b : Spot} {v w : Value} {s : Seen}

/-- What is supplied stands in its container itself, not behind an option. -/
theorem Spot.Supplies.opened {step : Tree.Step} (h : a.Supplies p v step b w) :
    b.opened = false := by
  cases h <;> rfl

/-- Null is supplied by maps and sequences only, and for trait objects only. -/
theorem Spot.Supplies.null {step : Tree.Step} (h : a.Supplies p v step b w)
    (hs : look p b.place b.opened b.depth w = .ok s) (ht : s.tree = .null) :
    (b.place = .entry ∨ b.place = .item) ∧ s = .boxed .null := by
  have hnull := Seen.of_tree_null hs ht
  cases h with
  | field _ _ _ hr hkept =>
    cases hr.symm.trans hs
    rcases hnull with rfl | rfl <;> exact absurd rfl hkept
  | entry _ _ hr hkept =>
    cases hr.symm.trans hs
    exact ⟨Or.inl rfl, hnull.resolve_left hkept⟩
  | item _ _ _ _ hr hkept =>
    cases hr.symm.trans hs
    refine ⟨Or.inr rfl, hnull.resolve_left ?_⟩
    rintro rfl
    exact hkept rfl

/-- A sequence is supplied to a sequence for trait objects only. -/
theorem Spot.Supplies.seq {i : Nat} {ts : List Tree} (h : a.Supplies p v (.index i) b w)
    (hs : look p b.place b.opened b.depth w = .ok s) (ht : s.tree = .seq ts) :
    s = .boxed (.seq ts) := by
  cases h with
  | item _ _ _ _ hr hkept =>
    cases hr.symm.trans hs
    cases s with
    | nothing | table => cases ht
    | leaf t =>
      obtain rfl : t = .seq ts := ht
      cases (isLeaf_of_look hs).1
    | list => exact absurd rfl hkept
    | boxed t => exact congrArg _ ht

/-- A record is supplied with an empty container for trait objects only. -/
theorem Spot.Supplies.empty {step : Tree.Step} (h : a.Supplies p v step b w)
    (hv : v.container? = some .record) (hs : look p b.place b.opened b.depth w = .ok s)
    (ht : s.tree = .map [] ∨ s.tree = .seq []) : s = .boxed s.tree := by
  cases h with
  | field _ _ _ hr hkept =>
    cases hr.symm.trans hs
    cases s with
    | nothing => rcases ht with ht | ht <;> cases ht
    | leaf t =>
      obtain ⟨hleaf, _⟩ := isLeaf_of_look hs
      rcases ht with ht | ht <;> cases ht <;> cases hleaf
    | table es =>
      rcases ht with ht | ht <;> cases ht
      exact absurd rfl hkept
    | list n ts =>
      rcases ht with ht | ht <;> cases ht
      exact absurd rfl hkept
    | boxed t => rfl
  | entry | item => cases hv

theorem Spot.Supplies.record_ne_null {step : Tree.Step} (h : a.Supplies p v step b w)
    (hv : v.container? = some .record) (hs : look p b.place b.opened b.depth w = .ok s) :
    s.tree ≠ .null := by
  intro ht
  obtain ⟨hplace, _⟩ := h.null hs ht
  cases h with
  | field => rcases hplace with h | h <;> cases h
  | entry | item => cases hv

end Supplied

/-! ### What the traversal comes to -/

theorem Spot.Supplies.goesOn {p : Policy} {a b : Spot} {v u : Value} {step : Tree.Step}
    (h : a.Supplies p v step b u) : a.GoesOn p v b u := by
  have mem {α : Type} (xs ys : List α) (x : α) : x ∈ xs ++ x :: ys :=
    List.mem_append_right _ List.mem_cons_self
  cases h with
  | field hdepth hd hp => exact .field hdepth (mem ..) (by simp [Policy.shows, hd, hp])
  | entry hdepth hp => exact .entry hdepth (mem ..) hp
  | item hplace hn hlen =>
    refine .item hplace (by omega) hn ?_
    obtain ⟨m, hm⟩ := Nat.exists_eq_succ_of_ne_zero (Nat.sub_ne_zero_of_lt hlen)
    rw [List.take_append, hm]
    exact mem ..

/-- The traversal comes to every part that gives a node. -/
theorem Origin.reached {p : Policy} {a b : Spot} {v w : Value} {path : List Tree.Step}
    (h : Origin p a v path b w) : ∃ pos, a.reached? p v pos = some (b, w) := by
  induction h with
  | here => exact ⟨[], rfl⟩
  | optional ho _ ih =>
    obtain ⟨pos, hpos⟩ := ih
    refine ⟨0 :: pos, ?_⟩
    rw [Spot.reached?, Spot.visits, ho, if_neg (by decide)]
    exact hpos
  | dynamic _ ih =>
    obtain ⟨pos, hpos⟩ := ih
    exact ⟨0 :: pos, hpos⟩
  | child hstep _ ih =>
    obtain ⟨pos, hpos⟩ := ih
    obtain ⟨i, hi⟩ := List.mem_iff_getElem?.mp (Spot.mem_visits_iff.mpr hstep.goesOn)
    refine ⟨i :: pos, ?_⟩
    rw [Spot.reached?, hi]
    exact hpos

/-- The traversal comes to no trait object. -/
def Policy.PassesNoDynamic (p : Policy) (v : Value) : Prop :=
  ∀ pos b u, p.start.reached? p v pos ≠ some (b, .dynamic u)

/-- What is supplied to a node is no trait object if the traversal comes to none. -/
theorem Policy.PassesNoDynamic.supplied {p : Policy} {v : Value} (h : p.PassesNoDynamic v)
    {a b : Spot} {w u : Value} {path : List Tree.Step} {step : Tree.Step} {t : Tree}
    (hw : Origin p p.start v path a w) (hu : a.Supplies p w step b u) :
    look p b.place b.opened b.depth u ≠ .ok (.boxed t) := by
  intro hs
  have hpath : Origin p p.start v (path ++ [step]) b u := hw.trans (.child hu .here)
  rw [hu.opened] at hs
  -- The trait object stands there itself or behind one option, which the traversal opens.
  obtain ⟨x, rfl | rfl, _⟩ := exists_dynamic hs
  · obtain ⟨pos, hpos⟩ := hpath.reached
    exact h pos b x hpos
  · obtain ⟨pos, hpos⟩ := (hpath.trans (.optional hu.opened .here)).reached
    exact h pos _ x hpos

/-! ### Nodes -/

section Nodes

variable {p : Policy} {v : Value} {t : Tree}

theorem look_start (h : v.trim p = .ok t) : ∃ s,
    look p p.start.place p.start.opened p.start.depth v = .ok s ∧ s.tree = t := by
  obtain ⟨s, hs, rfl⟩ := map_eq_ok h
  exact ⟨s, hs, rfl⟩

/-- A node below another is supplied by the part that the other comes from, unless it is the length
of a sequence. -/
theorem exists_supplies (h : v.trim p = .ok t) {path : List Tree.Step} {step : Tree.Step}
    {s u : Tree} (hs : t.at? path = some s) (hu : s.child? step = some u) (hint : ∀ z, u ≠ .int z) :
    ∃ a m b w r, Origin p p.start v path a m ∧ a.Supplies p m step b w ∧
      look p b.place b.opened b.depth w = .ok r ∧ r.tree = u := by
  obtain ⟨q, hq, rfl⟩ := look_start h
  obtain ⟨a, m, hm, hchild⟩ := (grown_of_at? hq hs).child hu
  rcases hchild with ⟨b, w, r, hw, hr, htree⟩ | ⟨_, z, _, rfl⟩
  · exact ⟨a, m, b, w, r, hm, hw, hr, htree⟩
  · exact absurd rfl (hint z)

/-- A node of a tree that is not its root is a child of another. -/
theorem exists_parent {path : List Tree.Step} {u : Tree} (hpath : path ≠ [])
    (hu : t.at? path = some u) :
    ∃ above step s, path = above ++ [step] ∧ t.at? above = some s ∧ s.child? step = some u := by
  obtain ⟨above, step, rfl⟩ := (List.eq_nil_or_concat' path).resolve_left hpath
  rw [Tree.at?_append] at hu
  obtain ⟨s, hs, hu⟩ := Option.bind_eq_some_iff.mp hu
  rw [Tree.at?_single] at hu
  exact ⟨above, step, s, rfl, hs, hu⟩

/-- What a record binds is supplied to it, unless it is the length of a sequence. -/
theorem record_supplied (h : v.trim p = .ok t) {path : List Tree.Step} {b : Spot} {w : Value}
    (hw : Origin p p.start v path b w) (hrecord : w.container? = some .record) {k : String}
    {u : Tree} (hu : t.at? (path ++ [.key k]) = some u) (hint : ∀ z, u ≠ .int z) :
    ∃ c x r, b.Supplies p w (.key k) c x ∧ look p c.place c.opened c.depth x = .ok r ∧
      r.tree = u := by
  obtain ⟨q, hq, rfl⟩ := look_start h
  obtain ⟨s, hs, hnode⟩ := hw.node hq
  rw [Tree.at?_append, hnode, Option.bind_some, Tree.at?_single] at hu
  have hdynamic : ∀ y, w ≠ .dynamic y := by
    rintro y rfl
    cases hrecord
  have hoptional : ∀ y, w = .optional y → b.opened = true := by
    rintro y rfl
    cases hrecord
  rcases accounts_child hs hdynamic hoptional hu with ⟨c, x, r, hx, hr, htree⟩ | ⟨_, z, _, rfl⟩
  · exact ⟨c, x, r, hx, hr, htree⟩
  · exact absurd rfl (hint z)

/-- A map in a tree is that of a record or a map. -/
theorem exists_table (h : v.trim p = .ok t) {path : List Tree.Step} {es : Entries Tree}
    (hes : t.at? path = some (.map es)) : ∃ b w, Origin p p.start v path b w ∧
      (w.container? = some .record ∨ w.container? = some .map) ∧
      look p b.place b.opened b.depth w = .ok (.table es) := by
  obtain ⟨q, hq, rfl⟩ := look_start h
  rcases grown_of_at? hq hes with ⟨c, x, s, hx, hs, htree⟩ | ⟨_, _, z, _, heq⟩
  · obtain ⟨b, w, r, hw, hr, hsame, hdynamic, hoptional⟩ := exists_content hs
    have hpath : Origin p p.start v path b w := List.append_nil path ▸ hx.trans hw
    obtain ⟨hkind, rfl⟩ := look_eq_map hr (hsame.trans htree) hdynamic hoptional
    exact ⟨b, w, hpath, hkind, hr⟩
  · cases heq

/-- A null below the root is supplied to a map or a sequence, for a trait object. -/
theorem null_supplied (h : v.trim p = .ok t) {path : List Tree.Step}
    (hpath : t.at? path = some .null) (hne : path ≠ []) :
    ∃ above step a m b w, path = above ++ [step] ∧
      Origin p p.start v above a m ∧ a.Supplies p m step b w ∧
      (b.place = .entry ∨ b.place = .item) ∧
      look p b.place b.opened b.depth w = .ok (.boxed .null) := by
  obtain ⟨above, step, s, rfl, hs, hchild⟩ := exists_parent hne hpath
  obtain ⟨a, m, b, w, r, hm, hw, hr, htree⟩ := exists_supplies h hs hchild (by simp)
  obtain ⟨hplace, rfl⟩ := hw.null hr htree
  exact ⟨above, step, a, m, b, w, rfl, hm, hw, hplace, hr⟩

end Nodes

/-- Where null, a sequence in a sequence and an empty container can stand in a tree. -/
theorem normal_form {p : Policy} {v : Value} {t : Tree} (h : v.trim p = .ok t) :
    (∀ path es, t.at? path = some (.map es) → ∃ b w, Origin p p.start v path b w ∧
      (w.container? = some .record ∨ w.container? = some .map) ∧
      look p b.place b.opened b.depth w = .ok (.table es)) ∧
    (∀ path b w, Origin p p.start v path b w →
      ∃ s, look p b.place b.opened b.depth w = .ok s ∧ t.at? path = some s.tree) ∧
    (p.PassesNoDynamic v →
      (∀ path, t.at? path = some .null → path = []) ∧
      (∀ path ts us, t.at? path = some (.seq ts) → .seq us ∉ ts) ∧
      ∀ path b w k s, Origin p p.start v path b w → w.container? = some .record →
        t.at? (path ++ [.key k]) = some s → s ≠ .map [] ∧ s ≠ .seq []) ∧
    (∀ path, t.at? path = some .null → path ≠ [] → ∃ above step a m b w u,
      path = above ++ [step] ∧ Origin p p.start v above a m ∧ a.Supplies p m step b w ∧
      (b.place = .entry ∨ b.place = .item) ∧ (w = .dynamic u ∨ w = .optional (.dynamic u)) ∧
      u.trim { p with depthLimit := spend b.depth } = .ok .null) ∧
    ∀ path b w k, Origin p p.start v path b w → w.container? = some .record →
      t.at? (path ++ [.key k]) ≠ some .null := by
  refine ⟨fun path es => exists_table h, fun path b w hw => ?_, fun hfree => ⟨?_, ?_, ?_⟩, ?_, ?_⟩
  · obtain ⟨q, hq, rfl⟩ := look_start h
    exact hw.node hq
  · intro path hpath
    by_contra hne
    obtain ⟨_, _, a, m, b, w, _, hm, hw, _, hr⟩ := null_supplied h hpath hne
    exact hfree.supplied hm hw hr
  · intro path ts us hts hus
    obtain ⟨i, hi⟩ := List.mem_iff_getElem?.mp hus
    have hchild : Tree.child? (.seq ts) (.index i) = some (.seq us) := hi
    obtain ⟨a, m, b, w, r, hm, hw, hr, htree⟩ := exists_supplies h hts hchild (by simp)
    obtain rfl := hw.seq hr htree
    exact hfree.supplied hm hw hr
  · intro path b w k s hw hrecord hs
    by_contra hempty
    have hs' : s = .map [] ∨ s = .seq [] := by tauto
    have hint : ∀ z, s ≠ .int z := by rcases hs' with rfl | rfl <;> simp
    obtain ⟨c, x, r, hx, hr, rfl⟩ := record_supplied h hw hrecord hs hint
    exact hfree.supplied hw hx (hx.empty hrecord hr hs' ▸ hr)
  · intro path hpath hne
    obtain ⟨above, step, a, m, b, w, rfl, hm, hw, hplace, hr⟩ := null_supplied h hpath hne
    rw [hw.opened] at hr
    obtain ⟨u, hu, htrim⟩ := exists_dynamic hr
    refine ⟨above, step, a, m, b, w, u, rfl, hm, hw, hplace, hu, ?_⟩
    rw [trim_depthLimit, ← htrim, Place.dynamicDepth, if_neg]
    rintro hroot
    rw [hroot] at hplace
    rcases hplace with h | h <;> cases h
  · intro path b w k hw hrecord hnull
    obtain ⟨c, x, r, hx, hr, htree⟩ := record_supplied h hw hrecord hnull (by simp)
    exact hx.record_ne_null hrecord hr htree

/-- A map keeps the null of a trait object, and so does a sequence behind an option; the record
around them has neither null nor the empty record. Without trait objects the list in a list is gone,
too. -/
theorem normal_form_mixed :
    let v : Value := .record [(⟨"m", none⟩, .map [("n", .dynamic .unsupported)]),
      (⟨"x", none⟩, .record []), (⟨"y", none⟩, .dynamic .absent),
      (⟨"xs", none⟩, .list [.optional (.dynamic .absent), .dynamic (.list [])])]
    let t : Tree := .map [("_size__xs", .int 2), ("m", .map [("n", .null)]),
      ("xs", .seq [.null, .seq []])]
    let w : Value := .record [(⟨"xs", none⟩, .list [.list [], .text "a"])]
    let s : Tree := .map [("_size__xs", .int 2), ("xs", .seq [.text "a"])]
    (v.trim .standard = .ok t ∧ (∃ above step a m b x u,
        [Tree.Step.key "xs", .index 0] = above ++ [step] ∧
        Origin .standard Policy.standard.start v above a m ∧ a.Supplies .standard m step b x ∧
        (b.place = .entry ∨ b.place = .item) ∧ (x = .dynamic u ∨ x = .optional (.dynamic u)) ∧
        u.trim { Policy.standard with depthLimit := spend b.depth } = .ok .null) ∧
      ∀ k, t.at? [.key k] ≠ some .null) ∧
    w.trim .standard = .ok s ∧ Policy.standard.PassesNoDynamic w ∧
      (∀ path, s.at? path = some .null → path = []) ∧
      ∀ path ts us, s.at? path = some (.seq ts) → .seq us ∉ ts := by
  intro v t w s
  have hv : v.trim .standard = .ok t := rfl
  have hw : w.trim .standard = .ok s := rfl
  have hfree : Policy.standard.PassesNoDynamic w := by
    intro pos b u h
    have hin : Inside (.record [(⟨"xs", none⟩, .list [.list [], .text "a"])]) (.dynamic u) :=
      Spot.inside_of_reached? h
    cases hin with
    | field hm hin =>
      cases List.mem_singleton.mp hm
      cases hin with
      | item hm hin =>
        rcases List.mem_pair.mp hm with rfl | rfl
        · cases hin with
          | item hm _ => cases hm
        · cases hin
  obtain ⟨_, _, _, hnull, hrecord⟩ := normal_form hv
  obtain ⟨hroot, hseq, _⟩ := (normal_form hw).2.2.1 hfree
  exact ⟨⟨hv, hnull _ rfl (by simp), fun k => hrecord [] _ v k .here rfl⟩, hw, hfree, hroot, hseq⟩

end Abridge

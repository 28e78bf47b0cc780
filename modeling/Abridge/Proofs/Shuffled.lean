import Abridge.Proofs.Bindings
import Abridge.Proofs.MapKeys
import Abridge.Proofs.Replaced

/-!
The order of a map. The entries of maps with keys apart may change places, at any depth and in any
number of maps: the tree is the same, or the panic. Maps with common types of keys have them apart.
-/
namespace Abridge

/-! ### Maps that are shuffled -/

/-- `Shuffles a v w`: wherever they stand, both values are maps with the same entries, in one order
or another. -/
inductive Shuffles (a : Spot) : Value → Value → Prop
  | map {es fs} : es.Perm fs → Shuffles a (.map es) (.map fs)

/-- No map in the value shows a key twice. -/
def Value.KeysApart (v : Value) : Prop := ∀ es, Inside v (.map es) → (es.map Prod.fst).Nodup

theorem Shuffles.alike {v x y : Value} {a : Spot} (h : Shuffles a x y) (hv : v.Calm)
    (hkeys : v.KeysApart) (hx : Inside v x) (p : Policy) : a.Alike p x y := by
  cases h with
  | @map es fs hperm =>
    have hroom : ∀ k u g, (k, u) ∈ es →
        look p .entry false (spend a.depth) u = .error g → g = noRoom := by
      intro k u g hm hg
      exact (hv.inside (hx.trans (.entry hm .here))).eq_noRoom hg
    refine .of_look_eq ?_
    rw [look, look, entries_perm (hkeys es hx) hperm hroom]

theorem mem_or_mem_of_replaced {α : Type} {x y z : α} {as bs : List α} (h : z ∈ as ++ y :: bs) :
    z = y ∨ z ∈ as ++ x :: bs := by
  simp only [List.mem_append, List.mem_cons] at h ⊢
  rcases h with h | h | h
  · exact Or.inr (Or.inl h)
  · exact Or.inl h
  · exact Or.inr (Or.inr (Or.inr h))

/-- `Stems v u`: the value `u` stands in `v`, or is one that does, shuffled. -/
inductive Stems (v : Value) : Value → Prop
  | same {u} : Inside v u → Stems v u
  | shuffled {a x u} : Inside v x → Replaced Shuffles a x u → Stems v u

theorem Stems.mono {v w u : Value} (h : Stems v u) (hvw : ∀ {x}, Inside v x → Inside w x) :
    Stems w u := by
  cases h with
  | same hu => exact .same (hvw hu)
  | shuffled hx hu => exact .shuffled (hvw hx) hu

/-- What stands in a shuffled value stems from the value. -/
theorem Replaced.stems {a : Spot} {v w u : Value} (h : Replaced Shuffles a v w)
    (hu : Inside w u) : Stems v u := by
  induction h with
  | @here a v w hvw =>
    cases hvw with
    | map hperm =>
      cases hu with
      | here => exact .shuffled .here (@Replaced.here _ a _ _ (.map hperm))
      | entry hm hu => exact .same (.entry (hperm.mem_iff.mpr hm) hu)
  | optional h ih =>
    cases hu with
    | here => exact .shuffled .here (.optional h)
    | optional hu => exact (ih hu).mono .optional
  | dynamic h ih =>
    cases hu with
    | here => exact .shuffled .here (.dynamic h)
    | dynamic hu => exact (ih hu).mono .dynamic
  | @field a d v w as bs h ih =>
    have hv : (d, v) ∈ as ++ (d, v) :: bs := List.mem_append_right _ List.mem_cons_self
    cases hu with
    | here => exact .shuffled .here (.field h)
    | field hm hu =>
      rcases mem_or_mem_of_replaced hm with heq | hm
      · cases heq
        exact (ih hu).mono (.field hv)
      · exact .same (.field hm hu)
  | @entry a k v w as bs h ih =>
    have hv : (k, v) ∈ as ++ (k, v) :: bs := List.mem_append_right _ List.mem_cons_self
    cases hu with
    | here => exact .shuffled .here (.entry h)
    | entry hm hu =>
      rcases mem_or_mem_of_replaced hm with heq | hm
      · cases heq
        exact (ih hu).mono (.entry hv)
      · exact .same (.entry hm hu)
  | @item a n v w as bs h ih =>
    have hv : v ∈ as ++ v :: bs := List.mem_append_right _ List.mem_cons_self
    cases hu with
    | here => exact .shuffled .here (.item h)
    | item hm hu =>
      rcases mem_or_mem_of_replaced hm with heq | hm
      · cases heq
        exact (ih hu).mono (.item hv)
      · exact .same (.item hm hu)

section Step

variable {a : Spot} {v w : Value}

theorem Value.Calm.of_shuffled (hv : v.Calm) (h : Replaced Shuffles a v w) : w.Calm where
  shape f hf := by
    cases h.stems hf with
    | same hf => exact hv.shape f hf
    | shuffled _ hx =>
      cases hx with
      | here hmaps => cases hmaps
  content kind f hf := by
    cases h.stems hf with
    | same hf => exact hv.content kind f hf
    | shuffled _ hx =>
      cases hx with
      | here hmaps => cases hmaps

theorem Value.KeysApart.of_shuffled (hv : v.KeysApart) (h : Replaced Shuffles a v w) :
    w.KeysApart := by
  intro fs hfs
  cases h.stems hfs with
  | same hfs => exact hv fs hfs
  | shuffled hx hshuffled =>
    cases hshuffled with
    | here hmaps =>
      cases hmaps with
      | map hperm => exact (hperm.map Prod.fst).nodup_iff.mp (hv _ hx)
    | entry =>
      -- An entry was shuffled in its turn, and the keys are the same.
      simpa using hv _ hx

end Step

theorem trim_eq_of_shuffled {v w : Value} (hv : v.Calm) (hkeys : v.KeysApart) {p : Policy}
    (h : Relation.ReflTransGen (Replaced Shuffles p.start) v w) : v.trim p = w.trim p := by
  have hkeep : ∀ v w : Value, v.Calm ∧ v.KeysApart → Replaced Shuffles p.start v w →
      w.Calm ∧ w.KeysApart :=
    fun _ _ ⟨hv, hkeys⟩ hstep => ⟨hv.of_shuffled hstep, hkeys.of_shuffled hstep⟩
  have halike : ∀ v : Value, v.Calm ∧ v.KeysApart → ∀ b x y, Inside v x → Shuffles b x y →
      b.Alike p x y :=
    fun _ ⟨hv, hkeys⟩ _ _ _ hx hxy => hxy.alike hv hkeys hx p
  exact trim_eq_of_kept_replaced hkeep halike ⟨hv, hkeys⟩ h

/-- In a sound value whose maps have their keys apart, the entries of any maps may change places and
the tree is the same. With a level left, a map binds each visible key whose value is there, and no
other, to what the value trims to, exactly if there is room for the items that are to be kept of the
sequences in it. Maps with common types of keys have their keys apart. -/
theorem map_order_unseen {v : Value} (hv : v.Sound) (hkeys : v.KeysApart) (p : Policy) :
    (∀ depth w, Relation.ReflTransGen (Replaced Shuffles ⟨.root, false, depth⟩) v w →
      w.trim p = v.trim p) ∧
    (∀ es, Inside v (.map es) → ∀ place opened depth, 0 < spend depth →
      ((∃ out, look p place opened depth (.map es) = .ok (.table out) ∧
        Binds p (spend depth) es out) ↔ Spot.HasRoom p ⟨place, opened, depth⟩ (.map es))) ∧
    MapKey.Apart String ∧ MapKey.Apart Bool ∧ MapKey.Apart Char ∧ MapKey.Apart Int ∧
      MapKey.Apart Uuid := by
  refine ⟨fun depth w h => ?_, fun es hes place opened depth hdepth => ?_, MapKey.apart _,
    MapKey.apart _, MapKey.apart _, MapKey.apart _, MapKey.apart _⟩
  · have hspot : ∀ a b x y, a.opened = b.opened → Shuffles a x y → Shuffles b x y := by
      rintro a b _ _ _ ⟨hperm⟩
      exact .map hperm
    have hstart : Relation.ReflTransGen (Replaced Shuffles p.start) v w :=
      Replaced.run_at_spot hspot h rfl
    exact (trim_eq_of_shuffled hv.toCalm hkeys hstart).symm
  · exact look_map (hkeys es hes) hdepth (hv.toCalm.inside hes)

/-- The scores of two teams, one of them absent, with the teams and the scores in another order. -/
theorem map_order_unseen_scores :
    let teams : List (String × Value) :=
      [("b", .dynamic (.map [("3", .text "c"), ("1", .text "a")])), ("a", .absent)]
    let shuffled : Value :=
      .map [("a", .absent), ("b", .dynamic (.map [("1", .text "a"), ("3", .text "c")]))]
    (Value.map teams).Sound ∧ (Value.map teams).KeysApart ∧
      Relation.ReflTransGen (Replaced Shuffles ⟨.root, false, 10⟩) (.map teams) shuffled ∧
      shuffled.trim .standard = (Value.map teams).trim .standard ∧
      ∃ out, look .standard .root false 10 (.map teams) = .ok (.table out) ∧
        Binds .standard 9 teams out := by
  intro teams shuffled
  have parts : ∀ u, Inside (.map teams) u → u = .map teams ∨ (∃ x, u = .dynamic x) ∨
      u = .map [("3", .text "c"), ("1", .text "a")] ∨ (∃ s, u = .text s) ∨ u = .absent := by
    intro u hu
    cases hu with
    | here => exact Or.inl rfl
    | entry hm hu =>
      simp only [teams, List.mem_cons, Prod.mk.injEq, List.not_mem_nil, or_false] at hm
      rcases hm with ⟨_, rfl⟩ | ⟨_, rfl⟩
      · cases hu with
        | here => exact Or.inr (Or.inl ⟨_, rfl⟩)
        | dynamic hu =>
          cases hu with
          | here => exact Or.inr (Or.inr (Or.inl rfl))
          | entry hm hu =>
            simp only [List.mem_cons, Prod.mk.injEq, List.not_mem_nil, or_false] at hm
            rcases hm with ⟨_, rfl⟩ | ⟨_, rfl⟩
            · cases hu
              exact Or.inr (Or.inr (Or.inr (Or.inl ⟨_, rfl⟩)))
            · cases hu
              exact Or.inr (Or.inr (Or.inr (Or.inl ⟨_, rfl⟩)))
      · cases hu
        exact Or.inr (Or.inr (Or.inr (Or.inr rfl)))
  have hsound : (Value.map teams).Sound := by
    refine ⟨fun f hf => ?_, fun kind f hf => ?_, fun n vs hn => ?_⟩
    · rcases parts _ hf with h | ⟨x, h⟩ | h | ⟨s, h⟩ | h <;> cases h
    · rcases parts _ hf with h | ⟨x, h⟩ | h | ⟨s, h⟩ | h <;> cases h
    · rcases parts _ hn with h | ⟨x, h⟩ | h | ⟨s, h⟩ | h <;> cases h
  have hkeys : (Value.map teams).KeysApart := by
    intro es hes
    rcases parts _ hes with h | ⟨x, h⟩ | h | ⟨s, h⟩ | h <;> cases h <;> decide
  have scores : Replaced Shuffles ⟨.root, false, 10⟩ (.map teams) (.map
      [("b", .dynamic (.map [("1", .text "a"), ("3", .text "c")])), ("a", .absent)]) :=
    @Replaced.entry _ _ _ _ _ [] _ (.dynamic (.here (.map (.swap ..))))
  have hsteps := (Relation.ReflTransGen.single scores).tail (.here (.map (.swap ..)))
  obtain ⟨hperm, hbinds, _⟩ := map_order_unseen hsound hkeys .standard
  refine ⟨hsound, hkeys, hsteps, hperm 10 shuffled hsteps, ?_⟩
  exact (hbinds teams .here .root false 10 (by decide)).mpr (Spot.hasRoom_of_le (by decide) _ _)

/-- The entry `a` is lost with the whole table where there is no room for the items of `b`. -/
theorem crowded_entry_fails :
    let p : Policy := { Policy.standard with arrayLimit := maxRoom + 1 }
    let crowd : Value := .list (List.replicate (maxRoom + 1) .absent)
    let es : List (String × Value) := [("a", .scalar (.bool true)), ("b", crowd)]
    (Value.map es).Sound ∧ (Value.map es).KeysApart ∧
      look p .root false 10 (.map es) = .error noRoom ∧
      ¬ ∃ out, look p .root false 10 (.map es) = .ok (.table out) ∧ Binds p 9 es out := by
  intro p crowd es
  have hcrowd : crowd.Sound := sound_list_replicate_absent _
  have parts : ∀ u, Inside (.map es) u →
      u = .map es ∨ u = .scalar (.bool true) ∨ Inside crowd u := by
    intro u hu
    cases hu with
    | here => exact .inl rfl
    | entry hm hu =>
      simp only [es, List.mem_cons, Prod.mk.injEq, List.not_mem_nil, or_false] at hm
      rcases hm with ⟨_, rfl⟩ | ⟨_, rfl⟩
      · cases hu
        exact .inr (.inl rfl)
      · exact .inr (.inr hu)
  have hsound : (Value.map es).Sound := by
    refine ⟨fun f hf => ?_, fun kind f hf => ?_, fun n vs hn => ?_⟩
    · rcases parts _ hf with h | h | h
      · cases h
      · cases h
      · exact hcrowd.calm f h
    · rcases parts _ hf with h | h | h
      · cases h
      · cases h
      · exact hcrowd.whole kind f h
    · rcases parts _ hn with h | h | h
      · cases h
      · cases h
      · exact hcrowd.honest n vs h
  have hkeys : (Value.map es).KeysApart := by
    intro fs hfs
    rcases parts _ hfs with h | h | h
    · cases h
      decide
    · cases h
    · simp only [crowd, Value.list] at h
      cases h with
      | item hm h =>
        rw [List.eq_of_mem_replicate hm] at h
        cases h
  have hfull : ¬ ∃ s, look p .root false 10 (.map es) = .ok s := by
    rw [hsound.toCalm.look_eq_ok_iff]
    intro h
    have hreached : Spot.reached? p ⟨.root, false, 10⟩ (.map es) [1] =
        some (⟨.entry, false, 9⟩, crowd) := by
      have hvisible : p.isVisible "b" = true := by decide
      have hspend : spend 10 = 9 := rfl
      simp [Spot.reached?, Spot.visits, Spot.ofEntry, es, hvisible, hspend]
    have hlong := h [1] ⟨.entry, false, 9⟩ _ _ hreached (by decide)
    rw [List.length_replicate] at hlong
    simp only [p] at hlong
    omega
  refine ⟨hsound, hkeys, ?_, ?_⟩
  · cases h : look p .root false 10 (.map es) with
    | ok s => exact absurd ⟨s, h⟩ hfull
    | error f => rw [hsound.toCalm.eq_noRoom h]
  · rintro ⟨out, hout, -⟩
    exact hfull ⟨_, hout⟩

end Abridge

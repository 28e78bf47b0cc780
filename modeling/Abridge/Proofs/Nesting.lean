import Abridge.Proofs.Level

/-!
How deep a tree nests, with sequences counted too. A sequence asks for no level, and one in a
sequence is dropped, but a trait object hands on from a sequence to another without end: it spends
a level that nobody asks for. So the depth limit bounds the nesting of maps, and no policy that
keeps items bounds the nesting of a tree. What exceeds twice the depth limit is due to such
hand-overs, one for each further container.
-/
namespace Abridge

mutual

/-- The most containers that stand in one another. -/
def Tree.nesting : Tree → Nat
  | .seq ts => nestingItems ts + 1
  | .map es => nestingEntries es + 1
  | _ => 0

def nestingItems : List Tree → Nat
  | [] => 0
  | t :: ts => max t.nesting (nestingItems ts)

def nestingEntries : List (String × Tree) → Nat
  | [] => 0
  | (_, t) :: es => max t.nesting (nestingEntries es)

end

theorem nestingItems_le {n : Nat} : ∀ {ts : List Tree}, (∀ t ∈ ts, t.nesting ≤ n) →
    nestingItems ts ≤ n
  | [], _ => by simp [nestingItems]
  | t :: ts, h => by
    rw [nestingItems]
    exact Nat.max_le.mpr ⟨h t List.mem_cons_self,
      nestingItems_le fun u hu => h u (List.mem_cons_of_mem _ hu)⟩

theorem nestingEntries_le {n : Nat} : ∀ {es : List (String × Tree)},
    (∀ w ∈ es, w.2.nesting ≤ n) → nestingEntries es ≤ n
  | [], _ => by simp [nestingEntries]
  | (k, t) :: es, h => by
    rw [nestingEntries]
    exact Nat.max_le.mpr ⟨h (k, t) List.mem_cons_self,
      nestingEntries_le fun w hw => h w (List.mem_cons_of_mem _ hw)⟩

theorem nesting_seq_le {n : Nat} {ts : List Tree} (h : ∀ t ∈ ts, t.nesting ≤ n) :
    (Tree.seq ts).nesting ≤ n + 1 := by
  rw [Tree.nesting]
  exact Nat.succ_le_succ (nestingItems_le h)

theorem nesting_map_le {n : Nat} {es : List (String × Tree)} (h : ∀ w ∈ es, w.2.nesting ≤ n) :
    (Tree.map es).nesting ≤ n + 1 := by
  rw [Tree.nesting]
  exact Nat.succ_le_succ (nestingEntries_le h)

theorem nesting_of_leaf {t : Tree} (h : t.isLeaf = true) : t.nesting = 0 := by
  cases t with
  | seq | map => cases h
  | _ => rfl

/-! ### Without items -/

/-- Where no item is kept, only maps nest. -/
theorem nesting_kept {p : Policy} (ha : p.arrayLimit ≤ 0) :
    KeptTree p fun d t => (t.nesting : Int) ≤ max 1 d where
  leaf h := by
    rw [nesting_of_leaf h]
    omega
  dynamic h := Int.le_trans h (spend_le _)
  spent := by
    intro d
    rw [Tree.nesting, nestingEntries]
    omega
  map := by
    intro d es hd _ hes
    have hs := spend_of_pos hd
    have : (Tree.map es).nesting ≤ (max 1 (spend d)).toNat + 1 :=
      nesting_map_le fun w hw => by have := hes w hw; omega
    omega
  seq := by
    intro d ts hlen _
    obtain rfl : ts = [] := List.length_eq_zero_iff.mp (by omega)
    rw [Tree.nesting, nestingItems]
    omega

/-! ### Hand-overs -/

namespace Value

/-- Does the value lead to a sequence, through options and trait objects alone? -/
def opensSeq : Value → Bool
  | .seq _ _ => true
  | .broken .seq _ => true
  | .optional v => v.opensSeq
  | .dynamic v => v.opensSeq
  | _ => false

/-- Does the value, as an item, hand on to a sequence through a trait object? -/
def handsOn : Value → Bool
  | .optional v => v.handsOn
  | .dynamic v => v.opensSeq
  | _ => false

mutual

/-- The most items on one path into the value that hand on to a sequence. -/
def relays : Value → Nat
  | .optional v => v.relays
  | .dynamic v => v.relays
  | .record fs => relaysFields fs
  | .map es => relaysEntries es
  | .seq _ vs => relaysItems vs
  | _ => 0

def relaysFields : List (Descriptor × Value) → Nat
  | [] => 0
  | (_, v) :: rest => max v.relays (relaysFields rest)

def relaysEntries : List (String × Value) → Nat
  | [] => 0
  | (_, v) :: rest => max v.relays (relaysEntries rest)

def relaysItems : List Value → Nat
  | [] => 0
  | v :: rest => max (v.relays + v.handsOn.toNat) (relaysItems rest)

end

theorem relays_le_fields {d : Descriptor} {v : Value} : ∀ {fs : List (Descriptor × Value)},
    (d, v) ∈ fs → v.relays ≤ relaysFields fs
  | (e, u) :: rest, h => by
    rw [relaysFields]
    rcases List.mem_cons.mp h with h | h
    · cases h; exact Nat.le_max_left ..
    · exact Nat.le_trans (relays_le_fields h) (Nat.le_max_right ..)

theorem relays_le_entries {k : String} {v : Value} : ∀ {es : List (String × Value)},
    (k, v) ∈ es → v.relays ≤ relaysEntries es
  | (j, u) :: rest, h => by
    rw [relaysEntries]
    rcases List.mem_cons.mp h with h | h
    · cases h; exact Nat.le_max_left ..
    · exact Nat.le_trans (relays_le_entries h) (Nat.le_max_right ..)

theorem relays_le_items {v : Value} : ∀ {vs : List Value}, v ∈ vs →
    v.relays + v.handsOn.toNat ≤ relaysItems vs
  | u :: rest, h => by
    rw [relaysItems]
    rcases List.mem_cons.mp h with rfl | h
    · exact Nat.le_max_left ..
    · exact Nat.le_trans (relays_le_items h) (Nat.le_max_right ..)

end Value

/-- What is seen of a value nests twice in a level that is left, less one unless it is a sequence,
and once more for every hand-over. -/
structure Nests (d : Int) (v : Value) (s : Seen) : Prop where
  any : (s.tree.nesting : Int) + 1 ≤ 2 * max 1 d + v.relays + v.opensSeq.toNat
  /-- As an item of a sequence, it is none itself. -/
  item : (∀ n ts, s ≠ .list n ts) →
    (s.tree.nesting : Int) + 1 ≤ 2 * max 1 d + v.relays + v.handsOn.toNat

theorem Nests.of_le {d : Int} {v : Value} {s : Seen}
    (h : (s.tree.nesting : Int) + 1 ≤ 2 * max 1 d + v.relays) : Nests d v s :=
  ⟨by omega, fun _ => by omega⟩

theorem nests_kept (p : Policy) : Kept p fun _ => Nests where
  nothing := .of_le (by rw [Seen.tree, nesting_of_leaf rfl]; omega)
  scalar := .of_le (by rw [Seen.tree, nesting_of_leaf (Scalar.isLeaf_trim p _)]; omega)
  special := .of_le (by rw [Seen.tree, nesting_of_leaf (Special.isLeaf_trim p _)]; omega)
  optional h := ⟨h.any, h.item⟩
  dynamic := by
    intro place d v s h
    have hd : max 1 (place.dynamicDepth d) ≤ max 1 d := by
      rw [Place.dynamicDepth]
      split
      · exact Int.le_refl _
      · exact spend_le d
    -- whatever a trait object leads to, it hands on as an item
    have hany := h.any
    refine ⟨?_, fun _ => ?_⟩
    · rw [Seen.tree, Value.relays, Value.opensSeq]
      omega
    · rw [Seen.tree, Value.relays, Value.handsOn]
      omega
  spent := .of_le (by rw [Seen.tree, Tree.nesting, nestingEntries]; omega)
  record := by
    intro place d fs log hd hlog
    have hs := spend_of_pos hd
    refine .of_le ?_
    have hes : (Tree.map (Entries.play [] log)).nesting ≤
        (2 * spend d + Value.relaysFields fs).toNat + 1 := by
      refine nesting_map_le fun w hw => ?_
      rcases (hlog w (Entries.mem_of_mem_play_nil hw)).tree with ⟨z, hz⟩ | ⟨d', v, s, hm, hv, hws⟩
      · rw [hz, nesting_of_leaf rfl]
        omega
      · rw [hws]
        have hany := hv.2.any
        have hr := Value.relays_le_fields hm
        have hb := Bool.toNat_le v.opensSeq
        omega
    rw [Seen.tree, Value.relays]
    omega
  map := by
    intro place d es log hd hlog
    have hs := spend_of_pos hd
    refine .of_le ?_
    have hes : (Tree.map (Entries.play [] log)).nesting ≤
        (2 * spend d + Value.relaysEntries es).toNat + 1 := by
      refine nesting_map_le fun w hw => ?_
      obtain ⟨k, v, s, hm, hv, hws⟩ := (hlog w (Entries.mem_of_mem_play_nil hw)).tree
      rw [hws]
      have hany := hv.2.any
      have hr := Value.relays_le_entries hm
      have hb := Bool.toNat_le v.opensSeq
      omega
    rw [Seen.tree, Value.relays]
    omega
  empty := .of_le (by rw [Seen.tree, Tree.nesting, nestingItems]; omega)
  seq := by
    intro place d n vs ts _ _ hts
    refine ⟨?_, fun h => absurd rfl (h n ts)⟩
    have hle : (Tree.seq ts).nesting ≤ (2 * max 1 d - 1 + Value.relaysItems vs).toNat + 1 := by
      refine nesting_seq_le fun t ht => ?_
      obtain ⟨v, s, hm, hv, hst⟩ := hts t ht
      obtain ⟨rfl, hs⟩ := Seen.mem_asItem hst
      have hitem := hv.2.item hs
      have hr := Value.relays_le_items hm
      omega
    rw [Seen.tree, Value.relays, Value.opensSeq, Bool.toNat_true]
    omega

/-! ### Hand-overs without end -/

/-- A sequence that holds a sequence behind a trait object, and so on, `n` times. -/
def relayed : Nat → Value
  | 0 => .list []
  | n + 1 => .list [.dynamic (relayed n)]

/-- As many sequences in one another. -/
def nested : Nat → Tree
  | 0 => .seq []
  | n + 1 => .seq [nested n]

theorem nesting_nested : ∀ n, (nested n).nesting = n + 1
  | 0 => rfl
  | n + 1 => by
    rw [nested, Tree.nesting, nestingItems, nestingItems, nesting_nested n]
    omega

/-- Nothing stops the hand-overs, whatever is left of the depth. -/
theorem look_relayed {p : Policy} (ha : 0 < p.arrayLimit) : ∀ (n : Nat) (d : Int),
    (look p .root false d (relayed n)).map Seen.tree = .ok (nested n)
  | 0, d => by
    rw [relayed, Value.list, look, if_neg (by simp), if_pos (by simp)]
    rfl
  | n + 1, d => by
    obtain ⟨s, hs, htree⟩ := map_eq_ok (look_relayed ha n (spend d))
    have hitem : look p .item false d (.dynamic (relayed n)) = .ok (.boxed s.tree) := by
      rw [look, Place.dynamicDepth, if_neg (by simp), hs]
      rfl
    rw [relayed, look_list_one ha (by simp), hitem, nested, htree]
    rfl

/-- The nesting of trees is bounded exactly under a policy that keeps no items, and then by the
depth limit. Under every policy it is at most twice the depth limit, and one more for each
hand-over from a sequence to a sequence through a trait object. -/
theorem nesting_bounded_iff (p : Policy) :
    ((∃ b, ∀ (v : Value) t, v.trim p = .ok t → t.nesting ≤ b) ↔ p.arrayLimit ≤ 0) ∧
    (p.arrayLimit ≤ 0 → ∀ (v : Value) t, v.trim p = .ok t →
      (t.nesting : Int) ≤ max 1 p.depthLimit) ∧
    ∀ (v : Value) t, v.trim p = .ok t →
      (t.nesting : Int) ≤ 2 * max 1 p.depthLimit + v.relays := by
  have short : p.arrayLimit ≤ 0 → ∀ (v : Value) t, v.trim p = .ok t →
      (t.nesting : Int) ≤ max 1 p.depthLimit := fun ha v t ht => (nesting_kept ha).of_trim ht
  refine ⟨⟨?_, ?_⟩, short, ?_⟩
  · rintro ⟨b, hb⟩
    by_cases ha : p.arrayLimit ≤ 0
    · exact ha
    · have := hb (relayed b) (nested b) (look_relayed (by omega) b p.depthLimit)
      rw [nesting_nested] at this
      omega
  · intro ha
    refine ⟨(max 1 p.depthLimit).toNat, fun v t ht => ?_⟩
    have := short ha v t ht
    omega
  · intro v t ht
    obtain ⟨s, rfl, hs⟩ := (nests_kept p).of_trim ht
    have hany := hs.any
    have hb := Bool.toNat_le v.opensSeq
    omega

/-- No function of the depth limit bounds the nesting of trees. -/
theorem nesting_unbounded : ¬ ∃ bound : Int → Nat, ∀ (p : Policy) (v : Value) t,
    v.trim p = .ok t → t.nesting ≤ bound p.depthLimit := by
  rintro ⟨bound, h⟩
  have hone := h ⟨1, 0, 1, 0, []⟩ (relayed (bound 1)) (nested (bound 1))
    (look_relayed (by decide) (bound 1) 1)
  rw [nesting_nested] at hone
  exact absurd hone (by simp)

end Abridge

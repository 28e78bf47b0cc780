import Abridge.Proofs.Below
import Abridge.Proofs.Log
import Abridge.Proofs.Parts

/-!
Properties of every tree, proved one step at a time. `Kept` lists what one step of the traversal has
to keep of a property of what is seen; `Kept.of_look` is the induction over the whole value. For a
property of trees alone `KeptTree` is a shorter list.
-/
namespace Abridge

/-- What a look at a part has seen, and `P` holds of it. -/
def Part (p : Policy) (P : Place → Int → Value → Seen → Prop) (place : Place) (depth : Int)
    (v : Value) (s : Seen) : Prop :=
  look p place false depth v = .ok s ∧ P place depth v s

/-- What a step of the traversal keeps of a property `P` of what is seen of a value at a place, with
so many levels left: if `P` holds of what is seen of its parts, then of what is seen of it. -/
structure Kept (p : Policy) (P : Place → Int → Value → Seen → Prop) : Prop where
  nothing : ∀ {place depth v}, P place depth v .nothing
  scalar : ∀ {place depth s}, P place depth (.scalar s) (.leaf (s.trim p))
  special : ∀ {place depth s}, P place depth (.special s) (.leaf (s.trim p))
  optional : ∀ {place depth v s}, P place depth v s → P place depth (.optional v) s
  dynamic : ∀ {place depth v s}, P .root (place.dynamicDepth depth) v s →
    P place depth (.dynamic v) (.boxed s.tree)
  spent : ∀ {place depth v}, P place depth v (.table [])
  record : ∀ {place depth fs log}, 0 < spend depth →
    (∀ w ∈ log, FieldWrites p (Part p P .field (spend depth)) fs log w) →
    P place depth (.record fs) (.table (Entries.play [] log))
  map : ∀ {place depth es log}, 0 < spend depth →
    (∀ w ∈ log, EntryWrites p (Part p P .entry (spend depth)) es w) →
    P place depth (.map es) (.table (Entries.play [] log))
  empty : ∀ {place depth v n}, P place depth v (.list n [])
  seq : ∀ {place depth n vs ts}, 0 < p.arrayLimit → ts.length ≤ p.arrayLimit.toNat →
    (∀ t ∈ ts, ItemLeaves (Part p P .item depth) vs t) → P place depth (.seq n vs) (.list n ts)

/-- What every step keeps, holds of every look that succeeds. -/
theorem Kept.of_look {p : Policy} {P : Place → Int → Value → Seen → Prop} (hP : Kept p P)
    {place : Place} {opened : Bool} {depth : Int} {v : Value} {s : Seen}
    (h : look p place opened depth v = .ok s) : P place depth v s := by
  induction v generalizing place opened depth s with
  | absent | unsupported =>
    rw [look] at h
    cases h
    exact hP.nothing
  | faulty f => rw [look] at h; cases h
  | scalar a =>
    rw [look] at h
    cases h
    exact hP.scalar
  | special a =>
    rw [look] at h
    cases h
    exact hP.special
  | optional v ih =>
    rw [look] at h
    split at h
    · cases h; exact hP.nothing
    · exact hP.optional (ih h)
  | dynamic v ih =>
    rw [look] at h
    obtain ⟨s', hs', rfl⟩ := map_eq_ok h
    exact hP.dynamic (ih hs')
  | record fs ih =>
    rw [look] at h
    split at h
    · cases h; exact hP.spent
    · obtain ⟨es, hes, rfl⟩ := map_eq_ok h
      rw [fields_eq_play] at hes
      obtain ⟨log, hlog, rfl⟩ := map_eq_ok hes
      refine hP.record (by omega) fun w hw => ?_
      obtain ⟨d, v, name, s, hm, hn, hp, hs, hws⟩ := fieldWrites_of_mem hlog hw
      exact ⟨d, v, name, s, hm, hn, hp, ⟨hs, ih d v hm hs⟩, hws⟩
  | map es ih =>
    rw [look] at h
    split at h
    · cases h; exact hP.spent
    · obtain ⟨es', hes', rfl⟩ := map_eq_ok h
      rw [entries_eq_play] at hes'
      obtain ⟨log, hlog, rfl⟩ := map_eq_ok hes'
      refine hP.map (by omega) fun w hw => ?_
      obtain ⟨k, v, s, hm, hp, hs, hws⟩ := entryWrites_of_mem hlog hw
      exact ⟨k, v, s, hm, hp, ⟨hs, ih k v hm hs⟩, hws⟩
  | seq n vs ih =>
    rw [look] at h
    split at h
    · cases h; exact hP.nothing
    · split at h
      · cases h; exact hP.empty
      · rename_i hl
        split at h
        · cases h
        · obtain ⟨ts, hts, rfl⟩ := map_eq_ok h
          refine hP.seq (by omega) (length_items_le hts) fun t ht => ?_
          obtain ⟨v, s, hm, hs, hst⟩ := itemLeaves_of_mem hts ht
          exact ⟨v, s, hm, ⟨hs, ih v hm hs⟩, hst⟩
  | broken kind f =>
    cases kind with
    | seq =>
      rw [look] at h
      split at h
      · cases h; exact hP.nothing
      · split at h
        · cases h; exact hP.empty
        · cases h
    | record | map =>
      rw [look] at h
      · split at h
        · cases h; exact hP.spent
        · cases h
      · simp

/-- The tree of a value is what is seen of it at the root. -/
theorem Kept.of_trim {p : Policy} {P : Place → Int → Value → Seen → Prop} (hP : Kept p P)
    {v : Value} {t : Tree} (h : v.trim p = .ok t) :
    ∃ s : Seen, t = s.tree ∧ P .root p.depthLimit v s := by
  obtain ⟨s, hs, rfl⟩ := map_eq_ok h
  exact ⟨s, rfl, hP.of_look hs⟩

/-- Nothing is kept of a sequence unless the policy has room for items. -/
theorem arrayLimit_pos {p : Policy} {place : Place} {opened : Bool} {depth : Int} {v : Value}
    {n : Nat} {ts : List Tree} (h : look p place opened depth v = .ok (.list n ts))
    (hts : ts ≠ []) : 0 < p.arrayLimit := by
  have kept : Kept p fun _ _ _ s => ∀ n ts, s = .list n ts → ts ≠ [] → 0 < p.arrayLimit :=
    { nothing := by simp
      scalar := by simp
      special := by simp
      optional := id
      dynamic := by simp
      spent := by simp
      record := by simp
      map := by simp
      empty := by
        intro _ _ _ _ n ts h hts
        cases h
        exact absurd rfl hts
      seq := fun hl _ _ _ _ _ _ => hl }
  exact kept.of_look h n ts rfl hts

/-! ### Properties of the tree alone -/

theorem Scalar.isLeaf_trim (p : Policy) (s : Scalar) : (s.trim p).isLeaf = true := by
  cases s <;> rfl

theorem Special.isLeaf_trim (p : Policy) (s : Special) : (s.trim p).isLeaf = true := by
  cases s <;> rfl

/-- What a field writes is the size of a sequence, or the tree that is seen of it. -/
theorem FieldWrites.tree {p : Policy} {S : Value → Seen → Prop} {fs : List (Descriptor × Value)}
    {log : List (String × Tree)} {w : String × Tree} (h : FieldWrites p S fs log w) :
    (∃ z, w.2 = .int z) ∨ ∃ d v s, (d, v) ∈ fs ∧ S v s ∧ w.2 = s.tree := by
  obtain ⟨d, v, name, s, hm, _, _, hs, hw, _⟩ := h
  rcases Seen.mem_fieldWrites hw with rfl | ⟨n, ts, _, _, rfl⟩
  · exact Or.inr ⟨d, v, s, hm, hs, rfl⟩
  · exact Or.inl ⟨_, rfl⟩

theorem EntryWrites.tree {p : Policy} {S : Value → Seen → Prop} {es : List (String × Value)}
    {w : String × Tree} (h : EntryWrites p S es w) :
    ∃ k v s, (k, v) ∈ es ∧ S v s ∧ w.2 = s.tree := by
  obtain ⟨k, v, s, hm, _, hs, hw⟩ := h
  obtain rfl := Seen.mem_entryWrites hw
  exact ⟨k, v, s, hm, hs, rfl⟩

/-- A key of a record or map: a visible one, or that of the size of a sequence whose name is visible
and bound beside it. -/
def ShownKey (p : Policy) (es : Entries Tree) (w : String × Tree) : Prop :=
  p.isVisible w.1 = true ∨ ∃ name z, 0 < p.arrayLimit ∧ p.isVisible name = true ∧
    name ∈ es.keys ∧ w = (Seen.sizeKey name, .int z)

theorem FieldWrites.shownKey {p : Policy} {P : Place → Int → Value → Seen → Prop} {depth : Int}
    {fs : List (Descriptor × Value)} {log : List (String × Tree)} {w : String × Tree}
    (h : FieldWrites p (Part p P .field depth) fs log w) :
    ShownKey p (Entries.play [] log) w := by
  obtain ⟨d, v, name, s, _, _, hp, ⟨hs, _⟩, hw, hall⟩ := h
  rcases Seen.mem_fieldWrites hw with rfl | ⟨n, ts, rfl, hts, rfl⟩
  · exact Or.inl hp
  · have hname : (name, Tree.seq ts) ∈ (Seen.list n ts).fieldWrites name := by
      simp [Seen.fieldWrites, hts]
    exact Or.inr ⟨name, _, arrayLimit_pos hs hts, hp,
      Entries.mem_keys_play log (hall _ hname), rfl⟩

theorem EntryWrites.shownKey {p : Policy} {S : Value → Seen → Prop} {es : List (String × Value)}
    {out : Entries Tree} {w : String × Tree} (h : EntryWrites p S es w) : ShownKey p out w := by
  obtain ⟨k, v, s, _, hp, _, hw⟩ := h
  obtain rfl := Seen.mem_entryWrites hw
  exact Or.inl hp

/-- What a step of the traversal keeps of a property `T` of trees, with so many levels left. -/
structure KeptTree (p : Policy) (T : Int → Tree → Prop) : Prop where
  leaf : ∀ {depth t}, t.isLeaf = true → T depth t
  dynamic : ∀ {depth t}, T (spend depth) t → T depth t
  spent : ∀ {depth}, T depth (.map [])
  map : ∀ {depth es}, 0 < spend depth → (∀ w ∈ es, ShownKey p es w) →
    (∀ w ∈ es, T (spend depth) w.2) → T depth (.map es)
  seq : ∀ {depth ts}, ts.length ≤ p.arrayLimit.toNat → (∀ t ∈ ts, T depth t) → T depth (.seq ts)

theorem KeptTree.kept {p : Policy} {T : Int → Tree → Prop} (hT : KeptTree p T) :
    Kept p fun _ depth _ s => T depth s.tree where
  nothing := hT.leaf rfl
  scalar := hT.leaf (Scalar.isLeaf_trim p _)
  special := hT.leaf (Special.isLeaf_trim p _)
  optional h := h
  dynamic := by
    intro place depth v s h
    cases place with
    | root => exact h
    | field | entry | item => exact hT.dynamic h
  spent := hT.spent
  record hd hlog := by
    have hes := fun w hw => hlog w (Entries.mem_of_mem_play_nil hw)
    refine hT.map hd (fun w hw => (hes w hw).shownKey) fun w hw => ?_
    rcases (hes w hw).tree with ⟨z, hz⟩ | ⟨_, _, s, _, hs, hws⟩
    · exact hz ▸ hT.leaf rfl
    · exact hws ▸ hs.2
  map hd hlog := by
    have hes := fun w hw => hlog w (Entries.mem_of_mem_play_nil hw)
    refine hT.map hd (fun w hw => (hes w hw).shownKey) fun w hw => ?_
    obtain ⟨_, _, s, _, hs, hws⟩ := (hes w hw).tree
    exact hws ▸ hs.2
  empty := hT.seq (by simp) (by simp)
  seq _ hlen hts := by
    refine hT.seq hlen fun t ht => ?_
    obtain ⟨v, s, _, hs, hst⟩ := hts t ht
    obtain ⟨rfl, _⟩ := Seen.mem_asItem hst
    exact hs.2

/-- What every step keeps of trees, holds of every tree. -/
theorem KeptTree.of_trim {p : Policy} {T : Int → Tree → Prop} (hT : KeptTree p T) {v : Value}
    {t : Tree} (h : v.trim p = .ok t) : T p.depthLimit t := by
  obtain ⟨s, rfl, hs⟩ := hT.kept.of_trim h
  exact hs

/-- What holds of each node by itself, whatever stands below it, holds of every node of a tree. -/
theorem KeptTree.nodes {p : Policy} {Q : Tree → Prop} (leaf : ∀ {t}, t.isLeaf = true → Q t)
    (map : ∀ {es}, (∀ w ∈ es, ShownKey p es w) → Q (.map es))
    (seq : ∀ {ts}, ts.length ≤ p.arrayLimit.toNat → Q (.seq ts)) :
    KeptTree p fun _ t => ∀ n s, Below t n s → Q s where
  leaf := by
    intro _ t ht n s hn
    obtain ⟨_, rfl⟩ := hn.of_leaf ht
    exact leaf ht
  dynamic h := h
  spent := by
    intro _ n s hn
    rcases hn.of_map with ⟨_, rfl⟩ | ⟨w, hw, _⟩
    · exact map (by simp)
    · cases hw
  map := by
    intro _ es _ hkeys hes n s hn
    rcases hn.of_map with ⟨_, rfl⟩ | ⟨w, hw, m, _, hm⟩
    · exact map hkeys
    · exact hes w hw m s hm
  seq := by
    intro _ ts hlen hts n s hn
    by_cases hs : s = .seq ts
    · exact hs ▸ seq hlen
    · obtain ⟨t, ht, hm⟩ := hn.of_seq hs
      exact hts t ht n s hm

end Abridge

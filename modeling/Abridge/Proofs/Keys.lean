import Abridge.Proofs.Level

/-!
The keys of a tree. Every name that a record or map shows is asked whether it is visible, but the
key of a sequence's size is made up afterwards and never asked. So a hidden name can be shown, as
the size of a visible sequence and in no other way; no hidden name is ever shown exactly when the
policy hides no size of a visible name, or leaves no room for a sequence in a record.
-/
namespace Abridge

theorem Policy.isVisible_iff {p : Policy} {name : String} :
    p.isVisible name = true ↔ name ∉ p.ignores ∧ Policy.isInternal name = false := by
  simp [Policy.isVisible]

/-- The mark of internal names is no mark of a size. -/
theorem isInternal_sizeKey (name : String) : Policy.isInternal (Seen.sizeKey name) = false := by
  rw [Policy.isInternal, Seen.sizeKey, String.toList_append]
  rfl

/-- In every map of the tree, a key is visible or that of a size. -/
def Labelled (p : Policy) (t : Tree) : Prop :=
  ∀ n es, Below t n (.map es) → ∀ w ∈ es, ShownKey p es w

theorem labelled_of_trim {p : Policy} {v : Value} {t : Tree} (h : v.trim p = .ok t) :
    Labelled p t := by
  have kept : KeptTree p fun _ t => ∀ n s, Below t n s →
      ∀ es, s = .map es → ∀ w ∈ es, ShownKey p es w :=
    .nodes (fun ht _ hes => by rw [hes] at ht; cases ht)
      (fun hkeys _ hes => by cases hes; exact hkeys)
      (fun _ _ hes => by cases hes)
  exact fun n es hn => kept.of_trim h n _ hn es rfl

/-- A hidden key is the size of a visible sequence, whose name is bound in the same map. -/
theorem size_of_hidden {p : Policy} {v : Value} {t : Tree} (h : v.trim p = .ok t) {n : Nat}
    {es : Entries Tree} (hn : Below t n (.map es)) {w : String × Tree} (hw : w ∈ es)
    (hk : ¬ p.isVisible w.1 = true) : ∃ name z, 0 < p.arrayLimit ∧ p.isVisible name = true ∧
      name ∈ es.keys ∧ w = (Seen.sizeKey name, .int z) :=
  (labelled_of_trim h n es hn w hw).resolve_left hk

/-! ### A record with one sequence -/

/-- A record that holds a sequence of one item, under one name. -/
def single (name : String) : Value := .record [(⟨name, none⟩, .list [.scalar (.bool true)])]

theorem trim_single {p : Policy} {name : String} (hd : 1 < p.depthLimit) (ha : 0 < p.arrayLimit)
    (hp : p.isVisible name = true) : (single name).trim p =
      .ok (.map (Entries.play [] [(name, .seq [.bool true]), (Seen.sizeKey name, .int 1)])) := by
  have hs : ¬ spend p.depthLimit ≤ 0 := by simp only [spend]; omega
  have hfield : look p .field false (spend p.depthLimit) (.list [.scalar (.bool true)]) =
      .ok (.list 1 [.bool true]) := look_list_one ha (by simp) ..
  rw [Value.trim, single, look, if_neg hs, fields_eq_play, fieldLog]
  simp only [Descriptor.emitted?, hp, if_true, hfield]
  rfl

/-! ### Which policies keep hidden names hidden -/

/-- No ignored or internal name is a key of a tree, whatever the value, exactly when no size of a
visible name is ignored, unless the policy keeps no fields or no items at all. A hidden name that
is shown all the same is always such a size. -/
theorem hidden_names_absent_iff (p : Policy) :
    ((∀ (v : Value) t n es, v.trim p = .ok t → Below t n (.map es) → ∀ k ∈ Entries.keys es,
        k ∉ p.ignores ∧ Policy.isInternal k = false) ↔
      (1 < p.depthLimit → 0 < p.arrayLimit → ∀ name, p.isVisible name = true →
        Seen.sizeKey name ∉ p.ignores)) ∧
    ∀ (v : Value) t n es, v.trim p = .ok t → Below t n (.map es) → ∀ k x, (k, x) ∈ es →
      p.isVisible k = false → ∃ name z, k = Seen.sizeKey name ∧ x = .int z ∧
        p.isVisible name = true ∧ name ∈ Entries.keys es := by
  refine ⟨⟨?_, ?_⟩, ?_⟩
  · intro h hd ha name hp
    have hkey : Seen.sizeKey name ∈ Entries.keys
        (Entries.play [] [(name, .seq [.bool true]), (Seen.sizeKey name, Tree.int 1)]) :=
      Entries.mem_keys_play _ (w := (Seen.sizeKey name, Tree.int 1)) (by simp)
    exact (h _ _ 0 _ (trim_single hd ha hp) .here _ hkey).1
  · intro h v t n es ht hn k hk
    rw [← Policy.isVisible_iff]
    by_cases hp : p.isVisible k = true
    · exact hp
    · obtain ⟨w, hw, rfl⟩ := List.mem_map.mp hk
      obtain ⟨name, z, ha, hname, _, rfl⟩ := size_of_hidden ht hn hw hp
      -- the map has an entry, so the policy leaves a level for it
      have hd : 1 < p.depthLimit := by
        have := ((within_kept p).of_trim ht n es hn).2 (List.ne_nil_of_mem hw)
        omega
      exact Policy.isVisible_iff.mpr ⟨h hd ha name hname, isInternal_sizeKey name⟩
  · intro v t n es ht hn k x hk hp
    obtain ⟨name, z, _, hname, hbound, hw⟩ := size_of_hidden ht hn hk (by simp [hp])
    cases hw
    exact ⟨name, z, rfl, rfl, hname, hbound⟩

/-- A policy that ignores the size of `x` shows it all the same. -/
theorem ignored_size_shown : ∃ es,
    (single "x").trim (Policy.standard.ignore "_size__x") = .ok (.map es) ∧
      "_size__x" ∈ Entries.keys es ∧ "_size__x" ∈ (Policy.standard.ignore "_size__x").ignores :=
  ⟨_, rfl, by decide, by decide⟩

end Abridge

import Abridge.Proofs.Log
import Abridge.Proofs.Parts

/-!
Where panics come from. A panic that ends the traversal was raised by a part of the value, or by
setting aside room for the items of a sequence, where it says that it has more than there can be
room for. A sound value has no part that panics and no sequence that claims a wrong length.
-/
namespace Abridge

/-- The panic of a part of the value, or that of setting aside too much room for one. -/
inductive Raises (p : Policy) (v : Value) : Fault → Prop
  | faulty {f} : Inside v (.faulty f) → Raises p v f
  | broken {kind f} : Inside v (.broken kind f) → Raises p v f
  | room {n vs} : Inside v (.seq n vs) → maxRoom < min p.arrayLimit.toNat n → Raises p v noRoom

theorem Raises.mono {p : Policy} {v w : Value} {f : Fault} (h : Raises p w f)
    (hvw : ∀ {u}, Inside w u → Inside v u) : Raises p v f := by
  cases h with
  | faulty h => exact .faulty (hvw h)
  | broken h => exact .broken (hvw h)
  | room h hroom => exact .room (hvw h) hroom

/-! ### Failed steps -/

theorem fields_error {p : Policy} {depth : Int} {f : Fault} :
    ∀ {fs : List (Descriptor × Value)} {out : Entries Tree}, fields p depth out fs = .error f →
      ∃ d v, (d, v) ∈ fs ∧ look p .field false depth v = .error f
  | [], _, h => by rw [fields] at h; cases h
  | (d, v) :: rest, out, h => by
    have later : ∀ out', fields p depth out' rest = .error f →
        ∃ e u, (e, u) ∈ (d, v) :: rest ∧ look p .field false depth u = .error f := by
      intro out' h
      obtain ⟨e, u, hm, hu⟩ := fields_error h
      exact ⟨e, u, List.mem_cons_of_mem _ hm, hu⟩
    rw [fields] at h
    cases hd : d.emitted? with
    | none => rw [hd] at h; exact later out h
    | some name =>
      rw [hd] at h
      simp only at h
      split at h
      · rcases bind_eq_error h with h | ⟨s, _, h⟩
        · exact ⟨d, v, List.mem_cons_self, h⟩
        · exact later _ h
      · exact later out h

theorem entries_error {p : Policy} {depth : Int} {f : Fault} :
    ∀ {es : List (String × Value)} {out : Entries Tree}, entries p depth out es = .error f →
      ∃ k v, (k, v) ∈ es ∧ look p .entry false depth v = .error f
  | [], _, h => by rw [entries] at h; cases h
  | (k, v) :: rest, out, h => by
    have later : ∀ out', entries p depth out' rest = .error f →
        ∃ j u, (j, u) ∈ (k, v) :: rest ∧ look p .entry false depth u = .error f := by
      intro out' h
      obtain ⟨j, u, hm, hu⟩ := entries_error h
      exact ⟨j, u, List.mem_cons_of_mem _ hm, hu⟩
    rw [entries] at h
    split at h
    · rcases bind_eq_error h with h | ⟨s, _, h⟩
      · exact ⟨k, v, List.mem_cons_self, h⟩
      · exact later _ h
    · exact later out h

theorem items_error {p : Policy} {depth : Int} {f : Fault} :
    ∀ {n : Nat} {vs : List Value}, items p depth n vs = .error f →
      ∃ v ∈ vs, look p .item false depth v = .error f
  | 0, _, h => by rw [items] at h; cases h
  | _ + 1, [], h => by rw [items_nil] at h; cases h
  | n + 1, v :: rest, h => by
    rw [items] at h
    rcases bind_eq_error h with h | ⟨s, _, h⟩
    · exact ⟨v, List.mem_cons_self, h⟩
    · rcases bind_eq_error h with h | ⟨ts, _, h⟩
      · obtain ⟨u, hu, h⟩ := items_error h
        exact ⟨u, List.mem_cons_of_mem _ hu, h⟩
      · cases h

/-! ### Sources -/

/-- Every panic of a look goes back to a part of the value. -/
theorem look_error {p : Policy} {place : Place} {opened : Bool} {depth : Int} {v : Value}
    {f : Fault} (h : look p place opened depth v = .error f) : Raises p v f := by
  induction v generalizing place opened depth with
  | absent | unsupported | scalar | special => rw [look] at h; cases h
  | faulty g =>
    rw [look] at h
    cases h
    exact .faulty .here
  | optional v ih =>
    rw [look] at h
    split at h
    · cases h
    · exact (ih h).mono .optional
  | dynamic v ih =>
    rw [look] at h
    exact (ih (map_eq_error h)).mono .dynamic
  | record fs ih =>
    rw [look] at h
    split at h
    · cases h
    · obtain ⟨d, v, hm, hv⟩ := fields_error (map_eq_error h)
      exact (ih d v hm hv).mono (.field hm)
  | map es ih =>
    rw [look] at h
    split at h
    · cases h
    · obtain ⟨k, v, hm, hv⟩ := entries_error (map_eq_error h)
      exact (ih k v hm hv).mono (.entry hm)
  | seq n vs ih =>
    rw [look] at h
    split at h
    · cases h
    · split at h
      · cases h
      · split at h
        · rename_i hroom
          cases h
          exact .room .here hroom
        · obtain ⟨v, hm, hv⟩ := items_error (map_eq_error h)
          exact (ih v hm hv).mono (.item hm)
  | broken kind g =>
    have hg : f = g := by
      cases kind with
      | seq =>
        rw [look] at h
        split at h
        · cases h
        · split at h
          · cases h
          · exact (Except.error.inj h).symm
      | record | map =>
        rw [look] at h
        · split at h
          · cases h
          · exact (Except.error.inj h).symm
        · simp
    rw [hg]
    exact .broken .here

/-! ### Sound values -/

/-- Nothing in the value panics when it is looked at, and every sequence knows its length. -/
structure Value.Sound (v : Value) : Prop where
  calm : ∀ f, ¬ Inside v (.faulty f)
  whole : ∀ kind f, ¬ Inside v (.broken kind f)
  honest : ∀ n vs, Inside v (.seq n vs) → n = vs.length

end Abridge

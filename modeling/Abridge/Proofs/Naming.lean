import Abridge.Proofs.Lowering
import Mathlib.Data.List.TakeWhile

/-!
The name of a derived field on its way through the tag. The plan of a field writes its name into the
tag of a descriptor, and whoever asks the descriptor reads it back out of the tag. The dash, which
would hide the field, is written apart; a comma and the empty name are not. So a name comes back
exactly if it is the declared one, or is not empty and has no comma; of any other name only what
stands before the comma is left, or the declared name in its place. No field is lost on the way.
-/
namespace Abridge.Derive

open Descriptor

/-! ### Tags -/

theorem firstItem_eq_self_iff {s : String} : firstItem s = s ↔ ',' ∉ s.toList := by
  rw [firstItem, ← String.toList_inj, String.toList_ofList, List.takeWhile_eq_self_iff]
  constructor
  · intro h hc
    simpa using h ',' hc
  · intro h c hc
    simp only [decide_eq_true_eq]
    exact fun he => h (he ▸ hc)

/-- The name that is read where `emitted` was written for a field declared as `declared`. -/
def readBack (declared emitted : String) : String :=
  if emitted = declared ∨ firstItem emitted = "" then declared else firstItem emitted

theorem readBack_eq_iff {declared emitted : String} : readBack declared emitted = emitted ↔
    emitted = declared ∨ (emitted ≠ "" ∧ ',' ∉ emitted.toList) := by
  rw [readBack, ← firstItem_eq_self_iff]
  by_cases hd : emitted = declared
  · simp [hd]
  · by_cases hfirst : firstItem emitted = ""
    · rw [if_pos (Or.inr hfirst), hfirst]
      constructor
      · exact fun h => absurd h.symm hd
      · rintro (h | ⟨hne, h⟩)
        · exact absurd h hd
        · exact absurd h.symm hne
    · rw [if_neg (by simp [hd, hfirst])]
      constructor
      · exact fun h => Or.inr ⟨fun he => hfirst (h.trans he), h⟩
      · rintro (h | ⟨_, h⟩)
        · exact absurd h hd
        · exact h

theorem FieldPlan.emitted?_descriptor {f : FieldPlan} (h : f.rawTag = none) :
    f.descriptor.emitted? = some (readBack f.declared f.emitted) := by
  rw [descriptor, tag, h, readBack]
  simp only
  by_cases hd : f.emitted = f.declared
  · rw [if_pos hd, if_pos (Or.inl hd)]
    rfl
  · rw [if_neg hd]
    by_cases hdash : f.emitted = "-"
    · have hread : ¬ ("-" = f.declared ∨ firstItem "-" = "") := by
        rintro (h | h)
        · exact hd (hdash.trans h)
        · exact absurd h (by decide)
      -- what is written behind the dash keeps it from hiding the field
      rw [if_pos hdash, hdash, if_neg hread]
      rfl
    · rw [if_neg hdash]
      simp only [emitted?, hdash, if_false, hd, false_or]
      split <;> rfl

/-! ### Resolved names -/

/-- A field without a raw tag is emitted under its resolved name exactly if that is the declared
one, or is not empty and has no comma. It is emitted in any case. -/
theorem emitted_resolved_iff {useSerializer : Bool} {rule : Option RenameRule} {f : NamedField}
    {plan : FieldPlan} (h : namedField useSerializer rule f = .ok (some plan))
    (hraw : plan.rawTag = none) :
    (∃ a, FieldAttributes.read f.attributes = .ok a ∧ plan.declared = unraw f.name ∧
      plan.emitted = resolvedName useSerializer rule f a) ∧
    plan.descriptor.emitted? = some (readBack plan.declared plan.emitted) ∧
    (plan.descriptor.emitted? = some plan.emitted ↔
      plan.emitted = plan.declared ∨ (plan.emitted ≠ "" ∧ ',' ∉ plan.emitted.toList)) := by
  obtain ⟨a, ha, _, hplan⟩ := namedField_eq_some h
  refine ⟨⟨a, ha, by rw [hplan], by rw [hplan]⟩, FieldPlan.emitted?_descriptor hraw, ?_⟩
  rw [FieldPlan.emitted?_descriptor hraw, Option.some_inj]
  exact readBack_eq_iff

/-- A name given by the serializer, for a field that is declared with a raw identifier. -/
theorem emitted_resolved_iff_kind : ∃ plan, namedField true (some .camel) ⟨"r#type", "String",
      [⟨"serde", .items [.list "rename" [.text "serialize" "kind"]]⟩]⟩ = .ok (some plan) ∧
    plan.rawTag = none ∧ plan.emitted = "kind" ∧ plan.descriptor.emitted? = some "kind" := by
  have h : namedField true (some .camel) ⟨"r#type", "String",
      [⟨"serde", .items [.list "rename" [.text "serialize" "kind"]]⟩]⟩ =
      .ok (some ⟨"r#type", "type", "kind", none⟩) := rfl
  exact ⟨_, h, rfl, rfl, (emitted_resolved_iff h rfl).2.2.mpr (Or.inr ⟨by decide, by decide⟩)⟩

/-- Of a name with a comma only the part before it is left. -/
theorem emitted_comma_lost : ∃ plan, namedField true none ⟨"x", "u8",
      [⟨"trim", .items [.text "rename" "a,b"]⟩]⟩ = .ok (some plan) ∧
    plan.rawTag = none ∧ plan.emitted = "a,b" ∧ plan.descriptor.emitted? = some "a" :=
  ⟨⟨"x", "x", "a,b", none⟩, rfl, rfl, rfl, rfl⟩

end Abridge.Derive

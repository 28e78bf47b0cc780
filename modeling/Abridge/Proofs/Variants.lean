import Abridge.Proofs.Caseless
import Abridge.Proofs.Structs

/-!
The names of variants beside those of fields. Both take the first name that is given, but a variant
starts from its identifier as it stands, where a field leaves out the mark of a raw one. So the two
agree on every identifier but the raw ones for which no name is given, and on none of these,
whatever the rule: no rule takes the mark away.
-/
namespace Abridge.Derive

/-! ### The name for the serializer

A reader without flags reads the same names as one with flags, up to the first flag.
-/

namespace SerializerKeys

section Followed

variable {σ τ : Type} {k : SerializerKeys σ} {l : SerializerKeys τ} {P : σ → Prop}
  {R : σ → τ → Prop} (hkey : k.nameKey = l.nameKey) (hnone : ∀ w, l.flag? w = none)
  (hname : ∀ n s, P (k.setName n s) ↔ P s) (hflag : ∀ w set s, k.flag? w = some set → P (set s))
  (hset : ∀ n s t, R s t → R (k.setName n s) (l.setName n t))

include hkey hnone hname hflag hset

theorem followed_readEntries : ∀ (es : List Entry) {s : σ} {t : τ}, R s t →
    P (k.readEntries s es) ∨ R (k.readEntries s es) (l.readEntries t es)
  | [], _, _, h => Or.inr h
  | e :: es, s, t, h => by
    have ih := fun {s t} => followed_readEntries es (s := s) (t := t)
    rw [readEntries, readEntries]
    by_cases he : e.key? = some k.nameKey
    · rw [k.step_of_name he, l.step_of_name (he.trans (congrArg some hkey)), takeName, takeName]
      cases e.writtenName with
      | none => exact Or.inr h
      | some o =>
        cases o with
        | none => exact ih h
        | some n => exact ih (hset n s t h)
    · cases hf : e.key?.bind k.flag? with
      | some set =>
        obtain ⟨w, _, hw⟩ := Option.bind_eq_some_iff.mp hf
        have hP : P (set s) := hflag w set s hw
        rw [k.step_of_flag he hf]
        refine Or.inl ?_
        split
        · exact (k.readEntries_iff hname hflag es _).mpr (Or.inl hP)
        · exact hP
      | none =>
        have hl : e.key?.bind l.flag? = none := by
          cases e.key? with
          | none => rfl
          | some w => exact hnone w
        rw [k.step_of_other he hf, l.step_of_other (hkey ▸ he) hl]
        cases e.skippable with
        | true => exact ih h
        | false => exact Or.inr h

theorem followed_readFrom (g : Syntax.Productions) : ∀ (n : Nat) {s : σ} {t : τ}
    (r : Syntax.Reading), R s t →
      P (k.readFrom g n s r) ∨ R (k.readFrom g n s r) (l.readFrom g n t r)
  | 0, _, _, _, h => Or.inr h
  | n + 1, s, t, r, h => by
    have ih := fun {s t} => followed_readFrom g n (s := s) (t := t)
    rw [readFrom, readFrom, k.item_run, l.item_run]
    cases hw : Syntax.key.run r with
    | error c =>
      rw [k.change_run_of_error hw, l.change_run_of_error hw]
      exact Or.inr h
    | ok x =>
      obtain ⟨w, r'⟩ := x
      rw [k.change_run hw, l.change_run hw, ← hkey]
      by_cases hwk : w = k.nameKey
      · rw [if_pos hwk, if_pos hwk]
        cases (writtenName g).run r' with
        | error c => exact Or.inr h
        | ok y =>
          obtain ⟨o, r''⟩ := y
          have ho : R (o.elim id k.setName s) (o.elim id l.setName t) := by
            cases o with
            | none => exact h
            | some n => exact hset n s t h
          simp only [Except.map]
          cases (Syntax.mark ",").run r'' with
          | error c => exact Or.inr ho
          | ok z => exact ih z.2 ho
      · rw [if_neg hwk, if_neg hwk, hnone]
        cases hf : k.flag? w with
        | some set =>
          have hP : P (set s) := hflag w set s hf
          refine Or.inl ?_
          simp only [Except.map]
          cases (Syntax.mark ",").run r' with
          | error c => exact hP
          | ok z => exact (k.readFrom_iff hname hflag g n _ _).mpr (Or.inl hP)
        | none =>
          cases (pass g).run r' with
          | error c => exact Or.inr h
          | ok y =>
            simp only [Except.map]
            cases (Syntax.mark ",").run y.2 with
            | error c => exact Or.inr h
            | ok z => exact ih z.2 h

theorem followed_readItems (is : List Item) {s : σ} {t : τ} (h : R s t) :
    P (k.readItems s is) ∨ R (k.readItems s is) (l.readItems t is) := by
  rw [readItems, readItems]
  cases plainEntries? is with
  | some es => exact followed_readEntries hkey hnone hname hflag hset es h
  | none => exact followed_readFrom hkey hnone hname hflag hset _ _ _ h

theorem followed_read (attributes : List Attribute) {s : σ} {t : τ} (h : R s t) :
    P (k.read s attributes) ∨ R (k.read s attributes) (l.read t attributes) := by
  have hlists : ∀ (iss : List (List Item)) s t, P s ∨ R s t →
      P (iss.foldl k.readItems s) ∨ R (iss.foldl k.readItems s) (iss.foldl l.readItems t) := by
    intro iss
    induction iss with
    | nil => exact fun _ _ h => h
    | cons is iss ih =>
      intro s t h
      refine ih _ _ ?_
      rcases h with h | h
      · exact Or.inl ((k.readItems_iff hname hflag s is).mpr (Or.inl h))
      · exact followed_readItems hkey hnone hname hflag hset is h
  exact hlists _ _ _ (Or.inr h)

end Followed

end SerializerKeys

variable {useSerializer : Bool} {rule : Option RenameRule}

/-- The name of a variant for the serializer, if it is asked. -/
def serializerVariantName (useSerializer : Bool) (attributes : List Attribute) : Option String :=
  if useSerializer then (SerializerVariant.read attributes).rename else none

/-- A field that is not skipped has the name for the serializer that a variant would have. -/
theorem rename_eq_of_not_skipped {attributes : List Attribute}
    (h : ¬ Skipped useSerializer attributes) : (serializerField useSerializer attributes).rename =
      serializerVariantName useSerializer attributes := by
  cases useSerializer with
  | false => rfl
  | true =>
    have hread := SerializerKeys.followed_read (k := SerializerField.keys)
      (l := SerializerVariant.keys) (P := (·.shouldSkip = true))
      (R := fun s t => s.rename = t.rename)
      rfl (fun _ => rfl) (fun _ _ => Iff.rfl)
      (fun _ _ s h => SerializerField.shouldSkip_of_flag h s) (fun _ _ _ _ => rfl) attributes
      (s := ⟨none, false, false⟩) (t := ⟨none⟩) rfl
    rcases hread with hskip | hname
    · obtain ⟨w, hw, hreach⟩ := SerializerField.shouldSkip_iff.mp hskip
      exact absurd (.serializer rfl hw hreach) h
    · exact hname

/-! ### Plans of variants -/

def Variant.planned (useSerializer : Bool) (rule : Option RenameRule) (v : Variant) :
    VariantPlan where
  identifier := v.name
  name := chosenName (ownValue Entry.textValue "rename" v.attributes)
    (serializerVariantName useSerializer v.attributes) rule v.name

theorem variant_eq_ok {v : Variant} {plan : VariantPlan}
    (h : variant useSerializer rule v = .ok plan) : plan = v.planned useSerializer rule := by
  rw [variant] at h
  split at h
  · split at h
    · cases h
    · rename_i a ha
      rw [← Except.ok.inj h, Variant.planned, chosenName, ← VariantAttributes.rename_eq ha,
        serializerVariantName, VariantAttributes.emittedName]
      cases a.rename <;>
        cases (if useSerializer then (SerializerVariant.read v.attributes).rename else none) <;>
        cases rule <;> rfl
  · cases h

theorem variants_eq_ok : ∀ {vs : List Variant} {plans : List VariantPlan},
    vs.mapM (variant useSerializer rule) = .ok plans →
      plans = vs.map (Variant.planned useSerializer rule)
  | [], _, h => by cases h; rfl
  | v :: vs, plans, h => by
    rw [List.mapM_cons] at h
    obtain ⟨plan, hplan, h⟩ := bind_eq_ok h
    obtain ⟨rest, hrest, h⟩ := bind_eq_ok h
    obtain rfl := Except.ok.inj h
    rw [variant_eq_ok hplan, variants_eq_ok hrest]
    rfl

/-- The plans of the variants of an enum, under the rule of the type. -/
theorem ofEnum_eq_ok {d : Definition} {plan : Plan} {vs : List Variant} {plans : List VariantPlan}
    (h : Plan.ofEnum useSerializer d = .ok plan) (hd : d.body = .enum vs)
    (hp : plan.presentation = .unitEnum plans) :
    plans = vs.map (Variant.planned useSerializer (typeRule useSerializer d.attributes)) := by
  rw [Plan.ofEnum] at h
  split at h
  · cases h
  · rename_i a ha
    rw [hd] at h
    obtain ⟨p, hrendering, h⟩ := bind_eq_ok h
    obtain rfl := Except.ok.inj h
    obtain rfl : p = .unitEnum plans := hp
    rcases rendering_eq_ok hrendering with h | h | h
    · cases h
    · cases h
    · obtain ⟨plans', hplans, hp⟩ := map_eq_ok h
      cases hp
      rw [renameAll_eq_typeRule ha] at hplans
      exact variants_eq_ok hplans

/-! ### Raw identifiers -/

/-- A raw identifier is one that is left without its mark. -/
theorem toList_of_raw {name : String} (h : unraw name ≠ name) :
    name.toList = 'r' :: '#' :: (unraw name).toList := by
  rw [unraw] at h ⊢
  split at h
  · rename_i rest heq
    rw [heq]
    simp
  · exact absurd rfl h

theorem hash_mem_applyOption_iff {name : String} :
    '#' ∈ (RenameRule.applyOption rule name).toList ↔ '#' ∈ name.toList := by
  cases rule with
  | none => rfl
  | some r =>
    rw [RenameRule.applyOption, RenameRule.apply, String.toList_ofList]
    exact RenameRule.hash_mem_applyChars_iff

/-- Without a name that is given, the rule decides, or the declared name stays. -/
theorem chosenName_none {declared : String} :
    chosenName none none rule declared = RenameRule.applyOption rule declared := by
  cases rule <;> rfl

/-- A choice does not depend on the mark exactly if there is none or a name is given. -/
theorem chosenName_unraw_iff {own other : Option String} {name : String}
    (hname : '#' ∉ (unraw name).toList) :
    chosenName own other rule name = chosenName own other rule (unraw name) ↔
      unraw name = name ∨ own.isSome ∨ other.isSome := by
  cases own with
  | some n => exact iff_of_true rfl (Or.inr (Or.inl rfl))
  | none =>
    cases other with
    | some n => exact iff_of_true rfl (Or.inr (Or.inr rfl))
    | none =>
      rw [chosenName_none, chosenName_none]
      constructor
      · intro h
        refine Classical.byContradiction fun hraw => ?_
        have hmark : '#' ∈ name.toList := by
          rw [toList_of_raw fun h => hraw (Or.inl h)]
          simp
        have hnamed : '#' ∈ (RenameRule.applyOption rule name).toList :=
          hash_mem_applyOption_iff.mpr hmark
        rw [h, hash_mem_applyOption_iff] at hnamed
        exact hname hnamed
      · rintro (h | h | h)
        · rw [h]
        · cases h
        · cases h

/-- A variant of an enum and a field of a struct with the same identifier and the same attributes,
in types with the same attributes. Both names are chosen in the same way, from the identifier as it
stands and from the declared name, so they agree unless the identifier is raw and no name is given
for it. -/
theorem variant_name_eq_iff {e s : String} {attributes : List Attribute} {ge gs : Generics}
    {vs : List Variant} {fs : List NamedField} {pe ps : Plan} {variants : List VariantPlan}
    {fields : List FieldPlan} {i : Nat} {v : Variant} {f : NamedField}
    (he : Plan.ofEnum useSerializer ⟨e, attributes, ge, .enum vs⟩ = .ok pe)
    (hs : Plan.ofStruct useSerializer ⟨s, attributes, gs, .struct (.named fs)⟩ = .ok ps)
    (hpe : pe.presentation = .unitEnum variants) (hps : ps.presentation = .record fields)
    (hv : vs[i]? = some v) (hf : f ∈ fs) (hname : f.name = v.name)
    (hattributes : f.attributes = v.attributes) (hkept : ¬ Skipped useSerializer f.attributes)
    (hword : '#' ∉ (unraw v.name).toList) :
    let rule := typeRule useSerializer attributes
    variants[i]? = some (v.planned useSerializer rule) ∧
    f.planned useSerializer rule ∈ fields ∧
    ((v.planned useSerializer rule).name = (f.planned useSerializer rule).emitted ↔
      unraw v.name = v.name ∨ (ownValue Entry.textValue "rename" v.attributes).isSome ∨
        (serializerVariantName useSerializer v.attributes).isSome) := by
  have hplanned := named_eq_record hs (by simp [hps]) (by simp [hps]) rfl
  obtain rfl : fields = _ := Presentation.record.inj (hps.symm.trans hplanned)
  refine ⟨?_, List.mem_map_of_mem (List.mem_filter.mpr ⟨hf, by simpa using hkept⟩), ?_⟩
  · rw [ofEnum_eq_ok he rfl hpe, List.getElem?_map, hv]
    rfl
  · rw [Variant.planned, NamedField.planned, rename_eq_of_not_skipped hkept, hattributes, hname]
    exact chosenName_unraw_iff hword

/-- A raw identifier with a name for the serializer. -/
theorem variant_name_eq_iff_kind : ∃ plan field,
    Plan.ofEnum true ⟨"Kind", [], ⟨[], []⟩,
      .enum [⟨"r#type", .unit, [⟨"serde", .items [.text "rename" "kind"]⟩]⟩]⟩ =
      .ok ⟨"Kind", ⟨[], []⟩, .unitEnum [plan]⟩ ∧
    Plan.ofStruct true ⟨"Event", [], ⟨[], []⟩,
      .struct (.named [⟨"r#type", "u8", [⟨"serde", .items [.text "rename" "kind"]⟩]⟩])⟩ =
      .ok ⟨"Event", ⟨[], []⟩, .record [field]⟩ ∧ plan.name = field.emitted := by
  have he : Plan.ofEnum true ⟨"Kind", [], ⟨[], []⟩,
      .enum [⟨"r#type", .unit, [⟨"serde", .items [.text "rename" "kind"]⟩]⟩]⟩ =
      .ok ⟨"Kind", ⟨[], []⟩, .unitEnum [⟨"r#type", "kind"⟩]⟩ := rfl
  have hs : Plan.ofStruct true ⟨"Event", [], ⟨[], []⟩,
      .struct (.named [⟨"r#type", "u8", [⟨"serde", .items [.text "rename" "kind"]⟩]⟩])⟩ =
      .ok ⟨"Event", ⟨[], []⟩, .record [⟨"r#type", "type", "kind", none⟩]⟩ := rfl
  have hkept : ¬ Skipped true [⟨"serde", .items [.text "rename" "kind"]⟩] :=
    fun h => absurd ((resolved_skip_iff (a := ⟨none, false, none⟩) rfl).mpr h) (by decide)
  refine ⟨_, _, he, hs, ?_⟩
  exact (variant_name_eq_iff (i := 0) he hs rfl rfl rfl List.mem_cons_self rfl rfl hkept
    (by decide)).2.2.mpr (Or.inr (Or.inr rfl))

/-- Without one the variant keeps the mark. -/
theorem raw_variant_marked :
    Plan.ofEnum true ⟨"Kind", [], ⟨[], []⟩, .enum [⟨"r#type", .unit, []⟩]⟩ =
      .ok ⟨"Kind", ⟨[], []⟩, .unitEnum [⟨"r#type", "r#type"⟩]⟩ ∧
    Plan.ofStruct true ⟨"Event", [], ⟨[], []⟩, .struct (.named [⟨"r#type", "u8", []⟩])⟩ =
      .ok ⟨"Event", ⟨[], []⟩, .record [⟨"r#type", "type", "type", none⟩]⟩ :=
  ⟨rfl, rfl⟩

end Abridge.Derive

import Abridge.Derive.Present
import Abridge.Proofs.Hidden
import Abridge.Proofs.Naming

/-!
Fields that are to be left out: those that are skipped, and those whose tag is a dash. In a struct
with named fields exactly these are not emitted: what the values of the type show depends on the
other fields alone. In a tuple struct a skipped field is not shown, but the tag is read and not
asked, so that a field with nothing but the dash is.
-/
namespace Abridge.Derive

/-! ### Marks -/

/-- The entry that gives the tag gives a dash. -/
def Dashed (attributes : List Attribute) : Prop :=
  ∃ e ∈ entriesAt trimPath attributes, e.key? = some "tag" ∧ e.textValue = .ok "-"

def Excluded (useSerializer : Bool) (attributes : List Attribute) : Prop :=
  Skipped useSerializer attributes ∨ Dashed attributes

/-! ### Named fields -/

/-- Only the dash hides a field: what is written for its resolved name never does. -/
theorem FieldPlan.emitted?_eq_none_iff {f : FieldPlan} :
    f.descriptor.emitted? = none ↔ f.rawTag = some "-" := by
  cases hraw : f.rawTag with
  | none => simp [FieldPlan.emitted?_descriptor hraw]
  | some t =>
    rw [FieldPlan.descriptor, FieldPlan.tag, hraw, Descriptor.emitted?, Option.some_inj]
    simp only
    split
    · simp [*]
    · split <;> simp [*]

/-- The plan of a field is emitted unless the field is to be left out. -/
theorem emitted_iff_not_excluded {useSerializer : Bool} {rule : Option RenameRule} {f : NamedField}
    {plan : FieldPlan} (h : namedField useSerializer rule f = .ok (some plan)) :
    plan.descriptor.emitted? ≠ none ↔ ¬ Excluded useSerializer f.attributes := by
  obtain ⟨a, ha, hskip, rfl⟩ := namedField_eq_some h
  rw [ne_eq, FieldPlan.emitted?_eq_none_iff, FieldAttributes.tag_iff ha, Excluded, not_or]
  exact ⟨fun hdash => ⟨hskip, hdash⟩, fun hex => hex.2⟩

/-- A record emits exactly the fields that are not to be left out. -/
theorem exists_emitted_iff {useSerializer : Bool} {rule : Option RenameRule} {fs : List NamedField}
    {plans : List FieldPlan} (h : namedFields useSerializer rule fs = .ok plans) {name : String} :
    (∃ f ∈ plans, f.member = name ∧ f.descriptor.emitted? ≠ none) ↔
      ∃ g ∈ fs, g.name = name ∧ ¬ Excluded useSerializer g.attributes := by
  have member : ∀ {g plan}, namedField useSerializer rule g = .ok (some plan) →
      plan.member = g.name := by
    intro g plan hplan
    obtain ⟨a, _, _, rfl⟩ := namedField_eq_some hplan
    rfl
  constructor
  · rintro ⟨f, hf, hname, he⟩
    obtain ⟨g, hg, hplan⟩ := (mem_namedFields h).mp hf
    exact ⟨g, hg, (member hplan).symm.trans hname, (emitted_iff_not_excluded hplan).mp he⟩
  · rintro ⟨g, hg, hname, hkept⟩
    obtain ⟨o, ho⟩ := namedField_of_mem h hg
    obtain ⟨f, rfl⟩ := namedField_of_not_skipped ho fun hs => hkept (Or.inl hs)
    exact ⟨f, (mem_namedFields h).mpr ⟨g, hg, ho⟩, (member ho).trans hname,
      (emitted_iff_not_excluded ho).mpr hkept⟩

/-- Records with the same values behind the descriptors that are emitted are redacted alike. -/
theorem redactFields_map_congr {α : Type} (p : Policy) (descriptor : α → Descriptor)
    {v w : α → Value} : ∀ {fs : List α}, (∀ f ∈ fs, (descriptor f).emitted? ≠ none → v f = w f) →
      redactFields p (fs.map fun f => (descriptor f, v f)) =
        redactFields p (fs.map fun f => (descriptor f, w f))
  | [], _ => rfl
  | f :: fs, h => by
    have ih := redactFields_map_congr p descriptor (v := v) (w := w)
      fun g hg => h g (List.mem_cons_of_mem _ hg)
    rw [List.map_cons, List.map_cons, redactFields, redactFields, ih]
    cases hshow : p.shows (descriptor f) with
    | false => rfl
    | true =>
      have he : (descriptor f).emitted? ≠ none := by
        intro hnone
        simp [Policy.shows, hnone] at hshow
      rw [h f List.mem_cons_self he]

/-- Values of a record type that agree on the fields emitted have the same tree. -/
theorem trim_present_congr {plan : Plan} {plans : List FieldPlan}
    (hp : plan.presentation = .record plans) (p : Policy) {x y : Instance}
    (h : ∀ f ∈ plans, f.descriptor.emitted? ≠ none → x.member f.member = y.member f.member) :
    (plan.present x).trim p = (plan.present y).trim p := by
  rw [← trim_redact p (plan.present x), ← trim_redact p (plan.present y)]
  simp only [Plan.present, hp, Value.redact]
  rw [redactFields_map_congr p FieldPlan.descriptor h]

/-! ### Positional fields -/

/-- Values of a tuple type that agree on the fields shown show themselves alike. -/
theorem present_congr {useSerializer : Bool} {fs : List PositionalField} {plan : Plan}
    (h : positionalFields useSerializer fs = .ok plan.presentation) {x y : Instance}
    (hxy : ∀ i, plan.presentation.ShowsPosition i → x.position i = y.position i) :
    plan.present x = plan.present y := by
  obtain ⟨is, _, hp⟩ := positionalFields_eq_ok h
  rcases hp with hp | ⟨i, _, hp⟩
  · simp only [Plan.present, hp]
    exact congrArg Value.list (List.map_congr_left fun i hi => hxy i (Or.inr ⟨is, hp, hi⟩))
  · simp only [Plan.present, hp]
    exact hxy i (Or.inl hp)

/-! ### Structs -/

/-- What values of a struct show. With named fields, exactly those that are not excluded are
emitted, and the tree depends on no other. A tuple struct shows exactly the fields that are not
skipped, so that the dash alone keeps none from being shown: there, no excluded field is shown
exactly if every field with a dash is skipped as well. -/
theorem excluded_unseen_iff {useSerializer : Bool} {d : Definition} {plan : Plan}
    (h : Plan.ofStruct useSerializer d = .ok plan) (hdisplay : plan.presentation ≠ .display)
    (herror : plan.presentation ≠ .error) :
    (∀ fs, d.body = .struct (.named fs) → ∃ plans, plan.presentation = .record plans ∧
      (∀ name, (∃ f ∈ plans, f.member = name ∧ f.descriptor.emitted? ≠ none) ↔
        ∃ g ∈ fs, g.name = name ∧ ¬ Excluded useSerializer g.attributes) ∧
      ∀ p x y, (∀ g ∈ fs, ¬ Excluded useSerializer g.attributes →
        x.member g.name = y.member g.name) → (plan.present x).trim p = (plan.present y).trim p) ∧
    ∀ fs, d.body = .struct (.positional fs) →
      (∀ i, plan.presentation.ShowsPosition i ↔
        ∃ f, fs[i]? = some f ∧ ¬ Skipped useSerializer f.attributes) ∧
      (∀ x y, (∀ i f, fs[i]? = some f → ¬ Skipped useSerializer f.attributes →
        x.position i = y.position i) → plan.present x = plan.present y) ∧
      ((∀ i f, fs[i]? = some f → Excluded useSerializer f.attributes →
          ¬ plan.presentation.ShowsPosition i) ↔
        ∀ f ∈ fs, Dashed f.attributes → Skipped useSerializer f.attributes) := by
  refine ⟨fun fs hd => ?_, fun fs hd => ?_⟩
  · obtain ⟨rule, hfields⟩ := structFields_of_ofStruct h hdisplay herror hd
    obtain ⟨plans, hplans, hpresent⟩ := bind_eq_ok hfields
    have hrecord : plan.presentation = .record plans := (Except.ok.inj hpresent).symm
    refine ⟨plans, hrecord, fun _ => exists_emitted_iff hplans, fun p x y hxy => ?_⟩
    refine trim_present_congr hrecord p fun f hf he => ?_
    obtain ⟨g, hg, hname, hkept⟩ := (exists_emitted_iff hplans).mp ⟨f, hf, rfl, he⟩
    exact hname ▸ hxy g hg hkept
  · obtain ⟨rule, hfields⟩ := structFields_of_ofStruct h hdisplay herror hd
    have hshows : ∀ i, plan.presentation.ShowsPosition i ↔
        ∃ f, fs[i]? = some f ∧ ¬ Skipped useSerializer f.attributes :=
      fun _ => showsPosition_iff hfields
    refine ⟨hshows, fun x y hxy => present_congr hfields fun i hi => ?_, ?_, ?_⟩
    · obtain ⟨f, hf, hkept⟩ := (hshows i).mp hi
      exact hxy i f hf hkept
    · intro hexcluded f hf hdash
      obtain ⟨i, hi⟩ := List.mem_iff_getElem?.mp hf
      refine Classical.byContradiction fun hkept => ?_
      exact hexcluded i f hi (Or.inr hdash) ((hshows i).mpr ⟨f, hi, hkept⟩)
    · intro hdash i f hf hexcluded hi
      obtain ⟨g, hg, hkept⟩ := (hshows i).mp hi
      obtain rfl : f = g := Option.some.inj (hf.symm.trans hg)
      exact hkept (hexcluded.elim id (hdash f (List.mem_of_getElem? hf)))

/-- A login with a password that the serializer skips and a token that has the dash. -/
theorem excluded_unseen_iff_login : ∃ plan plans, Plan.ofStruct true ⟨"Login", [], ⟨[], []⟩,
      .struct (.named [⟨"user", "String", []⟩,
        ⟨"password", "String", [⟨"serde", .items [.word "default", .word "skip"]⟩]⟩,
        ⟨"token", "String", [⟨"trim", .items [.text "tag" "-"]⟩]⟩])⟩ = .ok plan ∧
    plan.presentation = .record plans ∧
    ∀ p x y, x.member "user" = y.member "user" →
      (plan.present x).trim p = (plan.present y).trim p := by
  have h : Plan.ofStruct true ⟨"Login", [], ⟨[], []⟩,
      .struct (.named [⟨"user", "String", []⟩,
        ⟨"password", "String", [⟨"serde", .items [.word "default", .word "skip"]⟩]⟩,
        ⟨"token", "String", [⟨"trim", .items [.text "tag" "-"]⟩]⟩])⟩ =
      .ok ⟨"Login", ⟨[], []⟩, .record [⟨"user", "user", "user", none⟩,
        ⟨"token", "token", "token", some "-"⟩]⟩ := rfl
  obtain ⟨plans, hrecord, _, htrim⟩ := (excluded_unseen_iff h (by simp) (by simp)).1 _ rfl
  refine ⟨_, plans, h, hrecord, fun p x y huser => htrim p x y fun g hg hkept => ?_⟩
  simp only [List.mem_cons, List.not_mem_nil, or_false] at hg
  rcases hg with rfl | rfl | rfl
  · exact huser
  · have hreach : SerializerField.keys.Reaches "skip"
        [⟨"serde", .items [.word "default", .word "skip"]⟩] :=
      ⟨_, List.mem_cons_self, .later (by decide) (.here rfl)⟩
    exact absurd (Or.inl (.serializer rfl (Or.inl rfl) hreach)) hkept
  · exact absurd (Or.inr ⟨_, List.mem_append_left _ List.mem_cons_self, rfl, rfl⟩) hkept

/-- A pair whose first field has the dash shows it all the same. -/
theorem dashed_position_shown : ∃ plan, Plan.ofStruct true ⟨"Pair", [], ⟨[], []⟩,
      .struct (.positional [⟨"String", [⟨"trim", .items [.text "tag" "-"]⟩]⟩, ⟨"u8", []⟩])⟩ =
      .ok plan ∧ Dashed [⟨"trim", .items [.text "tag" "-"]⟩] ∧
    plan.presentation = .sequence [0, 1] ∧
    (plan.present ⟨[], [.text "secret", .scalar (.uint 1)], "", ""⟩).trim .standard =
      .ok (.seq [.text "secret", .uint 1]) :=
  ⟨⟨"Pair", ⟨[], []⟩, .sequence [0, 1]⟩, rfl,
    ⟨_, List.mem_append_left _ List.mem_cons_self, rfl, rfl⟩, rfl, rfl⟩

end Abridge.Derive

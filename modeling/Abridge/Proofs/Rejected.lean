import Abridge.Derive.Code
import Abridge.Proofs.Readable

/-!
Which definitions have code. A union has none. Of the other types, those that ask to be shown as one
text have it whatever their fields or variants are; a struct has it if the attributes of all its
fields can be read, and an enum if its variants carry no data and their attributes can be read. Any
other definition is rejected for the first thing that is wrong with it: its own attributes come
before those of its fields or variants, and these in the order in which they are declared. The
attributes of a serializer are never a reason.
-/
namespace Abridge.Derive

/-! ### Supported definitions -/

/-- The attributes of each field. -/
def Fields.attributes : Fields → List (List Attribute)
  | .named fs => fs.map (·.attributes)
  | .positional fs => fs.map (·.attributes)
  | .unit => []

/-- A variant without data, whose attributes can be read. -/
def Variant.IsNamed (v : Variant) : Prop :=
  v.fields = .unit ∧ Readable VariantAttributes.Takes v.attributes

/-- What a type consists of can be shown. -/
def Body.IsStructural : Body → Prop
  | .struct fields => ∀ as ∈ fields.attributes, Readable FieldAttributes.Takes as
  | .enum vs => ∀ v ∈ vs, v.IsNamed
  | .union => False

structure Supported (d : Definition) : Prop where
  not_union : d.body ≠ .union
  readable : Readable ContainerAttributes.Takes d.attributes
  one_text : ¬ (Asks "display" d.attributes ∧ Asks "error" d.attributes)
  shown : Asks "display" d.attributes ∨ Asks "error" d.attributes ∨ d.body.IsStructural

/-- The type is shown by what it consists of. -/
structure LookedInto (d : Definition) : Prop where
  readable : Readable ContainerAttributes.Takes d.attributes
  no_display : ¬ Asks "display" d.attributes
  no_error : ¬ Asks "error" d.attributes

/-- The diagnostics of definitions without code, each for the first thing that is wrong. -/
inductive Rejected (d : Definition) : Diagnostic → Prop
  | union : d.body = .union → Rejected d ⟨"Trim cannot be derived for unions", []⟩
  | container {faults} : d.body ≠ .union → ContainerAttributes.read d = .error faults →
    Rejected d ⟨"Failed to parse container attributes: " ++ faultsMessage faults, []⟩
  | conflict : d.body ≠ .union → Readable ContainerAttributes.Takes d.attributes →
    Asks "display" d.attributes → Asks "error" d.attributes →
    Rejected d ⟨"`display` and `error` cannot be combined",
      ["keep only one of `display` and `error`"]⟩
  | field {fields before as after faults} : LookedInto d → d.body = .struct fields →
    fields.attributes = before ++ as :: after →
    (∀ bs ∈ before, Readable FieldAttributes.Takes bs) → FieldAttributes.read as = .error faults →
    Rejected d ⟨"Failed to parse field attributes: " ++ faultsMessage faults, []⟩
  | data {before v after} : LookedInto d → d.body = .enum (before ++ v :: after) →
    (∀ w ∈ before, w.IsNamed) → v.fields ≠ .unit →
    Rejected d ⟨"Variant '" ++ v.name ++ "' carries data, which has no structural form",
      ["add #[trim(display)] to log the Display form, or #[trim(error)] for an error type"]⟩
  | variant {before v after faults} : LookedInto d → d.body = .enum (before ++ v :: after) →
    (∀ w ∈ before, w.IsNamed) → v.fields = .unit →
    VariantAttributes.read v.attributes = .error faults →
    Rejected d ⟨"Failed to parse variant attributes: " ++ faultsMessage faults, []⟩

/-! ### Faults of fields and variants -/

variable {useSerializer : Bool} {rule : Option RenameRule}

def fieldFault? (as : List Attribute) : Option DefinitionFault :=
  (failure? (FieldAttributes.read as)).map .fieldAttributes

/-- Data is a fault before any in the attributes. -/
def variantFault? (v : Variant) : Option DefinitionFault :=
  match v.fields with
  | .unit => (failure? (VariantAttributes.read v.attributes)).map .variantAttributes
  | _ => some (.dataVariant v.name)

theorem failure?_namedField (f : NamedField) :
    failure? (namedField useSerializer rule f) = fieldFault? f.attributes := by
  rw [namedField, fieldFault?]
  cases FieldAttributes.read f.attributes with
  | error fs => rfl
  | ok a =>
    simp only
    split <;> rfl

theorem failure?_keepsPosition (f : PositionalField) :
    failure? (keepsPosition useSerializer f) = fieldFault? f.attributes := by
  rw [keepsPosition, fieldFault?]
  cases FieldAttributes.read f.attributes <;> rfl

theorem failure?_variant (v : Variant) :
    failure? (variant useSerializer rule v) = variantFault? v := by
  rw [variant, variantFault?]
  cases v.fields with
  | named | positional => rfl
  | unit => cases VariantAttributes.read v.attributes <;> rfl

theorem findSome?_cons_eq_or {α β : Type} (f : α → Option β) (x : α) (xs : List α) :
    (x :: xs).findSome? f = (f x).or (xs.findSome? f) := by
  rw [List.findSome?_cons]
  cases f x <;> rfl

theorem failure?_namedFields (fs : List NamedField) :
    failure? (namedFields useSerializer rule fs) =
      fs.findSome? fun f => fieldFault? f.attributes := by
  induction fs with
  | nil => rfl
  | cons f fs ih => rw [namedFields, failure?_both, failure?_namedField, ih, findSome?_cons_eq_or]

theorem failure?_keptIndices (fs : List PositionalField) (i : Nat) :
    failure? (keptIndices useSerializer i fs) = fs.findSome? fun f => fieldFault? f.attributes := by
  induction fs generalizing i with
  | nil => rfl
  | cons f fs ih =>
    rw [keptIndices, failure?_both, failure?_keepsPosition, ih, findSome?_cons_eq_or]

theorem failure?_variants (vs : List Variant) :
    failure? (vs.mapM (variant useSerializer rule)) = vs.findSome? variantFault? := by
  induction vs with
  | nil => rfl
  | cons v vs ih => rw [List.mapM_cons, failure?_both, failure?_variant, ih, findSome?_cons_eq_or]

/-- The first field with a fault decides, however the fields are shown. -/
theorem failure?_structFields (fields : Fields) :
    failure? (structFields useSerializer rule fields) =
      fields.attributes.findSome? fieldFault? := by
  cases fields with
  | unit => rfl
  | named fs =>
    rw [structFields, Fields.attributes, List.findSome?_map]
    exact (failure?_map _ _).trans (failure?_namedFields fs)
  | positional fs =>
    rw [structFields, Fields.attributes, List.findSome?_map, positionalFields]
    have hfields : failure? (keptIndices useSerializer 0 fs) = _ := failure?_keptIndices fs 0
    refine Eq.trans ?_ hfields
    cases keptIndices useSerializer 0 fs with
    | error c => rfl
    | ok is =>
      simp only [bind, Except.bind]
      split <;> rfl

/-! ### The fault of a definition -/

/-- The first fault in what a type consists of. -/
def Body.fault? : Body → Option DefinitionFault
  | .struct fields => fields.attributes.findSome? fieldFault?
  | .enum vs => vs.findSome? variantFault?
  | .union => some .union

theorem failure?_rendering (a : ContainerAttributes)
    (content : Except DefinitionFault Presentation) : failure? (rendering a content) =
      if a.display && a.error then some .conflictingRendering
      else if a.display || a.error then none else failure? content := by
  rw [rendering]
  cases a.display <;> cases a.error <;> rfl

theorem ofDefinition_of_read_eq_error {d : Definition} {faults : List ItemFault}
    (hd : d.body ≠ .union) (h : ContainerAttributes.read d = .error faults) :
    Plan.ofDefinition useSerializer d = .error (.containerAttributes faults) := by
  rw [Plan.ofDefinition]
  cases hbody : d.body with
  | union => exact absurd hbody hd
  | struct fields => simp only [Plan.ofStruct, h]
  | enum vs => simp only [Plan.ofEnum, h]

/-- Attributes that ask for one text hide all other faults. -/
theorem failure?_ofDefinition {d : Definition} {a : ContainerAttributes} (hd : d.body ≠ .union)
    (h : ContainerAttributes.read d = .ok a) : failure? (Plan.ofDefinition useSerializer d) =
      if a.display && a.error then some .conflictingRendering
      else if a.display || a.error then none else d.body.fault? := by
  rw [Plan.ofDefinition]
  cases hbody : d.body with
  | union => exact absurd hbody hd
  | struct fields =>
    simp only [Plan.ofStruct, h, hbody, Body.fault?]
    refine (failure?_map _ _).trans ?_
    rw [failure?_rendering, failure?_structFields]
  | enum vs =>
    simp only [Plan.ofEnum, h, hbody, Body.fault?]
    refine (failure?_map _ _).trans ?_
    rw [failure?_rendering, failure?_map, failure?_variants]

/-! ### Code and diagnostics -/

theorem derive_eq_ok_iff {d : Definition} : (∃ code, derive useSerializer d = .ok code) ↔
    failure? (Plan.ofDefinition useSerializer d) = none := by
  rw [derive]
  cases Plan.ofDefinition useSerializer d <;> simp [failure?]

theorem derive_eq_error_iff {d : Definition} {e : Diagnostic} :
    derive useSerializer d = .error e ↔
      ∃ f, failure? (Plan.ofDefinition useSerializer d) = some f ∧ Diagnostic.ofFault f = e := by
  rw [derive]
  cases Plan.ofDefinition useSerializer d <;> simp [failure?]

theorem fieldFault?_eq_none_iff {as : List Attribute} :
    fieldFault? as = none ↔ Readable FieldAttributes.Takes as := by
  rw [fieldFault?, Option.map_eq_none_iff, failure?_eq_none_iff, FieldAttributes.read_eq_ok_iff]

theorem variantFault?_eq_none_iff {v : Variant} : variantFault? v = none ↔ v.IsNamed := by
  rw [variantFault?, Variant.IsNamed]
  cases v.fields with
  | named | positional => simp
  | unit =>
    simp only [true_and]
    rw [Option.map_eq_none_iff, failure?_eq_none_iff, VariantAttributes.read_eq_ok_iff]

theorem Body.fault?_eq_none_iff {b : Body} : b.fault? = none ↔ b.IsStructural := by
  cases b with
  | union => simp [fault?, IsStructural]
  | struct fields =>
    rw [fault?, List.findSome?_eq_none_iff, IsStructural]
    exact forall₂_congr fun _ _ => fieldFault?_eq_none_iff
  | enum vs =>
    rw [fault?, List.findSome?_eq_none_iff, IsStructural]
    exact forall₂_congr fun _ _ => variantFault?_eq_none_iff

section

variable {d : Definition}

theorem LookedInto.failure?_eq (h : LookedInto d) (hd : d.body ≠ .union) :
    failure? (Plan.ofDefinition useSerializer d) = d.body.fault? := by
  obtain ⟨a, ha⟩ := (ContainerAttributes.read_eq_ok_iff hd).mpr h.readable
  have hdisplay : a.display = false := by
    rw [← Bool.not_eq_true, ContainerAttributes.display_iff ha]
    exact h.no_display
  have herror : a.error = false := by
    rw [← Bool.not_eq_true, ContainerAttributes.error_iff ha]
    exact h.no_error
  rw [failure?_ofDefinition hd ha, hdisplay, herror]
  rfl

theorem Supported.derive_eq_ok (h : Supported d) :
    ∃ code, derive useSerializer d = .ok code := by
  obtain ⟨a, ha⟩ := (ContainerAttributes.read_eq_ok_iff h.not_union).mpr h.readable
  have hone := h.one_text
  rw [← ContainerAttributes.display_iff ha, ← ContainerAttributes.error_iff ha] at hone
  rw [derive_eq_ok_iff, failure?_ofDefinition h.not_union ha, if_neg (by simpa using hone)]
  split
  · rfl
  · rename_i hplain
    rw [Bool.or_eq_true, ContainerAttributes.display_iff ha, ContainerAttributes.error_iff ha,
      not_or] at hplain
    rcases h.shown with hdisplay | herror | hbody
    · exact absurd hdisplay hplain.1
    · exact absurd herror hplain.2
    · exact Body.fault?_eq_none_iff.mpr hbody

theorem Rejected.derive_eq_error {e : Diagnostic} (h : Rejected d e) :
    derive useSerializer d = .error e := by
  cases h with
  | union hd => rw [derive, Plan.ofDefinition, hd]; rfl
  | container hd hread => rw [derive, ofDefinition_of_read_eq_error hd hread]; rfl
  | conflict hd hreadable hdisplay herror =>
    obtain ⟨a, ha⟩ := (ContainerAttributes.read_eq_ok_iff hd).mpr hreadable
    refine derive_eq_error_iff.mpr ⟨.conflictingRendering, ?_, rfl⟩
    rw [failure?_ofDefinition hd ha, (ContainerAttributes.display_iff ha).mpr hdisplay,
      (ContainerAttributes.error_iff ha).mpr herror]
    rfl
  | @field fields before as after faults hlooked hbody hsplit hbefore hread =>
    refine derive_eq_error_iff.mpr ⟨.fieldAttributes faults, ?_, rfl⟩
    rw [hlooked.failure?_eq (by simp [hbody]), hbody, Body.fault?, List.findSome?_eq_some_iff]
    exact ⟨before, as, after, hsplit, by simp [fieldFault?, failure?, hread],
      fun bs hbs => fieldFault?_eq_none_iff.mpr (hbefore bs hbs)⟩
  | @data before v after hlooked hbody hbefore hdata =>
    have hfault : variantFault? v = some (.dataVariant v.name) := by
      rw [variantFault?]
      split
      · exact absurd ‹_› hdata
      · rfl
    refine derive_eq_error_iff.mpr ⟨.dataVariant v.name, ?_, rfl⟩
    rw [hlooked.failure?_eq (by simp [hbody]), hbody, Body.fault?, List.findSome?_eq_some_iff]
    exact ⟨before, v, after, rfl, hfault,
      fun w hw => variantFault?_eq_none_iff.mpr (hbefore w hw)⟩
  | @variant before v after faults hlooked hbody hbefore hunit hread =>
    refine derive_eq_error_iff.mpr ⟨.variantAttributes faults, ?_, rfl⟩
    rw [hlooked.failure?_eq (by simp [hbody]), hbody, Body.fault?, List.findSome?_eq_some_iff]
    exact ⟨before, v, after, rfl, by simp [variantFault?, failure?, hunit, hread],
      fun w hw => variantFault?_eq_none_iff.mpr (hbefore w hw)⟩

/-- What is wrong with the fields or variants of a type is reported if nothing else is wrong. -/
theorem LookedInto.rejected (h : LookedInto d) (hd : d.body ≠ .union) {f : DefinitionFault}
    (hf : d.body.fault? = some f) : ∃ e, Rejected d e := by
  cases hbody : d.body with
  | union => exact absurd hbody hd
  | struct fields =>
    rw [hbody, Body.fault?] at hf
    obtain ⟨before, as, after, hsplit, hfault, hbefore⟩ := List.findSome?_eq_some_iff.mp hf
    obtain ⟨faults, hread, _⟩ := Option.map_eq_some_iff.mp hfault
    exact ⟨_, .field h hbody hsplit (fun bs hbs => fieldFault?_eq_none_iff.mp (hbefore bs hbs))
      (failure?_eq_some_iff.mp hread)⟩
  | enum vs =>
    rw [hbody, Body.fault?] at hf
    obtain ⟨before, v, after, rfl, hfault, hbefore⟩ := List.findSome?_eq_some_iff.mp hf
    have hnamed : ∀ w ∈ before, w.IsNamed := fun w hw =>
      variantFault?_eq_none_iff.mp (hbefore w hw)
    by_cases hunit : v.fields = .unit
    · simp only [variantFault?, hunit] at hfault
      obtain ⟨faults, hread, _⟩ := Option.map_eq_some_iff.mp hfault
      exact ⟨_, .variant h hbody hnamed hunit (failure?_eq_some_iff.mp hread)⟩
    · exact ⟨_, .data h hbody hnamed hunit⟩

theorem supported_or_rejected (d : Definition) : Supported d ∨ ∃ e, Rejected d e := by
  by_cases hd : d.body = .union
  · exact Or.inr ⟨_, .union hd⟩
  cases ha : ContainerAttributes.read d with
  | error faults => exact Or.inr ⟨_, .container hd ha⟩
  | ok a =>
    have hreadable := (ContainerAttributes.read_eq_ok_iff hd).mp ⟨a, ha⟩
    by_cases hdisplay : Asks "display" d.attributes <;> by_cases herror : Asks "error" d.attributes
    · exact Or.inr ⟨_, .conflict hd hreadable hdisplay herror⟩
    · exact Or.inl ⟨hd, hreadable, fun h => herror h.2, Or.inl hdisplay⟩
    · exact Or.inl ⟨hd, hreadable, fun h => hdisplay h.1, Or.inr (Or.inl herror)⟩
    · cases hf : d.body.fault? with
      | none =>
        exact Or.inl ⟨hd, hreadable, fun h => hdisplay h.1,
          Or.inr (Or.inr (Body.fault?_eq_none_iff.mp hf))⟩
      | some f => exact Or.inr (LookedInto.rejected ⟨hreadable, hdisplay, herror⟩ hd hf)

end

/-! ### Attributes of a serializer -/

/-- The attributes of the program itself. -/
def ownOnly (attributes : List Attribute) : List Attribute :=
  attributes.filter (·.path = trimPath)

def Fields.ownOnly : Fields → Fields
  | .named fs => .named (fs.map fun f => { f with attributes := Derive.ownOnly f.attributes })
  | .positional fs =>
    .positional (fs.map fun f => { f with attributes := Derive.ownOnly f.attributes })
  | .unit => .unit

def Variant.ownOnly (v : Variant) : Variant :=
  ⟨v.name, v.fields.ownOnly, Derive.ownOnly v.attributes⟩

def Body.ownOnly : Body → Body
  | .struct fields => .struct fields.ownOnly
  | .enum vs => .enum (vs.map Variant.ownOnly)
  | .union => .union

/-- The definition without the attributes of a serializer, or of anyone else. -/
def Definition.ownOnly (d : Definition) : Definition :=
  ⟨d.name, Derive.ownOnly d.attributes, d.generics, d.body.ownOnly⟩

theorem fieldFault?_ownOnly (as : List Attribute) :
    fieldFault? (ownOnly as) = fieldFault? as := by
  have hread : FieldAttributes.read (ownOnly as) = FieldAttributes.read as :=
    congrArg Progress.finish (FieldAttributes.reader.all_filter _ as)
  rw [fieldFault?, fieldFault?, hread]

theorem variantFault?_ownOnly (v : Variant) : variantFault? v.ownOnly = variantFault? v := by
  have hread :
      VariantAttributes.read (ownOnly v.attributes) = VariantAttributes.read v.attributes :=
    congrArg Progress.finish (VariantAttributes.reader.all_filter _ v.attributes)
  rw [variantFault?, variantFault?, Variant.ownOnly, hread]
  cases v.fields <;> rfl

theorem Fields.attributes_ownOnly (fields : Fields) :
    fields.ownOnly.attributes = fields.attributes.map Derive.ownOnly := by
  cases fields with
  | unit => rfl
  | named | positional => simp [ownOnly, attributes, Function.comp_def]

theorem Body.fault?_ownOnly (b : Body) : b.ownOnly.fault? = b.fault? := by
  cases b with
  | union => rfl
  | struct fields =>
    rw [ownOnly, fault?, fault?, Fields.attributes_ownOnly, List.findSome?_map]
    exact congrArg (fields.attributes.findSome? ·) (funext fieldFault?_ownOnly)
  | enum vs =>
    rw [ownOnly, fault?, fault?, List.findSome?_map]
    exact congrArg (vs.findSome? ·) (funext variantFault?_ownOnly)

theorem Body.ownOnly_eq_union_iff {b : Body} : b.ownOnly = .union ↔ b = .union := by
  cases b <;> simp [ownOnly]

theorem ContainerAttributes.read_ownOnly (d : Definition) : read d.ownOnly = read d := by
  have hall : reader.all ⟨none, false, false⟩ d.ownOnly.attributes =
      reader.all ⟨none, false, false⟩ d.attributes := reader.all_filter _ _
  rw [read, read, hall, Definition.ownOnly]
  cases d.body <;> rfl

/-- No fault depends on the attributes of a serializer, whether it is asked or not. -/
theorem failure?_ownOnly (other : Bool) (d : Definition) :
    failure? (Plan.ofDefinition other d.ownOnly) =
      failure? (Plan.ofDefinition useSerializer d) := by
  by_cases hd : d.body = .union
  · have hown : d.ownOnly.body = .union := Body.ownOnly_eq_union_iff.mpr hd
    rw [Plan.ofDefinition, Plan.ofDefinition, hd, hown]
  have hown : d.ownOnly.body ≠ .union := fun h => hd (Body.ownOnly_eq_union_iff.mp h)
  have hread := ContainerAttributes.read_ownOnly d
  cases ha : ContainerAttributes.read d with
  | error faults =>
    rw [ofDefinition_of_read_eq_error hd ha, ofDefinition_of_read_eq_error hown (hread.trans ha)]
  | ok a =>
    have hbody : d.ownOnly.body.fault? = d.body.fault? := Body.fault?_ownOnly d.body
    rw [failure?_ofDefinition hd ha, failure?_ofDefinition hown (hread.trans ha), hbody]

/-! ### Outcomes -/

/-- A definition has code exactly if it is supported, and any other one is rejected with the
diagnostic for the first thing that is wrong with it. The attributes of a serializer are no reason:
without them, and whether or not the serializer is asked, the same definitions are rejected with the
same diagnostics. -/
theorem derive_outcome (useSerializer : Bool) (d : Definition) :
    ((∃ code, derive useSerializer d = .ok code) ↔ Supported d) ∧
    (∀ e, derive useSerializer d = .error e ↔ Rejected d e) ∧
    ∀ other e, derive other d.ownOnly = .error e ↔ derive useSerializer d = .error e := by
  refine ⟨⟨?_, fun h => h.derive_eq_ok⟩, fun e => ⟨?_, fun h => h.derive_eq_error⟩, ?_⟩
  · rintro ⟨code, hcode⟩
    rcases supported_or_rejected d with h | ⟨e, h⟩
    · exact h
    · rw [h.derive_eq_error] at hcode
      cases hcode
  · intro he
    rcases supported_or_rejected d with h | ⟨f, h⟩
    · obtain ⟨code, hcode⟩ : ∃ code, derive useSerializer d = .ok code := h.derive_eq_ok
      rw [he] at hcode
      cases hcode
    · rw [h.derive_eq_error, Except.error.injEq] at he
      rwa [← he]
  · intro other e
    rw [derive_eq_error_iff, derive_eq_error_iff, failure?_ownOnly]

/-- An attribute with a number for a text and with a key that is used twice cannot be read. Both
faults are reported, also where the serializer is not asked; its own attribute is no reason. -/
theorem derive_outcome_unreadable :
    let attributes : List Attribute :=
      [⟨"trim", .items [.int "tag" 7, .word "skip", .word "skip"]⟩]
    let d : Definition := ⟨"Login", [], ⟨[], []⟩, .struct (.named [
      ⟨"user", "String",
        [⟨"trim", .items [.text "rename" "name"]⟩, ⟨"serde", .items [.word "rename"]⟩]⟩,
      ⟨"password", "String", attributes⟩])⟩
    let e : Diagnostic := ⟨"Failed to parse field attributes: Multiple errors: " ++
      "(Unexpected type `int` at tag, Duplicate field `skip`)", []⟩
    ¬ Readable FieldAttributes.Takes attributes ∧ ¬ Supported d ∧ Rejected d e ∧
      ∀ useSerializer, derive useSerializer d.ownOnly = .error e := by
  intro attributes d e
  obtain ⟨hsupported, hrejected, hother⟩ := derive_outcome true d
  have hderive : derive true d = .error e := rfl
  refine ⟨fun h => ?_, fun h => ?_, (hrejected e).mp hderive, fun b => (hother b e).mpr hderive⟩
  · exact absurd h.once (by decide)
  · obtain ⟨code, hcode⟩ := hsupported.mpr h
    rw [hderive] at hcode
    cases hcode

/-- The data of a variant is reported, and not the attribute before it that cannot be read. -/
example : derive true ⟨"Figure", [], ⟨[], []⟩, .enum [⟨"Point", .unit, []⟩,
      ⟨"Circle", .positional [⟨"u8", []⟩], [⟨"trim", .items [.word "rename"]⟩]⟩]⟩ =
    .error ⟨"Variant 'Circle' carries data, which has no structural form",
      ["add #[trim(display)] to log the Display form, or #[trim(error)] for an error type"]⟩ := rfl

end Abridge.Derive

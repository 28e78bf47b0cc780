import Abridge.Derive.Present
import Abridge.Proofs.Contents
import Abridge.Proofs.Headers
import Abridge.Proofs.Outcome

/-!
Generated code, read back. The code for a plan is an implementation that gives the shape of a value
and, for a record or a sequence, a second one with the same parameters and conditions that gives the
fields or the items. Together they show of a value what the plan shows of it.
-/
namespace Abridge.Derive

open Code

/-! ### What is meant -/

/-- `subject: ::trait` -/
def implements (subject : String) (trait : List String) : List Token :=
  .word subject :: .mark ":" :: path trait

/-- What must hold besides the conditions of the definition: all type parameters of a type that is
looked into can be shown, and a type with parameters that is shown as one text has that text. -/
def Presentation.needs (ps : List Parameter) : Presentation → List (List Token)
  | .record _ => needsOfTypes
  | .transparent _ => needsOfTypes
  | .sequence _ => needsOfTypes
  | .display => needsOfAll ["std", "fmt", "Display"]
  | .error => needsOfAll ["std", "error", "Error"]
  | .unitRecord => []
  | .unitEnum _ => []
where
  needsOfTypes : List (List Token) :=
    ps.filterMap fun
      | .type n _ _ => some (implements n ["logtrim", "Trimmable"])
      | .lifetime _ _ => none
      | .const _ _ _ => none
  needsOfAll (trait : List String) : List (List Token) :=
    if ps.isEmpty then [] else [implements "Self" trait]

/-- `type: bound + bound` -/
def Predicate.condition (p : Predicate) : List Token :=
  Syntax.subjectTokens p.type ++ .mark ":" :: joinedBounds p.bounds

/-- The header of each implementation for a type. -/
def Definition.header (d : Definition) (p : Presentation) (trait : String) : Header where
  trait := ["logtrim", trait]
  name := d.name
  parameters := (inFront d.generics.parameters).map Parameter.declared
  arguments := (inFront d.generics.parameters).map Parameter.name
  conditions := d.generics.predicates.map Predicate.condition ++ p.needs d.generics.parameters

theorem states_condition (p : Predicate) : States p p.condition :=
  ⟨_, _, rfl, Syntax.rendered_tokensOf Syntax.carries_subject, spellsBounds_joinedBounds p.bounds⟩

/-- The header has the parameters of the definition, lifetimes first, and its predicates, with those
behind them that the shape of the values needs. -/
structure Code.Header.Follows (h : Header) (d : Definition) (p : Presentation) : Prop where
  name : h.name = d.name
  parameters : List.Forall₂ Declares (inFront d.generics.parameters) h.parameters
  arguments : h.arguments = (inFront d.generics.parameters).map Parameter.name
  conditions : ∃ own, h.conditions = own ++ p.needs d.generics.parameters ∧
    List.Forall₂ States d.generics.predicates own

theorem Definition.header_follows (d : Definition) (p : Presentation) (trait : String) :
    (d.header p trait).Follows d p where
  name := rfl
  parameters :=
    List.forall₂_map_right_iff.mpr (List.forall₂_same.mpr fun q _ => declares_declared q)
  arguments := rfl
  conditions := ⟨_, rfl,
    List.forall₂_map_right_iff.mpr (List.forall₂_same.mpr fun q _ => states_condition q)⟩

/-- The trait of the second implementation, if there is one, and what its block says. -/
def Presentation.companion : Presentation → Option (String × Content)
  | .record fs => some ("Record", .fields (fs.map fun f => (f.descriptor, f.member)))
  | .unitRecord => some ("Record", .fields [])
  | .sequence is => some ("Sequence", .items is.length is)
  | _ => none

/-- The implementations that values of a type show themselves by. -/
def Definition.implementations (d : Definition) (p : Presentation) : List (Header × Content) :=
  (d.header p "Trimmable", .shape p.shape) ::
    (p.companion.map fun (trait, content) => (d.header p trait, content)).toList

/-! ### Reading it back -/

namespace Code

/-- The implementations of a whole text, each with its header and what its block says. -/
def readCode (ts : List Token) : Option (List (Header × Content)) := do
  (← readImplementations ts.length ts).mapM fun (header, block) =>
    return (header, ← readContent header.trait block)

/-- How implementations show a value: its shape, with the fields or items if it has some. -/
def presented (x : Instance) (implementations : List (Header × Content)) : Option Value :=
  match implementations.map Prod.snd with
  | [.shape .record, .fields fs] => some (.record (fs.map fun (d, m) => (d, x.member m)))
  | [.shape .sequence, .items length is] => some (.seq length (is.map x.position))
  | [.shape (.inner i)] => some (x.position i)
  | [.shape (.variantName names)] =>
    some ((names.lookup x.variant).elim .unsupported .text)
  | [.shape .text] => some (.special (.text x.rendering))
  | [.shape .error] => some (.special (.error x.rendering))
  | _ => none

theorem readImplementations_append {p : Plan} (h : p.generics.isSound = true) (m : String)
    (ms : List String) (body : List Token) {ts : List Token} (hts : StartsOver ts) (n : Nat) :
    readImplementations (n + 1) (implementation p (path (m :: ms)) body ++ ts) =
      (readImplementations n ts).map ((.of p (m :: ms), body) :: ·) := by
  rw [readImplementations, readImplementation_implementation h m ms body hts]
  · simp only [Option.bind_eq_bind, Option.bind_some]
    cases readImplementations n ts <;> rfl
  · simp [implementation]

/-- Trait and block of the second implementation. -/
def companionBlock : Presentation → Option (String × List Token)
  | .record fs => some ("Record", fieldsBody fs)
  | .unitRecord => some ("Record", fieldsBody [])
  | .sequence is => some ("Sequence", sequenceBody is)
  | _ => none

theorem companion_eq (p : Plan) : companion p =
    (companionBlock p.presentation).elim [] fun c => implementation p (trait c.1) c.2 := by
  rw [companion]
  cases p.presentation <;> rfl

theorem readImplementations_code {p : Plan} (h : p.generics.isSound = true) :
    readImplementations p.code.length p.code =
      some ((.of p ["logtrim", "Trimmable"], shapeBody p) :: ((companionBlock p.presentation).map
        fun c => (.of p ["logtrim", c.1], c.2)).toList) := by
  have hcode : p.code = implementation p (path ["logtrim", "Trimmable"]) (shapeBody p) ++
    (companionBlock p.presentation).elim [] fun c => implementation p (trait c.1) c.2 := by
      rw [← companion_eq]
      rfl
  obtain ⟨n, hn⟩ : ∃ n, p.code.length = n + 2 := by
    refine ⟨p.code.length - 2, ?_⟩
    have hlength : 2 ≤ p.code.length := by simp [hcode, implementation]; omega
    omega
  rw [hn, hcode]
  cases companionBlock p.presentation with
  | none =>
    rw [Option.elim_none, readImplementations_append h _ _ _ (Or.inl rfl)]
    rfl
  | some c =>
    have hcompanion := readImplementations_append h "logtrim" [c.1] c.2 (Or.inl rfl) n
    rw [List.append_nil] at hcompanion
    rw [Option.elim_some, readImplementations_append h _ _ _ (Or.inr rfl), trait, hcompanion]
    cases n <;> rfl

theorem readContent_companionBlock (p : Presentation) :
    (companionBlock p = none ∧ p.companion = none) ∨
      ∃ trait block content, companionBlock p = some (trait, block) ∧
        p.companion = some (trait, content) ∧
        readContent ["logtrim", trait] block = some content := by
  cases p with
  | record fs => exact Or.inr ⟨_, _, _, rfl, rfl, readContent_fieldsBody fs⟩
  | unitRecord => exact Or.inr ⟨_, _, _, rfl, rfl, readContent_fieldsBody []⟩
  | sequence is => exact Or.inr ⟨_, _, _, rfl, rfl, readContent_sequenceBody is⟩
  | transparent i => exact Or.inl ⟨rfl, rfl⟩
  | unitEnum vs => exact Or.inl ⟨rfl, rfl⟩
  | display => exact Or.inl ⟨rfl, rfl⟩
  | error => exact Or.inl ⟨rfl, rfl⟩

theorem requirements_eq (p : Plan) :
    requirements p = p.presentation.needs p.generics.parameters := by
  have htypes : p.generics.typeNames.map (fun n => [.word n, .mark ":"] ++ trait "Trimmable") =
      Presentation.needs.needsOfTypes p.generics.parameters := by
    rw [Generics.typeNames, Presentation.needs.needsOfTypes, List.map_filterMap]
    congr 1
    funext q
    cases q <;> rfl
  rw [requirements]
  cases p.presentation with
  | record fs => exact htypes
  | transparent i => exact htypes
  | sequence is => exact htypes
  | unitRecord => exact (if_neg Bool.false_ne_true).trans (ite_self [])
  | unitEnum vs => exact (if_neg Bool.false_ne_true).trans (ite_self [])
  | display => exact if_neg Bool.false_ne_true
  | error => exact if_neg Bool.false_ne_true

end Code

/-- A plan has the name and the parameters of its definition. -/
theorem Plan.of_definition {useSerializer : Bool} {d : Definition} {p : Plan}
    (h : Plan.ofStruct useSerializer d = .ok p ∨ Plan.ofEnum useSerializer d = .ok p) :
    p.identifier = d.name ∧ p.generics = d.generics := by
  rcases h with h | h
  · rw [Plan.ofStruct] at h
    split at h
    · cases h
    · split at h
      · cases h
      · cases h
      · obtain ⟨q, -, h⟩ := bind_eq_ok h
        obtain rfl := Except.ok.inj h
        exact ⟨rfl, rfl⟩
  · rw [Plan.ofEnum] at h
    split at h
    · cases h
    · split at h
      · cases h
      · cases h
      · obtain ⟨q, -, h⟩ := bind_eq_ok h
        obtain rfl := Except.ok.inj h
        exact ⟨rfl, rfl⟩

namespace Code

/-- The headers and blocks of the code for a plan are read as they are meant. -/
theorem readCode_code {d : Definition} {p : Plan} (hname : p.identifier = d.name)
    (hgenerics : p.generics = d.generics) (h : d.generics.isSound = true) :
    readCode p.code = some (d.implementations p.presentation) := by
  have hheader (t : String) : Header.of p ["logtrim", t] = d.header p.presentation t := by
    rw [Header.of, Definition.header, conditions, requirements_eq, hname, hgenerics]
    rfl
  have hshape := readContent_shapeBody p
  rw [readCode, readImplementations_code (hgenerics ▸ h), Definition.implementations]
  simp only [hheader]
  rcases readContent_companionBlock p.presentation with
    ⟨hblock, hcompanion⟩ | ⟨trait, block, content, hblock, hcompanion, hcontent⟩
  · simp [hblock, hcompanion, Definition.header, hshape]
  · simp [hblock, hcompanion, Definition.header, hshape, hcontent]

theorem lookup_variants (vs : List VariantPlan) (x : String) :
    (vs.map fun v => (v.identifier, v.name)).lookup x =
      (vs.find? (·.identifier = x)).map (·.name) := by
  induction vs with
  | nil => rfl
  | cons v vs ih =>
    rw [List.map_cons, List.lookup_cons, List.find?_cons, ih]
    by_cases hx : v.identifier = x
    · simp [hx]
    · have hbeq : (x == v.identifier) = false := beq_eq_false_iff_ne.mpr (Ne.symm hx)
      simp [hx, hbeq]

/-- The implementations for a plan show of a value what the plan shows. -/
theorem presented_implementations (d : Definition) (p : Plan) (x : Instance) :
    presented x (d.implementations p.presentation) = some (p.present x) := by
  rw [presented, Definition.implementations, Plan.present]
  cases p.presentation with
  | record fs =>
    change some (Value.record ((fs.map fun f => (f.descriptor, f.member)).map _)) = _
    rw [List.map_map]
    rfl
  | unitRecord => rfl
  | transparent i => rfl
  | sequence is =>
    change some (Value.seq is.length (is.map x.position)) = some (Value.list (is.map x.position))
    rw [Value.list, List.length_map]
  | unitEnum vs =>
    change some (((vs.map fun v => (v.identifier, v.name)).lookup x.variant).elim _ _) = _
    rw [lookup_variants]
    cases h : vs.find? (·.identifier = x.variant) <;> simp [h]
  | display => rfl
  | error => rfl

end Code

theorem Definition.implementations_follow (d : Definition) (p : Presentation) :
    ∀ i ∈ d.implementations p, i.1.Follows d p := by
  intro i hi
  rcases List.mem_cons.mp hi with rfl | hi
  · exact d.header_follows p _
  · obtain ⟨c, -, rfl⟩ := Option.map_eq_some_iff.mp (Option.mem_toList.mp hi)
    exact d.header_follows p c.1

/-- Read back, the code for a definition has the implementations that its plan calls for, their
headers are made of the texts of the definition, and they show of each value what the plan shows of
it. -/
theorem code_presents_plan {useSerializer : Bool} {d : Definition} {p : Plan}
    (h : Plan.ofStruct useSerializer d = .ok p ∨ Plan.ofEnum useSerializer d = .ok p)
    (hd : d.generics.isSound = true) :
    readCode p.code = some (d.implementations p.presentation) ∧
      (∀ i ∈ d.implementations p.presentation, i.1.Follows d p.presentation) ∧
      ∀ x, (readCode p.code).bind (presented x) = some (p.present x) := by
  obtain ⟨hname, hgenerics⟩ := Plan.of_definition h
  have hcode := readCode_code hname hgenerics hd
  refine ⟨hcode, d.implementations_follow p.presentation, fun x => ?_⟩
  rw [hcode]
  exact presented_implementations d p x

/-- A page of items, with parameters of all three kinds and a condition of its own. -/
theorem code_presents_plan_page :
    let g : Generics := ⟨[.lifetime "'a" [], .type "T" ["Into<Vec<[u8; N]>>"] none,
      .const "N" "usize" none, .type "U" [] (some "()")], [⟨"U", ["Fn(T) -> T", "'a"]⟩]⟩
    let d : Definition := ⟨"Page", [], g, .struct (.named [⟨"items", "&'a [T; N]", []⟩,
      ⟨"extra", "U", [⟨"trim", .items [.text "rename" "more"]⟩]⟩])⟩
    let p : Plan := ⟨"Page", g,
      .record [⟨"items", "items", "items", none⟩, ⟨"extra", "extra", "more", none⟩]⟩
    let header (trait : String) : Header := ⟨["logtrim", trait], "Page",
      [.lifetime "'a" [], .type "T" [.word "Into", .mark "<", .word "Vec", .mark "<",
        .group .square [.word "u8", .mark ";", .word "N"], .mark ">", .mark ">"],
        .const "N" [.word "usize"], .type "U" []],
      [.mark "'a", .word "T", .word "N", .word "U"],
      [[.word "U", .mark ":", .word "Fn", .group .round [.word "T"], .mark "->", .word "T",
        .mark "+", .mark "'a"],
        [.word "T", .mark ":", .mark "::", .word "logtrim", .mark "::", .word "Trimmable"],
        [.word "U", .mark ":", .mark "::", .word "logtrim", .mark "::", .word "Trimmable"]]⟩
    Plan.ofStruct false d = .ok p ∧ g.isLegible = true ∧ g.isSound = true ∧
      (["Into<Vec<[u8; N]>>", "usize", "U", "Fn(T) -> T", "'a"].all fun s =>
        allPlain (Lexeme.scan s)) ∧
      readCode p.code = some [(header "Trimmable", .shape .record), (header "Record",
        .fields [(⟨"items", none⟩, "items"), (⟨"extra", some "more"⟩, "extra")])] ∧
      (∀ i ∈ d.implementations p.presentation, i.1.Follows d p.presentation) ∧
      ∀ x, (readCode p.code).bind (presented x) = some (p.present x) := by
  intro g d p header
  have h : Plan.ofStruct false d = .ok p := by cbv
  have hlegible : g.isLegible = true := by decide +kernel
  have hsound : g.isSound = true := Generics.isSound_of_isLegible hlegible
  obtain ⟨hcode, hfollows, hpresents⟩ := code_presents_plan (Or.inl h) hsound
  refine ⟨h, hlegible, hsound, by decide +kernel, ?_, hfollows, hpresents⟩
  rw [hcode]
  decide +kernel

end Abridge.Derive

import Abridge.Proofs.Brackets

/-!
Implementations in generated code. What stands in front of the block of an implementation says
which trait it is of, for which type, with which parameters and under which conditions. A block is
found by what follows it: the next implementation, or nothing.
-/
namespace Abridge.Derive

namespace Code

/-! ### Paths -/

/-- The names in front that have double colons before them, and what is left. -/
def readPath : List Token → List String × List Token
  | .mark "::" :: .word n :: ts =>
    let (ns, rest) := readPath ts
    (n :: ns, rest)
  | ts => ([], ts)

theorem readPath_append (names : List String) {ts : List Token}
    (h : ts.head? ≠ some (.mark "::")) : readPath (path names ++ ts) = (names, ts) := by
  induction names with
  | nil =>
    rw [path, List.flatMap_nil, List.nil_append, readPath.eq_def]
    split
    · exact absurd rfl h
    · rfl
  | cons n ns ih =>
    change (n :: (readPath (path ns ++ ts)).1, (readPath (path ns ++ ts)).2) = _
    rw [ih]

/-! ### Parameters -/

/-- What the tokens of a parameter declare. -/
inductive Declared where
  | lifetime (name : String) (bounds : List Token)
  | type (name : String) (bounds : List Token)
  | const (name : String) (type : List Token)
  deriving DecidableEq

/-- What stands behind a colon, nothing if nothing stands here. -/
def readBounds : List Token → Option (List Token)
  | [] => some []
  | .mark ":" :: ts => some ts
  | _ => none

def readDeclared : List Token → Option Declared
  | .word "const" :: .word n :: .mark ":" :: ts => some (.const n ts)
  | .mark n :: ts => (readBounds ts).map (.lifetime n)
  | .word n :: ts => (readBounds ts).map (.type n)
  | _ => none

/-- An argument is a name alone. -/
def readArgument : List Token → Option Token
  | [t] => some t
  | _ => none

end Code

/-- Bounds with plus signs between them. -/
def joinedBounds (bounds : List String) : List Token :=
  Code.separated "+" (bounds.map Syntax.boundTokens)

/-- A parameter without what it stands for by default. -/
def Parameter.declared : Parameter → Code.Declared
  | .lifetime n bs => .lifetime n (joinedBounds bs)
  | .type n bs _ => .type n (joinedBounds bs)
  | .const n t _ => .const n (Syntax.typeTokens t)

def Parameter.name : Parameter → Token
  | .lifetime n _ => .mark n
  | .type n _ _ => .word n
  | .const n _ _ => .word n

namespace Code

/-- What is written one by one is read one by one. -/
theorem mapM_map {α β γ : Type} {read : β → Option γ} {write : α → β} {g : α → γ}
    (h : ∀ a, read (write a) = some (g a)) (as : List α) :
    (as.map write).mapM read = some (as.map g) := by
  induction as with
  | nil => rfl
  | cons a as ih => simp [List.mapM_cons, h, ih]

theorem readDeclared_declaration (p : Parameter) :
    readDeclared (declaration p) = some p.declared := by
  cases p with
  | lifetime n bs => cases bs <;> rfl
  | type n bs standard =>
    rw [declaration, withBounds, Parameter.declared, joinedBounds]
    cases bs <;> simp [readDeclared, readBounds, boundTokens, separated]
  | const n t standard => rfl

theorem readArgument_argument (p : Parameter) : readArgument (argument p) = some p.name := by
  cases p <;> rfl

/-- The parts of a list in angle brackets, none if no bracket stands in front. -/
def readAngled : List Token → Option (List (List Token) × List Token)
  | .mark "<" :: ts => do
    let (inside, rest) ← upTo (fun t _ => isClosing t) .outside ts
    return (← readList inside, rest.drop 1)
  | ts => some ([], ts)

/-- Parameters with the lifetimes in front. -/
def inFront (ps : List Parameter) : List Parameter :=
  ps.filter isLifetime ++ ps.filter (!isLifetime ·)

variable {f : Parameter → List Token}

theorem listed_filter (q : Bool → Bool) (ps : List Parameter) :
    ((listed f ps).filter fun e => q e.isLifetime).map Token.Listed.tokens =
      (ps.filter fun p => q (isLifetime p)).map f := by
  fun_induction listed f ps with
  | case1 => rfl
  | case2 p => cases hq : q (isLifetime p) <;> simp [hq]
  | case3 p p' ps ih => cases hq : q (isLifetime p) <;> simp [hq, ih]

theorem separated_listed (ps : List Parameter) : Separated (listed f ps) := by
  fun_induction listed f ps with
  | case1 => exact .nil
  | case2 p => exact List.pairwise_singleton ..
  | case3 p p' ps ih => exact List.pairwise_cons.mpr ⟨fun _ _ => rfl, ih⟩

theorem mem_listed {ps : List Parameter} {e : Token.Listed} (h : e ∈ listed f ps) :
    ∃ p ∈ ps, e.tokens = f p := by
  have hmem : e.tokens ∈ (listed f ps).map Token.Listed.tokens := List.mem_map_of_mem h
  have hall := listed_filter (f := f) (fun _ => true) ps
  rw [List.filter_true, List.filter_true] at hall
  rw [hall] at hmem
  obtain ⟨p, hp, hpe⟩ := List.mem_map.mp hmem
  exact ⟨p, hp, hpe.symm⟩

/-- Parameters in angle brackets are read with the lifetimes in front. -/
theorem readAngled_angled {ps : List Parameter}
    (h : ∀ p ∈ ps, isWhole (f p) = true ∧ (f p).isEmpty = false) {ts : List Token}
    (hts : ts.head? ≠ some (.mark "<")) :
    readAngled (angled f ps ++ ts) = some ((inFront ps).map f, ts) := by
  rw [angled]
  split
  · rename_i hempty
    rw [List.isEmpty_iff.mp hempty, List.nil_append, readAngled.eq_def]
    split
    · exact absurd rfl hts
    · rfl
  · have hlisted : ∀ e ∈ listed f ps, isWhole e.tokens = true ∧ e.tokens.isEmpty = false := by
      intro e he
      obtain ⟨p, hp, hpe⟩ := mem_listed he
      rw [hpe]
      exact h p hp
    obtain ⟨hlist, hpasses⟩ := readList_lifetimesFirst (separated_listed ps) hlisted
    have hupTo : upTo (fun t _ => isClosing t) .outside
        (Token.lifetimesFirst (listed f ps) ++ .mark ">" :: ts) =
        some (Token.lifetimesFirst (listed f ps), .mark ">" :: ts) := upTo_append hpasses rfl
    have hmap : ((listed f ps).filter (·.isLifetime) ++
        (listed f ps).filter (!·.isLifetime)).map Token.Listed.tokens = (inFront ps).map f := by
      rw [List.map_append, inFront, List.map_append]
      exact congrArg₂ (· ++ ·) (listed_filter id ps) (listed_filter not ps)
    rw [List.cons_append, List.cons_append, List.append_assoc, List.singleton_append, readAngled,
      hupTo]
    simp only [Option.bind_eq_bind, Option.bind_some, hlist, hmap]
    rfl

/-! ### Conditions -/

def isBlock : Token → Bool
  | .group .curly _ => true
  | _ => false

/-- Is this a block that nothing follows but another implementation? -/
def endsBlock (t : Token) (next : Option Token) : Bool :=
  match t, next with
  | .group .curly _, none => true
  | .group .curly _, some (.word "impl") => true
  | _, _ => false

/-- The conditions in front of a block, none if the word for them is missing. -/
def readConditions : List Token → Option (List (List Token) × List Token)
  | .word "where" :: ts => do
    let (inside, rest) ← upTo endsBlock .outside ts
    return (← readList inside, rest)
  | ts => some ([], ts)

/-- Brackets match, and neither a comma nor the end of a block stands outside of them. -/
def isCondition (ts : List Token) : Bool :=
  isWhole ts && passes endsBlock (some (.mark ",")) .outside ts

end Code

/-- The tokens of each parameter and each predicate are complete in themselves: brackets match, and
what separates or ends them stands inside of brackets only. -/
def Generics.isSound (g : Generics) : Bool :=
  g.parameters.all (fun p => Code.isWhole (Code.declaration p) && Code.isWhole (Code.argument p)) &&
    g.predicates.all fun p => Code.isCondition (Code.predicateTokens p)

namespace Code

/-- All conditions of an implementation. -/
def conditions (p : Plan) : List (List Token) :=
  p.generics.predicates.map predicateTokens ++ requirements p

theorem isCondition_requirement {p : Plan} {ts : List Token} (h : ts ∈ requirements p) :
    isCondition ts = true ∧ ts.isEmpty = false := by
  rw [requirements] at h
  split at h
  · obtain ⟨n, -, rfl⟩ := List.mem_map.mp h
    exact ⟨rfl, rfl⟩
  · split at h
    · cases h
    · split at h
      · obtain rfl := List.mem_singleton.mp h
        exact ⟨rfl, rfl⟩
      · obtain rfl := List.mem_singleton.mp h
        exact ⟨rfl, rfl⟩
      · cases h

theorem isCondition_of_mem {p : Plan} (h : p.generics.isSound = true) {ts : List Token}
    (hts : ts ∈ conditions p) : isCondition ts = true ∧ ts.isEmpty = false := by
  rcases List.mem_append.mp hts with hts | hts
  · obtain ⟨q, hq, rfl⟩ := List.mem_map.mp hts
    refine ⟨List.all_eq_true.mp (Bool.and_eq_true_iff.mp h).2 q hq, ?_⟩
    rw [predicateTokens, List.isEmpty_eq_false_iff]
    simp
  · exact isCondition_requirement hts

/-- Nothing follows, or another implementation. -/
def StartsOver (ts : List Token) : Prop := ts = [] ∨ ts.head? = some (.word "impl")

theorem endsBlock_curly (body : List Token) {ts : List Token} (h : StartsOver ts) :
    endsBlock (curly body) ts.head? = true := by
  rcases h with rfl | h
  · rfl
  · rw [h]
    rfl

theorem endsBlock_some {u : Token} (hu : u ≠ .word "impl") (t : Token) :
    endsBlock t (some u) = false := by
  rw [endsBlock.eq_def]
  split <;> simp_all

theorem readConditions_whereClause {p : Plan} (h : p.generics.isSound = true) (body : List Token)
    {ts : List Token} (hts : StartsOver ts) :
    readConditions (whereClause p ++ curly body :: ts) =
      some (conditions p, curly body :: ts) := by
  have hwhere : whereClause p = if (conditions p).isEmpty then [] else
      .word "where" :: separated "," (conditions p) := rfl
  have hall {c : List Token} (hc : c ∈ conditions p) := isCondition_of_mem h hc
  have hsound {c : List Token} (hc : c ∈ conditions p) := Bool.and_eq_true_iff.mp (hall hc).1
  rw [hwhere]
  split
  · rename_i hempty
    rw [List.isEmpty_iff.mp hempty]
    rfl
  · have hlist := readList_separated fun c hc => ⟨(hsound hc).1, (hall hc).2⟩
    have hpasses : passes endsBlock (some (curly body)) .outside
        (separated "," (conditions p)) = true := by
      refine passes_separated (fun _ => rfl) (fun t => ?_) fun c hc => (hsound hc).2
      rw [endsBlock_some (by simp [curly]), endsBlock_some (by simp)]
    rw [List.cons_append, readConditions, upTo_append hpasses (endsBlock_curly body hts)]
    simp only [Option.bind_eq_bind, Option.bind_some, hlist]
    rfl

/-! ### Whole implementations -/

/-- What stands in front of a block. -/
structure Header where
  /-- The names in the path of the trait. -/
  trait : List String
  /-- The type that the trait is implemented for. -/
  name : String
  parameters : List Declared
  arguments : List Token
  conditions : List (List Token)
  deriving DecidableEq

/-- An implementation with its block, and what is left. -/
def readImplementation : List Token → Option ((Header × List Token) × List Token)
  | .word "impl" :: ts => do
    let (parameters, ts) ← readAngled ts
    let parameters ← parameters.mapM readDeclared
    let (trait, ts) := readPath ts
    match ts with
    | .word "for" :: .word name :: ts =>
      let (arguments, ts) ← readAngled ts
      let arguments ← arguments.mapM readArgument
      let (conditions, ts) ← readConditions ts
      match ts with
      | .group .curly body :: ts =>
        return ((⟨trait, name, parameters, arguments, conditions⟩, body), ts)
      | _ => none
    | _ => none
  | _ => none

/-- Implementations up to the end. Each of them takes tokens away, so that the number of tokens is
fuel enough. -/
def readImplementations : Nat → List Token → Option (List (Header × List Token))
  | _, [] => some []
  | 0, _ => none
  | n + 1, ts => do
    let (i, ts) ← readImplementation ts
    return i :: (← readImplementations n ts)

/-- The header of the implementation of a trait for the type of a plan. -/
def Header.of (p : Plan) (trait : List String) : Header where
  trait := trait
  name := p.identifier
  parameters := (inFront p.generics.parameters).map Parameter.declared
  arguments := (inFront p.generics.parameters).map Parameter.name
  conditions := Code.conditions p

theorem isWhole_parameter {g : Generics} (h : g.isSound = true) {p : Parameter}
    (hp : p ∈ g.parameters) : isWhole (declaration p) = true ∧ isWhole (argument p) = true :=
  Bool.and_eq_true_iff.mp (List.all_eq_true.mp (Bool.and_eq_true_iff.mp h).1 p hp)

theorem declaration_ne_nil (p : Parameter) : (declaration p).isEmpty = false := by
  cases p with
  | lifetime n bs => cases bs <;> rfl
  | type n bs standard => cases bs <;> rfl
  | const n t standard => rfl

theorem argument_ne_nil (p : Parameter) : (argument p).isEmpty = false := by
  cases p <;> rfl

/-- An implementation is read as it was meant, whatever comes behind it. -/
theorem readImplementation_implementation {p : Plan} (h : p.generics.isSound = true)
    (n : String) (ns : List String) (body : List Token) {ts : List Token} (hts : StartsOver ts) :
    readImplementation (implementation p (path (n :: ns)) body ++ ts) =
      some ((.of p (n :: ns), body), ts) := by
  have htokens : implementation p (path (n :: ns)) body ++ ts =
      .word "impl" :: (angled declaration p.generics.parameters ++ (path (n :: ns) ++
        (.word "for" :: .word p.identifier :: (angled argument p.generics.parameters ++
          (whereClause p ++ curly body :: ts))))) := by
    simp [implementation]
  have hdeclared : ∀ q ∈ p.generics.parameters,
      isWhole (declaration q) = true ∧ (declaration q).isEmpty = false := fun q hq =>
    ⟨(isWhole_parameter h hq).1, declaration_ne_nil q⟩
  have hgiven : ∀ q ∈ p.generics.parameters,
      isWhole (argument q) = true ∧ (argument q).isEmpty = false := fun q hq =>
    ⟨(isWhole_parameter h hq).2, argument_ne_nil q⟩
  have hwhere : (whereClause p ++ curly body :: ts).head? ≠ some (.mark "<") := by
    rw [whereClause]
    split <;> simp [curly]
  rw [htokens, readImplementation, readAngled_angled hdeclared (by simp [path])]
  simp only [Option.bind_eq_bind, Option.bind_some]
  rw [mapM_map readDeclared_declaration, Option.bind_some, readPath_append _ (by simp)]
  simp only
  rw [readAngled_angled hgiven hwhere, Option.bind_some, mapM_map readArgument_argument,
    Option.bind_some, readConditions_whereClause h body hts]
  rfl

end Code

end Abridge.Derive

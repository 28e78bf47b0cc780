import Abridge.Proofs.PathTokens

/-!
The tokens of types. With them, the productions of every level write what they read.
-/
namespace Abridge.Derive.Syntax

variable {g : Productions} {i : Nat} {ls : List Lexeme}

theorem WritesOther.writesType {p : Parse TypeForm} (h : WritesOther i p) : WritesType i p :=
  fun ls => (h ls).mono fun _ _ _ _ h => ⟨h.1, fun hform => absurd hform h.2⟩

theorem WritesType.ite {c : Prop} [Decidable c] {p q : Parse TypeForm} (hp : WritesType i p)
    (hq : WritesType i q) : WritesType i (if c then p else q) := by
  split
  · exact hp
  · exact hq

/-- Brackets that were read as `b` are a group; a trait in brackets stands in others. -/
def IsBracket (b : Bracketed) (front : List Lexeme) (ts : List Token) : Prop :=
  ∃ inner us, front = [.group .round inner] ∧ ts = [.group .round us] ∧
    (b = .single .wrappedBound → ∃ vs, us = [.group .round vs])

section Faithful

variable (hg : Faithful g)
include hg

/-! ### Brackets -/

theorem Faithful.objectBounds (plus : Bool) (i : Nat) : Carries i i (objectBounds g plus) := by
  refine (hg.bounds false false plus i).bind fun found => ?_
  split
  · exact .throw _ i i
  · exact .pure () i

/-- Where no plus sign follows, nothing is read. -/
theorem Faithful.addedBounds (i : Nat) : Ensures (addedBounds g) ls fun whole found front ts =>
    Moves whole i i front ts ∧ (found = false → front = [] ∧ ts = []) := by
  refine .repeating (I := fun whole found front ts =>
    Moves whole i i front ts ∧ (found = false → front = [] ∧ ts = [])) ?_
    fun _ => ⟨.nil i, fun _ => ⟨rfl, rfl⟩⟩
  intro found front ts behind _
  refine .mark?_bind (fun _ => (ensures_mark (by decide)).bind ?_) fun _ => .pure ?_
  · rintro _ plus _ behind - -
    refine ((hg.bound false false i).discard behind).bind fun _ _ _ _ _ _ => .pure ?_
    rintro whole hbound ⟨hplus, rfl⟩ ⟨hmoves, -⟩
    obtain ⟨j, rfl⟩ := hplus.eq_one rfl
    refine ⟨by simp, ?_, nofun⟩
    simpa using hmoves.append ((Moves.mark hplus rfl i).append hbound)
  · intro whole h
    simpa using h

/-- A single type inside of brackets that is itself a trait in brackets is written as that. -/
theorem Faithful.bracketedInside (i : Nat) : Ensures (bracketedInside g) ls
    fun whole b front ts => Moves whole (i + 1) (i + 1) front ts ∧
      (b = .single .wrappedBound → ∃ us, ts = [.group .round us]) := by
  refine Ensures.rest ?_
  have hother : Brings (i + 1) (i + 1) (fun b => b ≠ .single .wrappedBound)
      (Pure.pure Bracketed.other) := .pure nofun _
  have hspec {p : Parse Bracketed}
      (hp : Brings (i + 1) (i + 1) (fun b => b ≠ .single .wrappedBound) p) :
      Ensures p ls fun whole b front ts => Moves whole (i + 1) (i + 1) front ts ∧
        (b = .single .wrappedBound → ∃ us, ts = [.group .round us]) :=
    (hp ls).mono fun _ _ _ _ h => ⟨h.1, fun heq => absurd heq h.2⟩
  split
  · exact hspec hother
  · split
    · exact hspec ((hg.objectBounds true _).brings fun _ => hother)
    · split
      · exact hspec ((hg.traitBound false _).discard.brings fun _ => .pure nofun _)
      · refine (hg.type true (i + 1) ls).bind fun form _ _ behind _ _ =>
          .mark?_bind (fun _ => ?_) fun _ => .pure fun whole h => ?_
        · have hmore := (Carries.comma i).brings fun _ =>
            (Carries.commaSeparated (hg.carriesType true (i + 1))).brings fun _ => hother
          exact (hmore behind).mono fun _ _ _ _ h' h =>
            ⟨h.1.append h'.1, fun heq => absurd heq h'.2⟩
        · rw [List.append_nil, List.append_nil]
          exact ⟨h.1, fun heq => h.2 (Bracketed.single.inj heq)⟩

/-- Round brackets are written as such. -/
theorem Faithful.inBrackets (i : Nat) : Ensures (within .round (Syntax.bracketedInside g)) ls
    fun whole b front ts => Moves whole i i front ts ∧ IsBracket b front ts := by
  refine (ensures_within fun _ _ _ => hg.bracketedInside 0).mono ?_
  rintro whole b _ _ ⟨inner, left, us, rfl, rfl, hleft, hinner, hsingle⟩
  exact ⟨hinner.within (by decide) hleft i, _, us, rfl, rfl, hsingle⟩

omit hg in
/-- Round brackets that were written last lose the ones around them. -/
theorem amends_unwrapWritten (us : List Token) :
    Amends [.group .round [.group .round us]] unwrapWritten ls fun _ _ front ts =>
      front = [] ∧ ts = [.group .round us] := by
  intro written leftover a r hrun
  cases hrun
  exact ⟨fun _ => id, [], [.group .round us], rfl, rfl, fun _ _ => ⟨rfl, rfl⟩⟩

theorem Faithful.bracketed (plus : Bool) (i : Nat) : WritesType i (bracketed g plus) := by
  refine fun ls => (hg.inBrackets i).bind_amends fun b front ts behind _ hshape => ?_
  have hother : WritesOther i (Pure.pure TypeForm.other) := .pure nofun i
  have hadded : Carries i i (Syntax.addedBounds g) := fun _ =>
    (hg.addedBounds i).mono fun _ _ _ _ h => h.1
  have hafter {p : Parse TypeForm} (hp : WritesOther i p) :
      Amends ts p behind fun whole form front' ts' =>
        Moves whole i i front ts ∧ IsBracket b front ts →
          Moves whole i i (front ++ front') ts' ∧
            (form = .wrappedBound → ∃ us, ts' = [.group .round us]) :=
    Ensures.amends ((hp behind).mono fun _ _ _ _ h hbracket =>
      ⟨hbracket.1.append h.1, fun heq => absurd heq h.2⟩)
  cases b with
  | optionalTrait =>
    refine Ensures.amends ((hg.addedBounds i).bind ?_)
    rintro (_ | _) front' ts' _ - - <;> refine .pure ?_
    · rintro whole ⟨-, hnone⟩ ⟨hmoves, -, us, -, rfl, -⟩
      obtain ⟨rfl, rfl⟩ := hnone rfl
      rw [List.append_nil, List.append_nil, List.append_nil]
      exact ⟨hmoves, fun _ => ⟨us, rfl⟩⟩
    · rintro whole ⟨hadded, -⟩ ⟨hmoves, -⟩
      rw [List.append_nil, List.append_nil]
      exact ⟨hmoves.append hadded, nofun⟩
  | single form =>
    refine Amends.rest ?_
    split
    · have hbehind : WritesOther i
          (discard (Syntax.addedBounds g) >>= fun _ => Pure.pure TypeForm.other) :=
        hadded.discard.brings fun _ => hother
      split
      · rename_i hwrapped
        subst hwrapped
        obtain ⟨inner, us, rfl, rfl, hsingle⟩ := hshape.2
        obtain ⟨vs, rfl⟩ := hsingle rfl
        refine (amends_unwrapWritten vs).bind ?_
        rintro _ _ _ behind' - -
        refine (hbehind behind').mono ?_
        rintro whole form front ts ⟨hmoves, hform⟩ ⟨rfl, rfl⟩ ⟨hbrackets, -⟩
        exact ⟨hbrackets.unwrapped.append hmoves, fun heq => absurd heq hform⟩
      · exact hafter hbehind
    · exact hafter hother
  | other => exact hafter hother

/-- A slice or an array, whatever is read as its length if this is computed. -/
theorem Faithful.squareType (i : Nat) : Carries i i (squareType g) := by
  intro ls
  cases hplain : allPlain ls with
  | false =>
    refine .of_takes hplain ((takes_within .square _ ls).mono ?_)
    rintro _ _ _ ⟨inner, us, rfl, rfl⟩
    exact .unread (by decide) inner us i
  | true =>
    refine (ensures_within (Q := fun whole _ front ts => Moves whole 0 0 front ts) ?_).mono ?_
    · rintro inner after rfl
      refine (hg.carriesType true 0 inner).bind fun _ front ts behind hinner _ =>
        .mark?_bind (fun _ => (ensures_mark (by decide)).bind ?_) fun _ => ?_
      · rintro _ semicolon _ behind' hbehind ⟨hmark, rfl⟩
        obtain ⟨j, rfl⟩ := hmark.eq_one (c := ';') rfl
        have hlength : isLength behind' = true :=
          isLength_of_allPlain (hbehind ▸ allPlain_of_append (hinner ▸ (allPlain_group hplain).2))
        refine (hg.length 0 hlength).discard.mono fun whole _ front' ts' h _ htype => ?_
        exact htype.append ((Moves.mark hmark rfl 0).append h)
      · refine .pure fun whole h => ?_
        rw [List.append_nil, List.append_nil]
        exact h
    · rintro whole _ _ _ ⟨inner, left, us, rfl, rfl, hleft, hmoves⟩
      exact hmoves.within (by decide) hleft i

/-! ### Functions -/

omit hg in
theorem carries_convention (i : Nat) : Carries i i convention := by
  refine (Carries.word? _ i).bind fun b => ?_
  split
  · refine .rest fun ls => ?_
    split
    · exact (Carries.literal i).discard
    · exact .pure () i
  · exact .pure () i

omit hg in
theorem carries_inputName (isName : List Lexeme → Bool) (i : Nat) :
    Carries i i (inputName isName) := by
  refine .rest fun ls => ?_
  split
  · exact (Carries.anyWord i).bind fun _ => (Carries.mark rfl (by decide) i).bind fun _ =>
      .pure true i
  · exact .pure false i

theorem Faithful.functionInput (first : Bool) (i : Nat) : Carries i i (functionInput g first) := by
  refine .orSpelled (.rest fun ls => ?_)
  extract_lets changed behindChanged
  have hbehind : Carries i i (behindChanged ()) := by
    refine .rest fun ls => (carries_inputName _ i).bind fun named => .rest fun ls => ?_
    split
    · exact (Carries.anyWord i).bind fun _ => (Carries.anyWord i).bind fun _ => .pure _ i
    · split
      · exact (Carries.word _ i).bind fun _ => .pure _ i
      · exact (hg.carriesType true i).bind fun _ => .pure _ i
  split
  · exact (Carries.anyWord i).bind fun _ => hbehind
  · exact hbehind

theorem Faithful.functionInputs (i : Nat) : Carries (i + 1) (i + 1) (functionInputs g) := by
  refine (Carries.repeating (fun first => (Carries.atEnd _).bind fun b => ?_) true).discard
  split
  · exact .pure _ _
  · refine (carries_attributes _).bind fun _ => .rest fun ls => ?_
    split
    · exact (carries_inputName _ _).discard.bind fun _ =>
        (Carries.mark rfl (by decide) _).bind fun _ =>
          (Carries.comma? i).discard.bind fun _ => .pure _ _
    · refine (hg.functionInput first _).bind fun _ => (Carries.atEnd _).bind fun b => ?_
      split
      · exact .pure _ _
      · exact (Carries.comma i).bind fun _ => .pure _ _

theorem Faithful.functionType (i : Nat) : Carries i i (functionType g) :=
  (Carries.word? _ i).discard.bind fun _ => (carries_convention i).bind fun _ =>
    (Carries.word _ i).bind fun _ =>
      (Carries.within (by decide) (hg.functionInputs 0) i).bind fun _ => hg.result false i

/-! ### Types that begin with a path -/

theorem Faithful.openBounds (i : Nat) : Carries i i (openBounds g) := by
  refine .whileTrue ((Carries.mark? rfl (by decide) i).bind fun b => ?_)
  split
  · refine .rest fun ls => ?_
    split
    · exact (hg.bound false false i).discard.bind fun _ => .pure true i
    · exact .pure false i
  · exact .pure false i

omit hg in
theorem ensures_invocation (i : Nat) : Ensures invocation ls fun whole _ front ts =>
    Moves whole i i front ts ∧ IsInvocation front ts := by
  refine (ensures_mark (by decide)).bind fun _ _ _ behind _ _ => ensures_sealedGroup.mono ?_
  rintro whole _ _ _ ⟨d, inner, rfl, rfl⟩ ⟨hbang, rfl⟩
  obtain ⟨j, rfl⟩ := hbang.eq_one (c := '!') rfl
  have hcall : IsInvocation [.mark '!' j, .group d inner]
      [.mark "!", .group d (Lexeme.spell inner)] := ⟨j, d, inner, rfl, rfl⟩
  exact ⟨.invocation hcall i, hcall⟩

/-- A path behind parameters `first`, which are written as `binder`, but left out in front of the
call of a macro. -/
theorem Faithful.pathType (plus bound : Bool) {first : List Lexeme} {binder : List Token}
    (hfirst : first = [] ∧ binder = [] ∨ IsBinder first) (i : Nat) :
    Ensures (pathType g plus bound binder) ls fun whole form front ts =>
      Moves whole i i first binder →
        Moves whole i i (first ++ front) ts ∧ form ≠ .wrappedBound := by
  have hpath : Ensures (do
      let p ← Syntax.path g false
      return (p, ← Syntax.inputs? g p)) ls fun whole _ front ts => Moves whole i i front ts := by
    refine (hg.path false i ls).bind_amends fun p front ts behind _ hends =>
      (hg.inputs? hends).bind_pure fun _ _ _ _ h hends => h hends
  refine hpath.aside.bind ?_
  rintro ⟨⟨p, called⟩, us⟩ front _ behind - -
  refine Ensures.rest ?_
  split
  · refine .write_bind (Ensures.bind (Amends.discard (ensures_invocation i))
      fun _ _ _ _ _ _ => .pure ?_)
    rintro whole ⟨hmoves, hcall⟩ ⟨rfl, hus⟩ hbinder
    refine ⟨?_, nofun⟩
    rw [List.append_nil, List.append_nil, List.nil_append]
    rcases hfirst with ⟨rfl, rfl⟩ | hfirst
    · exact hus.append hmoves
    · exact hbinder.unbound hfirst hus hcall hmoves
  · have hforms : WritesOther i (do
        if p.qualified then return .other
        else if plus && sees "+" behind then
          Syntax.openBounds g
          return .other
        else if bound then return .bound
        else if p.segments = 1 && !p.rooted && !called then return .named
        else return .path) := by
      split
      · exact .pure nofun i
      · split
        · exact (hg.openBounds i).brings fun _ => .pure nofun i
        · split
          · exact .pure nofun i
          · split <;> exact .pure nofun i
    refine .write_bind ((hforms behind).mono ?_)
    rintro whole form front' ts' ⟨hmoves, hform⟩ ⟨rfl, hus⟩ hbinder
    refine ⟨?_, hform⟩
    simpa using hbinder.append (hus.append hmoves)

theorem Faithful.objectType (plus : Bool) (i : Nat) :
    WritesOther i (objectType g plus) :=
  .orSpelled ((Carries.word _ i).brings fun _ => (Carries.mark? rfl (by decide) i).brings fun _ =>
    (hg.objectBounds plus i).brings fun _ => .pure nofun i)

theorem Faithful.impliedType (plus : Bool) (i : Nat) :
    WritesOther i (impliedType g plus) := by
  refine (Carries.word _ i).brings fun _ => (hg.bounds true true plus i).brings fun found => ?_
  split
  · exact .pure nofun i
  · exact .throw _ i i

theorem Faithful.pointerType (i : Nat) : WritesOther i (pointerType g) := by
  refine (Carries.mark rfl (by decide) i).brings fun _ => .rest fun ls => ?_
  split
  · exact (Carries.anyWord i).brings fun _ => (hg.carriesType false i).brings fun _ =>
      .pure nofun i
  · exact fun _ => (ensures_missing _).fails_bind

theorem Faithful.referenceType (i : Nat) : WritesOther i (referenceType g) := by
  have hbehind : WritesOther i (do
      discard (word? "mut")
      discard (g.type false)
      return TypeForm.other) :=
    (Carries.word? _ i).discard.brings fun _ => (hg.carriesType false i).brings fun _ =>
      .pure nofun i
  refine (Carries.mark rfl (by decide) i).brings fun _ => .rest fun ls => ?_
  split
  · exact (Carries.lifetime i).brings fun _ => hbehind
  · exact hbehind

theorem Faithful.boundType (plus : Bool) {first : List Lexeme} {binder : List Token}
    (hfirst : IsBinder first) (i : Nat) :
    Ensures (boundType g plus binder) ls fun whole form front ts =>
      Moves whole i i first binder →
        Moves whole i i (first ++ front) ts ∧ form ≠ .wrappedBound := by
  refine Ensures.rest ?_
  split
  · have hfunction : WritesOther i
        (Syntax.functionType g >>= fun _ => Pure.pure TypeForm.other) :=
      (hg.functionType i).brings fun _ => .pure nofun i
    refine .write_bind ((hfunction ls).mono ?_)
    rintro whole form front ts ⟨hmoves, hform⟩ hbinder
    exact ⟨hbinder.append hmoves, hform⟩
  · split
    · exact hg.pathType plus true (.inr hfirst) i
    · exact ensures_missing _

theorem Faithful.typeOf (plus : Bool) (i : Nat) : WritesType i (typeOf g plus) := by
  have hother {p : Parse Unit} (hp : Carries i i p) :
      WritesType i (p >>= fun _ => Pure.pure TypeForm.other) :=
    WritesOther.writesType (hp.brings fun _ => .pure nofun i)
  have hpath : WritesType i (Syntax.pathType g plus false []) := fun ls =>
    (hg.pathType plus false (.inl ⟨rfl, rfl⟩) i).mono fun _ _ _ _ h =>
      ⟨(h (.nil i)).1, fun hform => absurd hform (h (.nil i)).2⟩
  refine fun ls => (hg.binder? i).aside.bind ?_
  rintro ⟨_ | _, binder⟩ first _ behind - ⟨-, -, hfirst⟩
  · obtain ⟨rfl, rfl⟩ := hfirst
    refine Ensures.mono (Q := fun whole form front ts =>
      Moves whole i i front ts ∧ (form = .wrappedBound → ∃ us, ts = [.group .round us])) ?_ ?_
    · refine Ensures.rest ?_
      rw [if_neg Bool.false_ne_true]
      refine WritesType.ite (hg.bracketed plus i) ?_ behind
      exact .ite (hother (hg.functionType i)) <| .ite hpath <|
        .ite (hg.objectType plus i).writesType <| .ite (hg.impliedType plus i).writesType <|
        .ite (hg.pointerType i).writesType <| .ite (hg.referenceType i).writesType <|
        .ite (hother (hg.squareType i)) <|
        .ite (hother (Carries.mark (s := "!") rfl (by decide) i)) <|
        .ite (hother (Carries.anyWord i)) <| .ite (hother (hg.objectBounds true i)) fun _ =>
          ensures_missing _
    · rintro whole form front ts h ⟨rfl, -⟩
      exact h
  · refine Ensures.rest ((hg.boundType plus hfirst i).mono ?_)
    rintro whole form front ts h ⟨rfl, hbinder, -⟩
    obtain ⟨hmoves, hform⟩ := h hbinder
    exact ⟨hmoves, fun heq => absurd heq hform⟩

end Faithful

/-! ### Lengths -/

theorem moves_pathTokens (h : isPath ls = true) (i : Nat) (whole : Bool) :
    Moves whole i i ls (pathTokens ls) := by
  induction ls using isPath.induct with
  | case1 w => exact .word i w
  | case2 w joint ls ih =>
    rw [isPath, Bool.and_eq_true] at h
    have hcolons : IsMark "::" [.mark ':' true, .mark ':' joint] := ⟨by decide, rfl, rfl⟩
    exact (Moves.word i w).append ((Moves.mark hcolons rfl i).append (ih h.2))
  | case3 ls hone hmore =>
    rw [isPath.eq_3 _ hone hmore] at h
    cases h

theorem moves_lengthTokens (h : isLength ls = true) (i : Nat) (whole : Bool) :
    Moves whole i i ls (lengthTokens ls) := by
  rw [isLength.eq_def] at h
  rw [lengthTokens.eq_def]
  split at h
  · exact .literal i _
  · exact moves_pathTokens h i whole

theorem ensures_length (n i : Nat) (h : isLength ls = true) :
    Ensures ((grammar (n + 1)).expression true) ls
      fun whole _ front ts => Moves whole i i front ts := by
  obtain ⟨e, hwrites⟩ := writes_length n h
  intro written leftover a r hrun
  cases (hwrites written leftover).symm.trans hrun
  exact ⟨fun _ => id, ls, lengthTokens ls, (List.append_nil ls).symm, rfl,
    fun whole _ => moves_lengthTokens h i whole⟩

/-! ### All levels -/

theorem faithful_grammar (n : Nat) : Faithful (grammar n) := by
  induction n with
  | zero =>
    refine ⟨fun plus i ls => ?_, fun i ls => ?_, fun captures constants i => ?_, fun i => ?_,
      fun i ls _ => ?_⟩
    · exact .throw _
    · exact .throw _
    · exact .throw _ i i
    · exact .throw _ _ _
    · exact .throw _
  | succ n ih => exact ⟨ih.typeOf, ih.argumentsOf, ih.boundOf, carries_block _,
    fun i => ensures_length n i⟩

end Abridge.Derive.Syntax

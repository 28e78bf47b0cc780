import Abridge.Proofs.ParameterTokens

/-!
The tokens of paths, bounds and arguments. An empty list in angle brackets at the end of a path is
taken away again in front of the inputs of a function.
-/
namespace Abridge.Derive.Syntax

variable {g : Productions} {i : Nat} {ls : List Lexeme}

/-! ### Segments -/

/-- What a path that ends so is written as. An empty list at its end can be taken away again. -/
def EndsIn (whole : Bool) (i j : Nat) (e : PathEnd) (front : List Lexeme) (ts : List Token) :
    Prop :=
  match e with
  | .hollow n => ∃ front' list ts' us, front = front' ++ list ∧ ts = ts' ++ us ∧ us.length = n ∧
      Hollow list ∧ Moves whole i j front' ts' ∧ Moves whole j j list us
  | _ => Moves whole i j front ts

theorem EndsIn.moves {whole : Bool} {i j : Nat} {e : PathEnd} {front : List Lexeme}
    {ts : List Token} (h : EndsIn whole i j e front ts) : Moves whole i j front ts := by
  cases e with
  | hollow n =>
    obtain ⟨front', list, ts', us, rfl, rfl, -, -, hfront, hlist⟩ := h
    exact hfront.append hlist
  | bare => exact h
  | arguments => exact h

theorem EndsIn.behind {whole : Bool} {i j k : Nat} {e : PathEnd} {front front' : List Lexeme}
    {ts ts' : List Token} (h : Moves whole i j front ts) (h' : EndsIn whole j k e front' ts') :
    EndsIn whole i k e (front ++ front') (ts ++ ts') := by
  cases e with
  | hollow n =>
    obtain ⟨front', list, ts', us, rfl, rfl, hn, hhollow, hfront, hlist⟩ := h'
    exact ⟨front ++ front', list, ts ++ ts', us, (List.append_assoc ..).symm,
      (List.append_assoc ..).symm, hn, hhollow, h.append hfront, hlist⟩
  | bare => exact h.append h'
  | arguments => exact h.append h'

/-- Whatever `p` reads is written, and ends as `e` says of its value. -/
def CarriesPath {α : Type} (i j : Nat) (e : α → PathEnd) (p : Parse α) : Prop :=
  ∀ ls, Ensures p ls fun whole a front ts => EndsIn whole i j (e a) front ts

theorem CarriesPath.carries {α : Type} {j : Nat} {e : α → PathEnd} {p : Parse α}
    (h : CarriesPath i j e p) : Carries i j p := fun ls => (h ls).mono fun _ _ _ _ h => h.moves

theorem CarriesPath.pure {α : Type} {e : α → PathEnd} {a : α} (h : e a = .bare) (i : Nat) :
    CarriesPath i i e (Pure.pure a) := fun _ => .pure fun whole => by
  rw [h]
  exact Moves.nil i

theorem Carries.path {α β : Type} {j k : Nat} {e : α → PathEnd} {p : Parse β} {f : β → Parse α}
    (hp : Carries i j p) (hf : ∀ b, CarriesPath j k e (f b)) : CarriesPath i k e (p >>= f) :=
  fun ls => (hp ls).bind fun b _ _ behind _ _ =>
    (hf b behind).mono fun _ _ _ _ h' h => h'.behind h

theorem CarriesPath.mark?_bind {α : Type} {j : Nat} {e : α → PathEnd} {s : String}
    {f : Bool → Parse α} (hmark : CarriesPath i j e (mark s >>= fun _ => f true))
    (hnone : CarriesPath i j e (f false)) : CarriesPath i j e (mark? s >>= f) :=
  fun ls => .mark?_bind (fun _ => hmark ls) fun _ => hnone ls

theorem CarriesPath.rest {α : Type} {j : Nat} {e : α → PathEnd} {f : List Lexeme → Parse α}
    (h : ∀ ls, CarriesPath i j e (f ls)) : CarriesPath i j e (Syntax.rest >>= f) :=
  fun ls => Ensures.rest (h ls ls)

section Faithful

variable (hg : Faithful g)
include hg

theorem Faithful.segment (inExpression : Bool) (i : Nat) :
    CarriesPath i i id (segment g inExpression) := by
  refine .rest fun ls => ?_
  split
  · exact (Carries.anyWord i).path fun _ => .pure rfl i
  · refine .rest fun ls => ?_
    extract_lets behindName
    have hbehind : CarriesPath i i id (behindName ()) := by
      refine .rest fun ls => ?_
      split
      · refine fun ls => .mark?_bind (fun _ => (ensures_mark (by decide)).bind ?_) fun _ => ?_
        · rintro _ colons _ behind - -
          refine (hg.arguments i behind).bind ?_
          rintro (_ | _) list us _ - - <;> refine .pure ?_
          · rintro whole ⟨hlist, hnone⟩ ⟨hcolons, rfl⟩
            have hboth := (Moves.mark hcolons rfl i).append hlist
            obtain ⟨j, rfl⟩ := hcolons.eq_two rfl
            obtain ⟨⟨j', j'', rfl⟩, rfl⟩ := hnone rfl
            exact ⟨[], _, [], _, rfl, rfl, rfl, .turbofish j j' j'', .nil i, hboth⟩
          · rintro whole ⟨hlist, -⟩ ⟨hcolons, rfl⟩
            rw [List.append_nil, List.append_nil]
            exact (Moves.mark hcolons rfl i).append hlist
        · refine (hg.arguments i ls).bind ?_
          rintro (_ | _) list us _ - - <;> refine .pure ?_
          · rintro whole ⟨hlist, hnone⟩
            obtain ⟨⟨j, j', rfl⟩, rfl⟩ := hnone rfl
            exact ⟨[], _, [], _, rfl, rfl, rfl, .list j j', .nil i, hlist⟩
          · rintro whole ⟨hlist, -⟩
            rw [List.append_nil, List.append_nil]
            exact hlist
      · exact .pure rfl i
    split
    · exact (Carries.anyWord i).path fun _ => hbehind
    · exact (Carries.name i).path fun _ => hbehind

theorem Faithful.segments (inExpression : Bool) (stops : List Lexeme → Bool) (p : PathForm)
    (i : Nat) : CarriesPath i i PathForm.ending (segments g inExpression stops p) := by
  intro ls
  refine .repeating (I := fun whole _ front ts => Moves whole i i front ts) ?_ fun _ => .nil i
  intro p front ts behind _
  refine (hg.segment inExpression i behind).bind fun e front' ts' behind' _ _ => Ensures.rest ?_
  have hending : (p.push e).ending = e := by cases e <;> rfl
  split
  · refine (ensures_mark (by decide)).bind fun _ colons us _ _ _ => .pure ?_
    rintro whole ⟨hcolons, rfl⟩ hsegment hbefore
    obtain ⟨j, rfl⟩ := hcolons.eq_two rfl
    refine ⟨by simp, ?_⟩
    have h := hbefore.append (hsegment.moves.append (.mark hcolons rfl i))
    simpa using h
  · refine .pure fun whole hsegment hbefore => ?_
    rw [List.append_nil, List.append_nil, if_neg Bool.false_ne_true, hending]
    exact hsegment.behind hbefore

theorem Faithful.plainPath (inExpression : Bool) (i : Nat) :
    CarriesPath i i PathForm.ending (plainPath g inExpression) :=
  (Carries.mark? rfl (by decide) i).path fun _ => hg.segments inExpression _ _ i

theorem Faithful.path (inExpression : Bool) (i : Nat) :
    CarriesPath i i PathForm.ending (path g inExpression) := by
  refine .mark?_bind ?_ (hg.plainPath inExpression i)
  refine (Carries.opening i).path fun _ => (hg.carriesType true _).path fun _ =>
    (Carries.word? "as" _).path fun b => ?_
  have hbehind : CarriesPath (i + 1) i PathForm.ending (do
      mark ">"
      mark "::"
      Syntax.segments g inExpression (fun _ => false) ⟨true, false, 0, true, .bare⟩) :=
    (Carries.closing i).path fun _ => (Carries.mark rfl (by decide) i).path fun _ =>
      hg.segments inExpression _ _ i
  split
  · exact (hg.plainPath false _).carries.discard.path fun _ => hbehind
  · exact hbehind

end Faithful

/-! ### Entries -/

/-- An entry that is no lifetime. -/
theorem Brings.entry {p : Parse Bool} (h : Brings i i (· = false) p) : WritesEntry i p := fun ls =>
  (h ls).mono fun _ _ _ _ h => ⟨h.1, fun hlifetime => absurd (h.2.symm.trans hlifetime) (by decide)⟩

theorem writesEntry_lifetime (i : Nat) : WritesEntry i (lifetime >>= fun _ => pure true) :=
  fun _ => (ensures_lifetime i).bind_pure fun _ _ _ _ h => ⟨h.1, fun _ => h.2⟩

theorem writesEntry_capturedName (i : Nat) : WritesEntry i capturedName := by
  refine fun ls => Ensures.rest ?_
  extract_lets isLifetime finish behindName
  have hbehind (behind : List Lexeme) : Ensures (behindName ()) behind fun _ b front ts =>
      b = isLifetime ∧ front = [] ∧ ts = [] := by
    refine Ensures.rest ?_
    split
    · exact (ensures_missing _).fails_bind
    · exact .pure fun _ => ⟨rfl, rfl, rfl⟩
  split
  · refine (ensures_lifetime i).bind fun _ _ _ behind _ _ => (hbehind behind).mono ?_
    rintro whole _ _ _ ⟨-, rfl, rfl⟩ ⟨hmoves, hfront⟩
    rw [List.append_nil, List.append_nil]
    exact ⟨hmoves, fun _ => hfront⟩
  · rename_i hother
    split
    · refine (Carries.anyWord i ls).bind fun _ _ _ behind _ _ => (hbehind behind).mono ?_
      rintro whole _ _ _ ⟨rfl, rfl, rfl⟩ hmoves
      rw [List.append_nil, List.append_nil]
      exact ⟨hmoves, fun h => absurd h hother⟩
    · exact (ensures_missing _).fails_bind

/-! ### Inputs of a function -/

/-- What stands at the end may be taken away. -/
theorem Amends.dropping {β : Type} {kept dropped : List Token} {n : Nat} {q : Parse β}
    {Q : Bool → β → List Lexeme → List Token → Prop} (hn : dropped.length = n)
    (hq : Amends kept q ls Q) :
    Amends (kept ++ dropped)
      (modify (fun r : Reading => { r with written := r.written.drop n }) >>= fun _ => q) ls Q := by
  intro written leftover a r hrun
  refine hq written leftover a r ?_
  rw [← hrun]
  have hdrop : ((kept ++ dropped).reverse ++ written).drop n = kept.reverse ++ written := by
    rw [List.reverse_append, List.append_assoc, ← hn, ← List.length_reverse, List.drop_left]
  simp only [StateT.run_bind, StateT.run_modify, hdrop]
  rfl

section Faithful

variable (hg : Faithful g)
include hg

theorem Faithful.result (plus : Bool) (i : Nat) : Carries i i (result g plus) :=
  .mark?_bind ((Carries.arrow i).bind fun _ => hg.carriesType plus i) (.pure () i)

theorem Faithful.types : Carries 1 1 (commaSeparated (discard (g.type true))) :=
  .commaSeparated (hg.carriesType true 1)

/-- Inputs and result take the place of a list that is empty. -/
theorem Faithful.inputsAndResult (i : Nat) :
    Ensures
      (do
        if sees "::" ls then skip 2
        within .round (commaSeparated (discard (g.type true)))
        Syntax.result g false
        return true)
      ls fun whole _ front ts => ∀ list us, Hollow list → Moves whole i i list us →
        Moves whole i i (list ++ front) ts := by
  have hbehind (colons behind : List Lexeme)
      (hcolons : colons = [] ∨ ∃ j, colons = [.mark ':' true, .mark ':' j]) :
      Ensures
        (do
          within .round (commaSeparated (discard (g.type true)))
          Syntax.result g false
          return true)
        behind fun whole _ front ts => ∀ list us, Hollow list → Moves whole i i list us →
          Moves whole i i (list ++ (colons ++ front)) ts := by
    refine (ensures_within fun inner _ _ => hg.types inner).bind fun _ _ _ behind _ _ =>
      (hg.result false i behind).bind fun _ front _ _ _ _ => .pure ?_
    rintro whole hresult ⟨inner, left, ts, rfl, rfl, hleft, hinner⟩ list us hhollow hlist
    have hgroup := hinner.within (d := .round) (by decide) hleft i
    simpa using (hlist.inputs hhollow hcolons hgroup).append hresult
  split
  · rename_i hsees
    obtain ⟨colons, hcolons, hls⟩ := isMark_of_sees (by decide) hsees
    obtain ⟨j, rfl⟩ := hcolons.eq_two rfl
    refine (ensures_skip [.mark ':' true, .mark ':' j]
      (Q := fun _ _ front ts => front = [.mark ':' true, .mark ':' j] ∧ ts = []) hls
      fun _ => ⟨rfl, rfl⟩).bind ?_
    rintro _ front _ behind - ⟨rfl, rfl⟩
    exact (hbehind _ behind (.inr ⟨j, rfl⟩)).mono fun _ _ _ _ h _ => h
  · exact hbehind [] ls (.inl rfl)

/-- Inputs and result behind a path, whether the path ends with an empty list or not. -/
theorem Faithful.inputs? {p : PathForm} {i j : Nat} {front : List Lexeme} {ts : List Token}
    (hpath : EndsIn false i j p.ending front ts) :
    Amends ts (inputs? g p) ls fun whole _ front' ts' =>
      EndsIn whole i j p.ending front ts → Moves whole i j (front ++ front') ts' := by
  obtain ⟨q, r, n, simple, e⟩ := p
  have hnone : Amends ts (Pure.pure false) ls fun whole (_ : Bool) front' ts' =>
      EndsIn whole i j e front ts → Moves whole i j (front ++ front') ts' := by
    refine Ensures.amends (.pure fun whole h => ?_)
    rw [List.append_nil, List.append_nil]
    exact h.moves
  refine Amends.rest ?_
  cases e with
  | arguments => exact hnone
  | bare =>
    simp only
    split
    · rw [← List.append_nil ts]
      refine Amends.dropping rfl (Ensures.amends ((hg.inputsAndResult j).mono ?_))
      intro whole _ front' ts' h hfront
      rw [List.append_nil] at hfront
      exact hfront.moves.append (h [] [] .nothing (.nil j))
    · exact hnone
  | hollow n =>
    simp only
    split
    · obtain ⟨_, _, kept, dropped, -, rfl, hn, -, -, -⟩ := hpath
      refine Amends.dropping hn (Ensures.amends ((hg.inputsAndResult j).mono ?_))
      rintro whole _ front' ts' h ⟨front, list, ts, us, rfl, hts, hn', hhollow, hfront, hlist⟩
      obtain ⟨rfl, rfl⟩ := List.append_inj' hts (hn.trans hn'.symm)
      rw [List.append_assoc]
      exact hfront.append (h list _ hhollow hlist)
    · exact hnone

/-! ### Bounds -/

theorem Faithful.pathWithInputs {i j : Nat} {p : Parse PathForm}
    (hp : CarriesPath i j PathForm.ending p) :
    Carries i j (p >>= fun a => discard (Syntax.inputs? g a)) := fun ls =>
  (hp ls).bind_amends fun _ _ _ _ _ hpath => (hg.inputs? hpath).map

theorem Faithful.traitBound (constants : Bool) (i : Nat) :
    Carries i i (traitBound g constants) := by
  refine (hg.carriesBinder i).bind fun bound => .rest fun ls => ?_
  extract_lets conditional behindConst behindConditional
  have hconst (always : Bool) : Carries i i (behindConst always) := by
    unfold behindConst
    extract_lets finish behindAlways
    have halways : Carries i i (behindAlways ()) := by
      refine (Carries.mark? rfl (by decide) i).bind fun optional => ?_
      extract_lets behindSecond
      have hsecond (bound : Bool) : Carries i i (behindSecond bound) := by
        unfold behindSecond
        rw [← bind_assoc]
        refine (hg.pathWithInputs (hg.plainPath false i)).bind fun _ => ?_
        split
        · exact (Carries.throw _ i i).bind fun _ => .pure _ i
        · exact .pure _ i
      split
      · exact (hg.carriesBinder i).bind hsecond
      · exact (Carries.pure bound i).bind hsecond
    split
    · exact (Carries.throw _ i i).bind fun _ => halways
    · exact halways
  have hconditional : Carries i i (behindConditional ()) := by
    unfold behindConditional
    split
    · exact (Carries.pure false i).bind hconst
    · exact (Carries.word? _ i).bind hconst
  split
  · refine (Carries.within (by decide) (Carries.word "const" 0) i).bind fun _ => ?_
    split
    · exact (Carries.throw _ i i).bind fun _ => hconditional
    · exact hconditional
  · exact hconditional

theorem Faithful.boundOf (captures constants : Bool) (i : Nat) :
    Carries i i (boundOf g captures constants) := by
  refine .rest fun ls => ?_
  split
  · exact (Carries.lifetime i).bind fun _ => .pure false i
  · refine (Carries.word? _ i).bind fun isList => ?_
    split
    · rw [← bind_assoc]
      refine (carries_listed (writesEntry_capturedName _)).bind fun _ => ?_
      split
      · exact (Carries.throw _ i i).bind fun _ => .pure false i
      · exact .pure false i
    · refine .orSpelled ?_
      split
      · exact (Carries.within (by decide) (hg.traitBound constants 0) i).bind fun _ => .pure _ i
      · exact (hg.traitBound constants i).bind fun _ => .pure _ i

theorem Faithful.bounds (captures constants plus : Bool) (i : Nat) :
    Carries i i (bounds g captures constants plus) := by
  refine .repeating (fun found => (hg.bound captures constants i).bind fun isTrait =>
    .rest fun ls => ?_) false
  split
  · exact (Carries.mark rfl (by decide) i).bind fun _ => .rest fun ls => .pure _ i
  · exact .pure _ i

/-! ### Arguments -/

theorem Faithful.constantOrType (i : Nat) : Carries (i + 1) (i + 1) (constantOrType g) := by
  refine .rest fun ls => ?_
  split
  · exact hg.constant i
  · exact hg.carriesType true _

theorem Faithful.argument (i : Nat) : WritesEntry (i + 1) (argument g) := by
  refine fun ls => Ensures.rest ?_
  have hother : Brings (i + 1) (i + 1) (· = false) (Pure.pure false) :=
    .pure (V := (· = false)) rfl _
  split
  · exact writesEntry_lifetime _ ls
  · split
    · exact ((hg.constant i).brings fun _ => hother).entry ls
    · refine Brings.entry ?_ ls
      refine (hg.type true _).carries.brings fun form => ?_
      split
      · refine (Carries.mark? rfl (by decide) _).brings fun b => ?_
        split
        · exact (hg.constantOrType i).brings fun _ => hother
        · refine (Carries.mark? rfl (by decide) _).brings fun b => ?_
          split
          · exact ((hg.parameterBound _).boundsUntil _).brings fun _ => hother
          · exact hother
      · exact hother

/-- Arguments in angle brackets; none are an empty list. -/
theorem Faithful.argumentsOf (i : Nat) : WritesArguments i (argumentsOf g) := by
  refine fun ls => (ensures_listed (hg.argument i)).bind fun es _ _ behind _ _ =>
    (ensures_writeListed es).bind fun _ _ _ _ _ _ => .pure ?_
  rintro whole ⟨rfl, rfl⟩ ⟨rfl, hmoves, hnone⟩
  refine ⟨by simpa using hmoves, fun hgiven => ?_⟩
  obtain rfl : es = [] := by simpa using hgiven
  exact ⟨by simpa using hnone rfl, rfl⟩

end Faithful

end Abridge.Derive.Syntax

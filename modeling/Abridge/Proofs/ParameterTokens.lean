import Abridge.Proofs.Ensures

/-!
The tokens of lists in angle brackets and of parameters. Each production writes what it reads, if
those one level further down do. What stands in attributes and blocks is not looked into; there, a
text is not plain.
-/
namespace Abridge.Derive.Syntax

/-- What a type is written as. A trait in round brackets is a group and nothing else. -/
def WritesType (i : Nat) (p : Parse TypeForm) : Prop :=
  ∀ ls, Ensures p ls fun whole form front ts =>
    Moves whole i i front ts ∧ (form = .wrappedBound → ∃ us, ts = [.group .round us])

/-- What a type is written as that is no trait in round brackets. -/
abbrev WritesOther (i : Nat) (p : Parse TypeForm) : Prop := Brings i i (· ≠ .wrappedBound) p

/-- What arguments in angle brackets are written as. -/
def WritesArguments (i : Nat) (p : Parse Bool) : Prop :=
  ∀ ls, Ensures p ls fun whole given front ts => Moves whole i i front ts ∧
    (given = false → (∃ j j', front = [.mark '<' j, .mark '>' j']) ∧ ts = [.mark "<", .mark ">"])

/-- Productions that write what they read. -/
structure Faithful (g : Productions) : Prop where
  type (plus : Bool) (i : Nat) : WritesType i (g.type plus)
  arguments (i : Nat) : WritesArguments i g.arguments
  bound (captures constants : Bool) (i : Nat) : Carries i i (g.bound captures constants)
  block (i : Nat) : Carries (i + 1) (i + 1) (g.block true)
  length (i : Nat) {ls : List Lexeme} : isLength ls = true →
    Ensures (g.expression true) ls fun whole _ front ts => Moves whole i i front ts

variable {α : Type} {g : Productions} {i : Nat} {ls : List Lexeme}

theorem WritesType.carries {p : Parse TypeForm} (h : WritesType i p) : Carries i i p :=
  fun ls => (h ls).mono fun _ _ _ _ h => h.1

theorem Faithful.carriesType (hg : Faithful g) (plus : Bool) (i : Nat) :
    Carries i i (discard (g.type plus)) := (hg.type plus i).carries.discard

/-! ### Texts that are not plain -/

theorem not_plain_of_sees (h : sees "#" ls = true) : allPlain ls = false := by
  obtain ⟨front, hfront, hls⟩ := isMark_of_sees (by decide) h
  obtain ⟨j, rfl⟩ := hfront.eq_one rfl
  rw [hls]
  rfl

/-- Attributes are a mark and a group, whatever stands in it. -/
theorem carries_attributes (i : Nat) : Carries i i (attributes g) := by
  refine .whileTrue fun ls => .mark?_bind (fun hsees => ?_) fun _ => Carries.pure false i ls
  refine .of_takes (not_plain_of_sees hsees) ((ensures_mark (by decide)).takes.bind ?_)
  rintro _ front _ behind ⟨hmark, rfl⟩
  refine (takes_within .square _ behind).bind ?_
  rintro _ _ _ behind' ⟨inner, us, rfl, rfl⟩
  exact (Ensures.pure fun _ =>
    (Moves.mark hmark rfl i).append (.unread (by decide) inner us i)).takes

/-! ### Lists in angle brackets -/

/-- What an entry of a list is written as. A lifetime is nothing but a lifetime. -/
def WritesEntry (i : Nat) (p : Parse Bool) : Prop :=
  ∀ ls, Ensures p ls fun whole isLifetime front ts =>
    Moves whole i i front ts ∧ (isLifetime = true → ∃ s, front = [.lifetime s])

/-- The entries of a list so far, the last one first. -/
def Listing (whole : Bool) (i : Nat) (es : List Token.Listed) (front : List Lexeme) : Prop :=
  ∃ entries : List ListEntry, es = (entries.map ListEntry.listed).reverse ∧
    front = entries.flatMap ListEntry.all ∧
    (∀ e ∈ entries, Moves whole (i + 1) (i + 1) e.lexemes e.listed.tokens) ∧
    ∀ e ∈ entries, e.listed.isLifetime = true → ∃ s, e.lexemes = [.lifetime s]

theorem Listing.push {whole : Bool} {es : List Token.Listed} {front : List Lexeme}
    (h : Listing whole i es front) {e : ListEntry}
    (hmoves : Moves whole (i + 1) (i + 1) e.lexemes e.listed.tokens)
    (hlifetime : e.listed.isLifetime = true → ∃ s, e.lexemes = [.lifetime s]) :
    Listing whole i (e.listed :: es) (front ++ e.all) := by
  obtain ⟨entries, rfl, rfl, hall, hlifetimes⟩ := h
  exact ⟨entries ++ [e], by simp, by simp,
    List.forall_mem_append.mpr ⟨hall, List.forall_mem_singleton.mpr hmoves⟩,
    List.forall_mem_append.mpr ⟨hlifetimes, List.forall_mem_singleton.mpr hlifetime⟩⟩

/-- Entries kept aside, together with the angle brackets around them, stand for what is written of
them later. -/
theorem ensures_listed {p : Parse Bool} (hp : WritesEntry (i + 1) p) :
    Ensures (listed p) ls fun whole es front ts => ts = [] ∧
      Moves whole i i front (.mark "<" :: Token.lifetimesFirst es ++ [.mark ">"]) ∧
      (es = [] → ∃ j j', front = [.mark '<' j, .mark '>' j']) := by
  unfold listed
  refine Ensures.bind (Ensures.aside (Q := fun whole es front _ =>
    Moves whole i i front (.mark "<" :: Token.lifetimesFirst es ++ [.mark ">"]) ∧
      (es = [] → ∃ j j', front = [.mark '<' j, .mark '>' j'])) ?inside) ?outside
  case inside =>
    refine (ensures_mark (by decide)).bind fun _ first _ inside _ _ => ?_
    refine Ensures.bind (Q := fun whole es front _ => Listing whole i es front) ?entries ?last
    case entries =>
      refine .repeating (I := fun whole es front _ => Listing whole i es front) ?_
        fun _ => ⟨[], rfl, rfl, nofun, nofun⟩
      intro es front _ behind _
      refine Ensures.rest ?_
      split
      · refine .pure fun whole h => ?_
        rw [List.append_nil]
        exact h
      · refine (hp behind).aside.bind ?_
        rintro ⟨isLifetime, tokens⟩ entry _ behind' - -
        refine Ensures.rest ?_
        split
        · refine .pure ?_
          rintro whole ⟨-, hmoves, hlifetime⟩ h
          have hpush := h.push (e := ⟨entry, true, isLifetime, tokens, false⟩) hmoves hlifetime
          simpa [ListEntry.all] using hpush
        · refine (ensures_mark (by decide)).bind ?_
          rintro _ comma _ behind'' - ⟨hcomma, -⟩
          obtain ⟨j, rfl⟩ := hcomma.eq_one rfl
          refine .pure ?_
          rintro whole - ⟨-, hmoves, hlifetime⟩ h
          rw [List.append_nil]
          exact ⟨by simp, h.push (e := ⟨entry, j, isLifetime, tokens, true⟩) hmoves hlifetime⟩
    case last =>
      intro es front _ behind _ _
      refine (ensures_mark (by decide)).bind fun _ last _ _ _ _ => .pure ?_
      rintro whole ⟨hlast, -⟩ ⟨entries, rfl, rfl, hmoves, hlifetime⟩ ⟨hfirst, -⟩
      have h := Moves.listed hmoves hlifetime hfirst hlast
      refine ⟨by simpa using h, fun hnone => ?_⟩
      obtain rfl : entries = [] := by simpa using hnone
      obtain ⟨j, rfl⟩ := hfirst.eq_one rfl
      obtain ⟨j', rfl⟩ := hlast.eq_one rfl
      exact ⟨j, j', rfl⟩
  case outside =>
    rintro ⟨es, _⟩ front _ behind - -
    refine .pure ?_
    rintro whole ⟨rfl, h⟩
    simpa using h

theorem ensures_writeListed (es : List Token.Listed) :
    Ensures (writeListed es) ls fun _ _ front ts =>
      front = [] ∧ ts = .mark "<" :: Token.lifetimesFirst es ++ [.mark ">"] :=
  ensures_write fun _ => ⟨rfl, rfl⟩

theorem carries_listed {p : Parse Bool} (hp : WritesEntry (i + 1) p) :
    Carries i i (listed p >>= writeListed) := by
  refine fun ls => (ensures_listed hp).bind fun es front _ behind _ _ =>
    (ensures_writeListed es).mono ?_
  rintro whole _ _ _ ⟨rfl, rfl⟩ ⟨rfl, hmoves, -⟩
  rwa [List.append_nil]

/-! ### Bounds behind a colon -/

theorem sees_colon {ls : List Lexeme} (h : sees ":" ls = true) :
    ∃ j, ls = .mark ':' j :: ls.drop 1 := by
  obtain ⟨front, hfront, hls⟩ := isMark_of_sees (by decide) h
  obtain ⟨j, rfl⟩ := hfront.eq_one rfl
  exact ⟨j, hls⟩

theorem ensures_skip (front : List Lexeme) {behind : List Lexeme} (hls : ls = front ++ behind)
    {Q : Bool → Unit → List Lexeme → List Token → Prop} (h : ∀ whole, Q whole () front []) :
    Ensures (skip front.length) ls Q := by
  intro written leftover a r hrun
  cases hrun
  refine ⟨fun _ => id, front, [], ?_, rfl, fun whole _ => h whole⟩
  simp [hls]

theorem Carries.afterColon {p : Parse Unit} (hp : Carries i i p) : Carries i i (afterColon p) := by
  refine fun ls => Ensures.rest ?_
  split
  · rename_i hsees
    obtain ⟨j, hls⟩ := sees_colon hsees
    have hcolon : IsMark ":" [.mark ':' j] := ⟨by decide, rfl, rfl⟩
    have hskip : Ensures (skip 1) ls fun _ _ front ts => front = [.mark ':' j] ∧ ts = [] :=
      ensures_skip [.mark ':' j] hls fun _ => ⟨rfl, rfl⟩
    refine hskip.bind fun _ _ _ behind _ _ => (hp behind).aside.bind ?_
    rintro ⟨_, us⟩ front _ behind' - -
    cases us with
    | nil =>
      refine .pure ?_
      rintro whole ⟨rfl, hmoves⟩ ⟨rfl, rfl⟩
      rw [List.append_nil]
      exact ⟨fun hwhole => .colon j (hmoves.rendered hwhole),
        ((Moves.mark hcolon rfl i).append hmoves).lexemes,
        fun htame => hmoves.tokens
          (isTame_append (show isTame ([.mark ':' j] ++ front) = true from htame)).2⟩
    | cons u us =>
      refine Ensures.write_bind (.pure ?_)
      rintro whole ⟨rfl, hmoves⟩ ⟨rfl, rfl⟩
      simpa using (Moves.mark hcolon rfl i).append hmoves
  · exact Carries.pure false i ls

theorem Carries.boundsUntil {p : Parse Unit} (hp : Carries i i p) (ends : List Lexeme → Bool) :
    Carries i i (boundsUntil ends p) := by
  refine .whileTrue (.rest fun ls => ?_)
  split
  · exact .pure false i
  · exact hp.bind fun _ => .mark? rfl (by decide) i

theorem carries_lifetimeParameter (i : Nat) : Carries i i lifetimeParameter :=
  (Carries.lifetime i).bind fun _ => ((Carries.lifetime i).boundsUntil _).afterColon.discard

section Faithful

variable (hg : Faithful g)
include hg

theorem Faithful.parameterBound (i : Nat) : Carries i i (parameterBound g) :=
  (hg.bound false true i).discard

/-! ### Parameters -/

theorem Faithful.constant (i : Nat) : Carries (i + 1) (i + 1) (constant g) := by
  refine .rest fun ls => ?_
  split
  · exact (Carries.literal _).discard
  · split
    · exact .name _
    · split
      · exact hg.block i
      · exact fun _ => ensures_unexpected

theorem Faithful.typeParameter (i : Nat) : Carries i i (typeParameter g) := by
  refine (Carries.name i).bind fun _ =>
    ((hg.parameterBound i).boundsUntil _).afterColon.discard.bind
      fun _ => (Carries.mark? rfl (by decide) i).bind fun b => ?_
  split
  · exact hg.carriesType true i
  · exact .pure () i

theorem Faithful.constantParameter (i : Nat) :
    Carries (i + 1) (i + 1) (constantParameter g) := by
  refine (Carries.word _ _).bind fun _ => (Carries.name _).bind fun _ =>
    (Carries.mark rfl (by decide) _).bind fun _ => (hg.carriesType true _).bind fun _ =>
      (Carries.mark? rfl (by decide) _).bind fun b => ?_
  split
  · exact hg.constant i
  · exact .pure () _

theorem Faithful.boundParameter (i : Nat) : Carries (i + 1) (i + 1) (boundParameter g) := by
  refine (carries_attributes _).bind fun _ => .rest fun ls => ?_
  split
  · exact hg.typeParameter _
  · split
    · exact carries_lifetimeParameter _
    · split
      · exact hg.constantParameter i
      · exact .missing _ _ _

/-- Parameters that hold for what follows begin with the word for them. -/
theorem Faithful.binder? (i : Nat) : Ensures (binder? g) ls fun whole b front ts =>
    Moves whole i i front ts ∧
      if b then IsBinder front else front = [] ∧ ts = [] := by
  refine (ensures_word? "for").bind ?_
  rintro (_ | _) front ts behind - ⟨rfl, rfl⟩
  · refine .pure ?_
    rintro whole -
    exact ⟨.nil i, rfl, rfl⟩
  · have hinside : Carries (i + 1) (i + 1) (whileTrue do
        if sees ">" (← rest) then return false
        Syntax.boundParameter g
        if sees ">" (← rest) then return false
        mark ","
        return true) := by
      refine .whileTrue (.rest fun ls => ?_)
      split
      · exact .pure false _
      · refine (hg.boundParameter i).bind fun _ => .rest fun ls => ?_
        split
        · exact .pure false _
        · exact (Carries.comma i).bind fun _ => .pure true _
    refine (ensures_mark (by decide)).bind fun _ _ _ behind _ _ => (hinside behind).bind
      fun _ entries _ _ _ _ => (ensures_mark (by decide)).bind fun _ _ _ _ _ _ => .pure ?_
    rintro whole ⟨hlast, rfl⟩ hentries ⟨hfirst, rfl⟩ -
    have h := (Moves.word i "for").append
      ((Moves.opening hfirst i).append (hentries.append (.closing hlast i)))
    obtain ⟨j, rfl⟩ := hfirst.eq_one (c := '<') rfl
    obtain ⟨j', rfl⟩ := hlast.eq_one (c := '>') rfl
    exact ⟨by simpa using h, j, j', entries, by simp⟩

theorem Faithful.carriesBinder (i : Nat) : Carries i i (Syntax.binder? g) :=
  fun _ => (hg.binder? i).mono fun _ _ _ _ h => h.1

end Faithful

end Abridge.Derive.Syntax

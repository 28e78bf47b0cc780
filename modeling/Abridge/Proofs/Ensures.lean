import Abridge.Proofs.Readings
import Abridge.Proofs.Renderings

/-!
What can be said of every reading that comes to an end: which lexemes of a text it has taken, and
which tokens it has written for them. A reading of several steps takes and writes what its steps do,
one after the other, so that most productions only join lexemes to their tokens.
-/
namespace Abridge.Derive.Syntax

variable {α β : Type} {p : Parse α} {ls : List Lexeme} {i j k : Nat}

/-- If `p` reads in front of `ls`, where the tokens `done` have just been written, then `Q` holds of
its value, the lexemes that it takes and the tokens that stand there then in the place of `done`. It
holds for a `whole` text, if the text is plain and `p` reads all groups to their ends; no group of a
plain text that was left before is forgotten. -/
def Amends (done : List Token) (p : Parse α) (ls : List Lexeme)
    (Q : Bool → α → List Lexeme → List Token → Prop) : Prop :=
  ∀ written leftover a r, p.run ⟨ls, done.reverse ++ written, leftover⟩ = .ok (a, r) →
    (allPlain ls = true → r.leftover = none → leftover = none) ∧
      ∃ front ts, ls = front ++ r.rest ∧ r.written = ts.reverse ++ written ∧
        ∀ whole, (whole = true → allPlain ls = true ∧ r.leftover = none) → Q whole a front ts

/-- If `p` reads in front of `ls`, then `Q` holds of its value, the lexemes that it
takes and the tokens that it writes. -/
def Ensures (p : Parse α) (ls : List Lexeme)
    (Q : Bool → α → List Lexeme → List Token → Prop) : Prop :=
  Amends [] p ls Q

/-- The same, for texts that need not be plain and groups that need not be read to their ends. -/
def Takes (p : Parse α) (ls : List Lexeme) (Q : α → List Lexeme → List Token → Prop) : Prop :=
  ∀ written leftover a r, p.run ⟨ls, written, leftover⟩ = .ok (a, r) →
    ∃ front ts, ls = front ++ r.rest ∧ r.written = ts.reverse ++ written ∧ Q a front ts

/-- Whatever `p` reads is written, and leads from `i` open brackets to `j`. -/
def Carries (i j : Nat) (p : Parse α) : Prop :=
  ∀ ls, Ensures p ls fun whole _ front ts => Moves whole i j front ts

/-- Besides, its value satisfies `V`. -/
def Brings (i j : Nat) (V : α → Prop) (p : Parse α) : Prop :=
  ∀ ls, Ensures p ls fun whole a front ts => Moves whole i j front ts ∧ V a

/-! ### One after the other -/

section Laws

variable {done : List Token} {Q Q' : Bool → α → List Lexeme → List Token → Prop}
  {R : Bool → β → List Lexeme → List Token → Prop}

theorem Amends.mono (h : Amends done p ls Q)
    (hQ : ∀ whole a front ts, Q whole a front ts → Q' whole a front ts) : Amends done p ls Q' := by
  intro written leftover a r hrun
  obtain ⟨hkeeps, front, ts, hls, hwritten, hq⟩ := h written leftover a r hrun
  exact ⟨hkeeps, front, ts, hls, hwritten, fun whole hw => hQ whole a front ts (hq whole hw)⟩

theorem Ensures.mono (h : Ensures p ls Q)
    (hQ : ∀ whole a front ts, Q whole a front ts → Q' whole a front ts) : Ensures p ls Q' :=
  Amends.mono h hQ

theorem Ensures.pure {a : α} (h : ∀ whole, Q whole a [] []) : Ensures (Pure.pure a) ls Q := by
  intro written leftover b r hrun
  cases hrun
  exact ⟨fun _ => id, [], [], rfl, rfl, fun whole _ => h whole⟩

theorem Ensures.throw (fault : SyntaxFault) : Ensures (MonadExcept.throw fault : Parse α) ls Q := by
  intro written leftover a r hrun
  cases hrun

/-- Behind tokens that have just been written, a reading may write them anew. -/
theorem Amends.bind_amends {f : α → Parse β} (hp : Amends done p ls Q)
    (hf : ∀ a front ts behind, ls = front ++ behind → Q false a front ts →
      Amends ts (f a) behind fun whole b front' ts' =>
        Q whole a front ts → R whole b (front ++ front') ts') :
    Amends done (p >>= f) ls R := by
  intro written leftover b r hrun
  rw [StateT.run_bind] at hrun
  cases hp' : p.run ⟨ls, done.reverse ++ written, leftover⟩ with
  | error fault =>
    rw [hp'] at hrun
    cases hrun
  | ok x =>
    obtain ⟨a, behind, written₁, leftover₁⟩ := x
    rw [hp'] at hrun
    obtain ⟨hkeeps₁, front, ts, hls, hwritten₁, hq⟩ := hp written leftover a _ hp'
    simp only at hls hwritten₁
    subst hwritten₁
    have hbehind (h : allPlain ls = true) : allPlain behind = true :=
      allPlain_of_append (hls ▸ h)
    obtain ⟨hkeeps₂, front', ts', hrest, hwritten₂, hr⟩ :=
      hf a front ts behind hls (hq false nofun) written leftover₁ b r hrun
    refine ⟨fun hplain h => hkeeps₁ hplain (hkeeps₂ (hbehind hplain) h), front ++ front', ts', ?_,
      hwritten₂, fun whole hw => hr whole (fun h => ?_) (hq whole fun h => ?_)⟩
    · rw [hls, hrest, List.append_assoc]
    · exact ⟨hbehind (hw h).1, (hw h).2⟩
    · exact ⟨(hw h).1, hkeeps₂ (hbehind (hw h).1) (hw h).2⟩

/-- What stands there already may stay. -/
theorem Ensures.amends (h : Ensures p ls fun whole a front ts => Q whole a front (done ++ ts)) :
    Amends done p ls Q := by
  intro written leftover a r hrun
  obtain ⟨hkeeps, front, ts, hls, hwritten, hq⟩ := h (done.reverse ++ written) leftover a r hrun
  refine ⟨hkeeps, front, done ++ ts, hls, ?_, hq⟩
  rw [hwritten, List.reverse_append, List.append_assoc]

theorem Amends.bind {f : α → Parse β} (hp : Amends done p ls Q)
    (hf : ∀ a front ts behind, ls = front ++ behind → Q false a front ts →
      Ensures (f a) behind fun whole b front' ts' =>
        Q whole a front ts → R whole b (front ++ front') (ts ++ ts')) :
    Amends done (p >>= f) ls R :=
  hp.bind_amends fun a front ts behind hls hq => (hf a front ts behind hls hq).amends

theorem Ensures.bind {f : α → Parse β} (hp : Ensures p ls Q)
    (hf : ∀ a front ts behind, ls = front ++ behind → Q false a front ts →
      Ensures (f a) behind fun whole b front' ts' =>
        Q whole a front ts → R whole b (front ++ front') (ts ++ ts')) :
    Ensures (p >>= f) ls R := Amends.bind hp hf

/-- Nothing comes behind what never comes to an end. -/
theorem Ensures.fails_bind {f : α → Parse β} (hp : Ensures p ls fun _ _ _ _ => False) :
    Ensures (p >>= f) ls R := hp.bind fun _ _ _ _ _ h => h.elim

/-- Looking ahead neither takes nor writes. -/
theorem Amends.rest {f : List Lexeme → Parse β} (h : Amends done (f ls) ls R) :
    Amends done (Syntax.rest >>= f) ls R := h

theorem Ensures.rest {f : List Lexeme → Parse β} (h : Ensures (f ls) ls R) :
    Ensures (Syntax.rest >>= f) ls R := h

theorem Amends.bind_pure {f : α → β} (hp : Amends done p ls Q)
    (hr : ∀ whole a front ts, Q whole a front ts → R whole (f a) front ts) :
    Amends done (p >>= fun a => Pure.pure (f a)) ls R := by
  refine hp.bind fun a front ts behind _ _ => .pure fun whole hq => ?_
  rw [List.append_nil, List.append_nil]
  exact hr whole a front ts hq

theorem Amends.map {f : α → β}
    (h : Amends done p ls fun whole a front ts => R whole (f a) front ts) :
    Amends done (f <$> p) ls R := by
  rw [← bind_pure_comp]
  exact h.bind_pure fun _ _ _ _ hr => hr

theorem Amends.discard {R : Bool → List Lexeme → List Token → Prop}
    (h : Amends done p ls fun whole _ front ts => R whole front ts) :
    Amends done (discard p) ls fun whole _ front ts => R whole front ts := h.map

theorem ensures_missing (what : String) : Ensures (missing what : Parse α) ls Q := by
  rw [missing, Syntax.atEnd, bind_assoc]
  exact Ensures.rest (.throw _)

theorem ensures_unexpected : Ensures (unexpected : Parse α) ls Q := by
  rw [unexpected, Syntax.atEnd, bind_assoc]
  exact Ensures.rest (.throw _)

theorem Ensures.takes {Q : α → List Lexeme → List Token → Prop} (h : Ensures p ls fun _ => Q) :
    Takes p ls Q := by
  intro written leftover a r hrun
  obtain ⟨-, front, ts, hls, hwritten, hq⟩ := h written leftover a r hrun
  exact ⟨front, ts, hls, hwritten, hq false nofun⟩

theorem Takes.mono {Q Q' : α → List Lexeme → List Token → Prop} (h : Takes p ls Q)
    (hQ : ∀ a front ts, Q a front ts → Q' a front ts) : Takes p ls Q' := by
  intro written leftover a r hrun
  obtain ⟨front, ts, hls, hwritten, hq⟩ := h written leftover a r hrun
  exact ⟨front, ts, hls, hwritten, hQ a front ts hq⟩

theorem Takes.bind {f : α → Parse β} {Q : α → List Lexeme → List Token → Prop}
    {R : β → List Lexeme → List Token → Prop} (hp : Takes p ls Q)
    (hf : ∀ a front ts behind, Q a front ts →
      Takes (f a) behind fun b front' ts' => R b (front ++ front') (ts ++ ts')) :
    Takes (p >>= f) ls R := by
  intro written leftover b r hrun
  rw [StateT.run_bind] at hrun
  cases hp' : p.run ⟨ls, written, leftover⟩ with
  | error fault =>
    rw [hp'] at hrun
    cases hrun
  | ok x =>
    obtain ⟨a, behind, written₁, leftover₁⟩ := x
    rw [hp'] at hrun
    obtain ⟨front, ts, hls, hwritten₁, hq⟩ := hp written leftover a _ hp'
    simp only at hls hwritten₁
    obtain ⟨front', ts', hrest, hwritten₂, hr⟩ :=
      hf a front ts behind hq written₁ leftover₁ b r hrun
    refine ⟨front ++ front', ts ++ ts', ?_, ?_, hr⟩
    · rw [hls, List.append_assoc, ← hrest]
    · rw [hwritten₂, hwritten₁, List.reverse_append, List.append_assoc]

theorem Takes.rest {f : List Lexeme → Parse β} {R : β → List Lexeme → List Token → Prop}
    (h : Takes (f ls) ls R) : Takes (Syntax.rest >>= f) ls R := h

/-- A text that is not plain is never read as a whole. -/
theorem Ensures.of_takes (hls : allPlain ls = false) (h : Takes p ls (Q false)) :
    Ensures p ls Q := by
  intro written leftover a r hrun
  obtain ⟨front, ts, hfront, hwritten, hq⟩ := h written leftover a r hrun
  refine ⟨fun hplain => absurd (hplain.symm.trans hls) (by decide), front, ts, hfront, hwritten,
    fun whole hw => ?_⟩
  cases whole with
  | false => exact hq
  | true => exact absurd ((hw rfl).1.symm.trans hls) (by decide)

end Laws

namespace Carries

theorem pure (a : α) (i : Nat) : Carries i i (Pure.pure a) :=
  fun _ => .pure fun _ => .nil i

theorem throw (fault : SyntaxFault) (i j : Nat) :
    Carries i j (MonadExcept.throw fault : Parse α) := fun _ => .throw fault

theorem missing (what : String) (i j : Nat) : Carries i j (Syntax.missing what : Parse α) :=
  fun _ => ensures_missing what

theorem bind {f : α → Parse β} (hp : Carries i j p) (hf : ∀ a, Carries j k (f a)) :
    Carries i k (p >>= f) :=
  fun ls => (hp ls).bind fun a _ _ behind _ _ =>
    (hf a behind).mono fun _ _ _ _ h' h => h.append h'

theorem map (hp : Carries i j p) (f : α → β) : Carries i j (f <$> p) := fun ls =>
  Amends.map (R := fun whole _ front ts => Moves whole i j front ts) (hp ls)

theorem discard (hp : Carries i j p) : Carries i j (discard p) := hp.map _

theorem rest {f : List Lexeme → Parse β} (h : ∀ ls, Carries i j (f ls)) :
    Carries i j (Syntax.rest >>= f) := fun ls => Ensures.rest (h ls ls)

theorem atEnd (i : Nat) : Carries i i Syntax.atEnd := .rest fun ls => .pure ls.isEmpty i

end Carries

namespace Brings

variable {V : α → Prop}

theorem carries (h : Brings i j V p) : Carries i j p := fun ls => (h ls).mono fun _ _ _ _ h => h.1

theorem pure {a : α} (h : V a) (i : Nat) : Brings i i V (Pure.pure a) :=
  fun _ => .pure fun _ => ⟨.nil i, h⟩

theorem throw (fault : SyntaxFault) (i j : Nat) :
    Brings i j V (MonadExcept.throw fault : Parse α) := fun _ => .throw fault

theorem rest {f : List Lexeme → Parse α} (h : ∀ ls, Brings i j V (f ls)) :
    Brings i j V (Syntax.rest >>= f) := fun ls => Ensures.rest (h ls ls)

end Brings

/-- What comes last decides about the value. -/
theorem Carries.brings {V : β → Prop} {f : α → Parse β} (hp : Carries i j p)
    (hf : ∀ a, Brings j k V (f a)) : Brings i k V (p >>= f) := fun ls =>
  (hp ls).bind fun a _ _ behind _ _ =>
    (hf a behind).mono fun _ _ _ _ h' h => ⟨h.append h'.1, h'.2⟩

/-! ### Single lexemes -/

theorem ensures_mark {s : String} (hs : s ≠ "") :
    Ensures (mark s) ls fun _ _ front ts => IsMark s front ∧ ts = [.mark s] := by
  refine Ensures.rest ?_
  split
  · rename_i hsees
    obtain ⟨front, hfront, hls⟩ := isMark_of_sees hs hsees
    intro written leftover a r hrun
    cases hrun
    exact ⟨fun _ => id, front, [.mark s], hls, rfl, fun _ _ => ⟨hfront, rfl⟩⟩
  · exact .throw _

theorem Carries.mark {s : String} (h : s.toList.all isQuietChar = true) (hs : s ≠ "") (i : Nat) :
    Carries i i (mark s) := fun _ => (ensures_mark hs).mono fun _ _ _ _ ⟨hfront, hts⟩ =>
  hts ▸ .mark hfront h i

theorem Carries.arrow (i : Nat) : Carries i i (Syntax.mark "->") :=
  fun _ => (ensures_mark (by decide)).mono fun _ _ _ _ ⟨hfront, hts⟩ => hts ▸ .arrow hfront i

theorem Carries.opening (i : Nat) : Carries i (i + 1) (Syntax.mark "<") :=
  fun _ => (ensures_mark (by decide)).mono fun _ _ _ _ ⟨hfront, hts⟩ => hts ▸ .opening hfront i

theorem Carries.closing (i : Nat) : Carries (i + 1) i (Syntax.mark ">") :=
  fun _ => (ensures_mark (by decide)).mono fun _ _ _ _ ⟨hfront, hts⟩ => hts ▸ .closing hfront i

theorem Carries.comma (i : Nat) : Carries (i + 1) (i + 1) (Syntax.mark ",") :=
  fun _ => (ensures_mark (by decide)).mono fun _ _ _ _ ⟨hfront, hts⟩ => hts ▸ .comma hfront i

section Optional

variable {s : String}

/-- What follows depends on whether a mark stands here. -/
theorem Ensures.mark?_bind {f : Bool → Parse β} {R : Bool → β → List Lexeme → List Token → Prop}
    (hmark : sees s ls = true → Ensures (mark s >>= fun _ => f true) ls R)
    (hnone : sees s ls = false → Ensures (f false) ls R) : Ensures (mark? s >>= f) ls R := by
  rw [mark?, bind_assoc]
  refine Ensures.rest ?_
  split
  · rename_i hsees
    rw [bind_assoc]
    exact hmark hsees
  · rename_i hsees
    exact hnone (by simpa using hsees)

theorem Carries.mark?_bind {f : Bool → Parse β}
    (hmark : Carries i k (Syntax.mark s >>= fun _ => f true)) (hnone : Carries i k (f false)) :
    Carries i k (mark? s >>= f) :=
  fun ls => .mark?_bind (fun _ => hmark ls) fun _ => hnone ls

theorem Carries.mark? (h : s.toList.all isQuietChar = true) (hs : s ≠ "") (i : Nat) :
    Carries i i (mark? s) := by
  rw [← bind_pure (Syntax.mark? s)]
  exact .mark?_bind ((Carries.mark h hs i).bind fun _ => .pure _ i) (.pure _ i)

end Optional

theorem Carries.comma? (i : Nat) : Carries (i + 1) (i + 1) (Syntax.mark? ",") := by
  rw [← bind_pure (Syntax.mark? ",")]
  exact .mark?_bind ((Carries.comma i).bind fun _ => .pure _ _) (.pure _ _)

theorem Carries.anyWord (i : Nat) : Carries i i anyWord := by
  refine fun ls => Ensures.rest ?_
  split
  · intro written leftover a r hrun
    cases hrun
    exact ⟨fun _ => id, [.word _], [.word _], rfl, rfl, fun _ _ => .word i _⟩
  · exact ensures_missing _

theorem Carries.word (w : String) (i : Nat) : Carries i i (word w) := by
  refine .rest fun ls => ?_
  split
  · exact .anyWord i
  · exact .missing _ i i

theorem ensures_word? (w : String) : Ensures (word? w) ls fun _ b front ts =>
    if b then front = [.word w] ∧ ts = [.word w] else front = [] ∧ ts = [] := by
  refine Ensures.rest ?_
  split
  · rename_i hsees
    cases ls with
    | nil => cases hsees
    | cons l behind =>
      cases l with
      | word s =>
        obtain rfl : s = w := of_decide_eq_true hsees
        intro written leftover b r hrun
        cases hrun
        exact ⟨fun _ => id, [.word s], [.word s], rfl, rfl, fun _ _ => ⟨rfl, rfl⟩⟩
      | _ => cases hsees
  · exact .pure fun _ => ⟨rfl, rfl⟩

theorem Carries.word? (w : String) (i : Nat) : Carries i i (word? w) := by
  refine .rest fun ls => ?_
  split
  · exact (Carries.anyWord i).bind fun _ => .pure true i
  · exact .pure false i

theorem Carries.name (i : Nat) : Carries i i name := by
  refine .rest fun ls => ?_
  split
  · split
    · exact .missing _ i i
    · exact .anyWord i
  · exact .missing _ i i

theorem ensures_lifetime (i : Nat) : Ensures lifetime ls fun whole _ front ts =>
    Moves whole i i front ts ∧ ∃ s, front = [.lifetime s] := by
  refine Ensures.rest ?_
  split
  · rename_i s behind
    intro written leftover a r hrun
    cases hrun
    exact ⟨fun _ => id, [.lifetime s], [.mark s], rfl, rfl, fun _ _ => ⟨.lifetime i s, s, rfl⟩⟩
  · exact ensures_missing _

theorem Carries.lifetime (i : Nat) : Carries i i lifetime :=
  fun _ => (ensures_lifetime i).mono fun _ _ _ _ h => h.1

theorem moves_literal {l : Literal} {ts : List Token} {behind : List Lexeme}
    (h : literal? ls = some (l, ts, behind)) (i : Nat) :
    ∃ front, ls = front ++ behind ∧ ∀ whole, Moves whole i i front ts := by
  rw [literal?.eq_def] at h
  split at h
  · cases h
    exact ⟨[.literal _], rfl, fun _ => .literal i _⟩
  · split at h
    · cases h
      exact ⟨[.word _], rfl, fun _ => .word i _⟩
    · split at h
      · cases h
        exact ⟨[.word _], rfl, fun _ => .word i _⟩
      · cases h
  · split at h
    · cases h
      rename_i joint s _
      refine ⟨[.mark '-' joint, .literal s], rfl, fun whole => ⟨fun _ => ?_, fun _ d => ?_,
        fun _ => ?_⟩⟩
      · have hminus : IsMark "-" [.mark '-' joint] := ⟨by decide, rfl, rfl⟩
        exact (Rendered.mark hminus).append (.literal s)
      · cases joint <;>
          simp [Code.travel, Code.Nest.past, Lexeme.spell, Lexeme.spelled, Code.isBlock,
            Code.isComma, Code.isClosing, Code.isOpening, Code.isDash]
      · exact (Code.goes_quiet rfl i).append (Code.goes_quiet rfl i)
    · cases h
  · cases h

theorem Carries.literal (i : Nat) : Carries i i literal := by
  refine fun ls => Ensures.rest ?_
  split
  · rename_i h
    obtain ⟨front, hls, hmoves⟩ := moves_literal h i
    intro written leftover a r hrun
    cases hrun
    exact ⟨fun _ => id, front, _, hls, rfl, fun whole _ => hmoves whole⟩
  · exact ensures_missing _

/-! ### Groups -/

/-- A group is taken with all that is in it; of that, only what `p` reads is written. -/
theorem ensures_within {d : Delimiter} {Q : Bool → α → List Lexeme → List Token → Prop}
    (hp : ∀ inner after, ls = .group d inner :: after → Ensures p inner Q) :
    Ensures (within d p) ls fun whole a front ts => ∃ inner left us,
      front = [.group d (inner ++ left)] ∧ ts = [.group d us] ∧ (whole = true → left = []) ∧
        Q whole a inner us := by
  refine Ensures.rest ?_
  split
  · rename_i e inner after
    split
    · rename_i hde
      subst hde
      intro written leftover a r hrun
      simp only [StateT.run_bind, StateT.run_get, StateT.run_set, pure_bind] at hrun
      cases hp' : p.run ⟨inner, [], leftover⟩ with
      | error fault =>
        rw [hp'] at hrun
        cases hrun
      | ok x =>
        obtain ⟨b, left, us, leftover'⟩ := x
        rw [hp'] at hrun
        cases hrun
        obtain ⟨hkeeps, front, us', hls, hus, hq⟩ := hp inner after rfl [] leftover b _ hp'
        simp only [List.append_nil] at hls hus
        have hinner (h : allPlain (.group d inner :: after) = true) := (allPlain_group h).2
        have hwhole (h : leftover'.or (if left.isEmpty then none else some d) = none) :
            leftover' = none ∧ left = [] := by
          rw [Option.or_eq_none_iff] at h
          refine ⟨h.1, List.isEmpty_iff.mp ?_⟩
          by_contra hne
          rw [if_neg hne] at h
          cases h.2
        refine ⟨fun hplain h => hkeeps (hinner hplain) (hwhole h).1, [.group d inner],
          [.group d us'], rfl, ?_, fun whole hw => ⟨front, left, us', by rw [hls], rfl,
            fun h => (hwhole (hw h).2).2, hq whole fun h => ⟨hinner (hw h).1, (hwhole (hw h).2).1⟩⟩⟩
        rw [hus, List.reverse_reverse]
        rfl
    · exact ensures_missing _
  · exact ensures_missing _

/-- A group is taken, whatever is read of it. -/
theorem takes_within (d : Delimiter) (p : Parse α) (ls : List Lexeme) :
    Takes (within d p) ls fun _ front ts => ∃ inner us,
      front = [.group d inner] ∧ ts = [.group d us] := by
  refine Takes.rest ?_
  split
  · rename_i e inner after
    split
    · rename_i hde
      subst hde
      intro written leftover a r hrun
      simp only [StateT.run_bind, StateT.run_get, StateT.run_set, pure_bind] at hrun
      cases hp : p.run ⟨inner, [], leftover⟩ with
      | error fault =>
        rw [hp] at hrun
        cases hrun
      | ok x =>
        rw [hp] at hrun
        cases hrun
        exact ⟨[.group d inner], [.group d x.2.written.reverse], rfl, rfl, inner, _, rfl, rfl⟩
    · exact (ensures_missing _).takes
  · exact (ensures_missing _).takes

theorem Carries.within {d : Delimiter} (hd : d ≠ .curly) (hp : Carries j k p) (i : Nat) :
    Carries i i (within d p) := by
  refine fun _ => (ensures_within fun inner _ _ => hp inner).mono ?_
  rintro _ _ _ _ ⟨inner, left, us, rfl, rfl, hleft, hmoves⟩
  exact hmoves.within hd hleft i

/-- A block inside of brackets, whatever is read of it. -/
theorem carries_block (p : Parse α) (i : Nat) : Carries (i + 1) (i + 1) (within .curly p) := by
  intro ls
  cases hplain : allPlain ls with
  | false =>
    refine .of_takes hplain ((takes_within .curly p ls).mono ?_)
    rintro _ _ _ ⟨inner, us, rfl, rfl⟩
    exact .block inner us i
  | true =>
    refine (ensures_within (Q := fun _ _ _ _ => False) ?_).mono ?_
    · rintro inner after rfl
      cases hplain
    · rintro _ _ _ _ ⟨_, _, _, -, -, -, hnever⟩
      exact hnever.elim

theorem ensures_sealedGroup : Ensures sealedGroup ls fun _ _ front ts =>
    ∃ d inner, front = [.group d inner] ∧ ts = [.group d (Lexeme.spell inner)] := by
  refine Ensures.rest ?_
  split
  · rename_i d inner after
    intro written leftover a r hrun
    cases hrun
    exact ⟨fun _ => id, [.group d inner], [.group d (Lexeme.spell inner)], rfl, rfl,
      fun _ _ => ⟨d, inner, rfl, rfl⟩⟩
  · exact ensures_missing _

/-! ### Ways of writing -/

theorem Ensures.aside {Q : Bool → α → List Lexeme → List Token → Prop} (h : Ensures p ls Q) :
    Ensures (aside p) ls fun whole x front ts => ts = [] ∧ Q whole x.1 front x.2 := by
  intro written leftover x r hrun
  rw [aside_run] at hrun
  cases hp : p.run ⟨ls, [], leftover⟩ with
  | error fault =>
    rw [hp] at hrun
    cases hrun
  | ok y =>
    obtain ⟨a, behind, written', leftover'⟩ := y
    rw [hp] at hrun
    cases hrun
    obtain ⟨hkeeps, front, ts, hls, hwritten, hq⟩ := h [] leftover a _ hp
    rw [List.append_nil] at hwritten
    refine ⟨hkeeps, front, [], hls, rfl, fun whole hw => ⟨rfl, ?_⟩⟩
    simp only at hwritten
    rw [hwritten, List.reverse_reverse]
    exact hq whole hw

theorem ensures_write {ts : List Token} {Q : Bool → Unit → List Lexeme → List Token → Prop}
    (h : ∀ whole, Q whole () [] ts) : Ensures (write ts) ls Q := by
  intro written leftover a r hrun
  cases hrun
  exact ⟨fun _ => id, [], ts, rfl, rfl, fun whole _ => h whole⟩

theorem Ensures.write_bind {us : List Token} {f : Unit → Parse β}
    {R : Bool → β → List Lexeme → List Token → Prop}
    (h : Ensures (f ()) ls fun whole b front ts => R whole b front (us ++ ts)) :
    Ensures (write us >>= f) ls R := by
  refine (ensures_write (Q := fun _ _ front ts => front = [] ∧ ts = us) fun _ => ⟨rfl, rfl⟩).bind ?_
  rintro _ _ _ behind rfl ⟨rfl, rfl⟩
  exact h.mono fun _ _ _ _ h _ => h

theorem Brings.orSpelled {V : α → Prop} {q : Parse (Bool × α)} (hq : Brings i j (V ·.2) q) :
    Brings i j V (orSpelled q) := by
  refine fun ls => Ensures.rest ((hq ls).aside.bind ?_)
  rintro ⟨⟨raw, a⟩, us⟩ front ts behind hls -
  simp only
  split
  · rw [hls]
    refine Ensures.rest (.write_bind (.pure ?_))
    rintro whole ⟨rfl, hmoves, hV⟩
    exact ⟨by simpa using hmoves.spelled, hV⟩
  · refine .write_bind (.pure ?_)
    rintro whole ⟨rfl, hmoves, hV⟩
    exact ⟨by simpa using hmoves, hV⟩

theorem Carries.orSpelled {q : Parse (Bool × α)} (hq : Carries i j q) :
    Carries i j (orSpelled q) :=
  (Brings.orSpelled (V := fun _ => True) fun ls =>
    (hq ls).mono fun _ _ _ _ h => ⟨h, trivial⟩).carries

/-! ### Repetition -/

/-- What each step preserves holds of all of them. As long as there are more, a step has to take
something. -/
theorem Ensures.repeating {I J : Bool → α → List Lexeme → List Token → Prop}
    {step : α → Parse (α × Bool)}
    (hstep : ∀ a front ts behind, I false a front ts →
      Ensures (step a) behind fun whole x front' ts' => I whole a front ts →
        if x.2 then front' ≠ [] ∧ I whole x.1 (front ++ front') (ts ++ ts')
        else J whole x.1 (front ++ front') (ts ++ ts'))
    {a : α} (ha : ∀ whole, I whole a [] []) : Ensures (repeating step a) ls J := by
  suffices hall : ∀ n a front ts behind, behind.length < n → I false a front ts →
      Ensures (repeated step n a) behind fun whole b front' ts' => I whole a front ts →
        J whole b (front ++ front') (ts ++ ts') from
    Ensures.rest ((hall _ a [] [] ls (Nat.lt_succ_self _) (ha false)).mono fun whole _ _ _ h =>
      h (ha whole))
  intro n
  induction n with
  | zero => exact fun _ _ _ _ hn => absurd hn (Nat.not_lt_zero _)
  | succ n ih =>
    intro a front ts behind hn hI
    refine (hstep a front ts behind hI).bind ?_
    rintro ⟨b, more⟩ front' ts' behind' rfl hnext
    cases more with
    | false =>
      refine .pure fun whole hfinal hI => ?_
      rw [List.append_nil, List.append_nil]
      exact hfinal hI
    | true =>
      obtain ⟨htaken, hI'⟩ := hnext hI
      have hn' : behind'.length < n := by
        have := List.length_pos_iff.mpr htaken
        rw [List.length_append] at hn
        omega
      refine (ih b _ _ behind' hn' hI').mono fun whole c front'' ts'' hrest hnext hI => ?_
      have h := hrest (hnext hI).2
      rwa [List.append_assoc, List.append_assoc] at h

theorem Carries.repeating {step : α → Parse (α × Bool)} (h : ∀ a, Carries i i (step a)) (a : α) :
    Carries i i (repeating step a) := by
  refine .rest fun ls => ?_
  generalize ls.length + 1 = n
  induction n generalizing a with
  | zero => exact .pure a i
  | succ n ih =>
    refine (h a).bind ?_
    rintro ⟨b, more⟩
    cases more with
    | false => exact .pure b i
    | true => exact ih b

theorem Carries.whileTrue {step : Parse Bool} (h : Carries i i step) :
    Carries i i (whileTrue step) :=
  .repeating (fun _ => h.bind fun b => .pure ((), b) i) ()

theorem Carries.commaSeparated {p : Parse Unit} (hp : Carries (i + 1) (i + 1) p) :
    Carries (i + 1) (i + 1) (commaSeparated p) := by
  refine .whileTrue ((Carries.atEnd _).bind fun b => ?_)
  split
  · exact .pure false _
  · refine hp.bind fun _ => (Carries.atEnd _).bind fun b => ?_
    split
    · exact .pure false _
    · exact (Carries.comma i).bind fun _ => .pure true _

end Abridge.Derive.Syntax

import Abridge.Derive.Syntax.Reading
import Mathlib

/-!
What a step of a reading does, whatever was written before it: it gives a value, writes tokens and
leaves the lexemes behind those it takes, or it refuses to go on. Each step of the grammar has its
laws here, and a reading of several steps is put together from them. Often it does not matter what
is written, so that each law stands here without the tokens too.
-/
namespace Abridge.Derive.Syntax

variable {α β : Type} {p : Parse α} {a : α} {b : β} {ls ls' behind : List Lexeme}
  {ts us : List Token}

/-- In front of `ls`, `p` gives `a`, writes `ts` and leaves `behind`. -/
def Writes (p : Parse α) (ls : List Lexeme) (a : α) (ts : List Token) (behind : List Lexeme) :
    Prop :=
  ∀ written leftover,
    p.run ⟨ls, written, leftover⟩ = .ok (a, ⟨behind, ts.reverse ++ written, leftover⟩)

/-- In front of `ls`, `p` gives `a` and leaves `behind`. -/
def Reads (p : Parse α) (ls : List Lexeme) (a : α) (behind : List Lexeme) : Prop :=
  ∃ ts, Writes p ls a ts behind

/-- In front of `ls`, `p` fails. -/
def Refuses (p : Parse α) (ls : List Lexeme) : Prop :=
  ∀ written leftover, ∃ fault, p.run ⟨ls, written, leftover⟩ = .error fault

theorem Writes.reads (h : Writes p ls a ts behind) : Reads p ls a behind := ⟨ts, h⟩

/-- What is left does not depend on anything but what is read. -/
theorem Reads.behind_unique {b : α} (h : Reads p ls a behind) (h' : Reads p ls b ls') :
    behind = ls' := by
  obtain ⟨_, h⟩ := h
  obtain ⟨_, h'⟩ := h'
  have heq := (h [] none).symm.trans (h' [] none)
  simp only [Except.ok.injEq, Prod.mk.injEq, Reading.mk.injEq] at heq
  exact heq.2.1

theorem Reads.not_refuses (h : Reads p ls a behind) : ¬ Refuses p ls := by
  intro hrefuses
  obtain ⟨_, h⟩ := h
  obtain ⟨fault, hfault⟩ := hrefuses [] none
  rw [h] at hfault
  cases hfault

/-! ### One after the other -/

theorem Writes.pure (a : α) (ls : List Lexeme) : Writes (Pure.pure a) ls a [] ls := fun _ _ => rfl

theorem Reads.pure (a : α) (ls : List Lexeme) : Reads (Pure.pure a) ls a ls :=
  (Writes.pure a ls).reads

theorem Writes.bind {f : α → Parse β} (hp : Writes p ls a ts ls')
    (hf : Writes (f a) ls' b us behind) : Writes (p >>= f) ls b (ts ++ us) behind := by
  intro written leftover
  rw [StateT.run_bind, hp, List.reverse_append, List.append_assoc]
  exact hf _ leftover

theorem Reads.bind {f : α → Parse β} (hp : Reads p ls a ls') (hf : Reads (f a) ls' b behind) :
    Reads (p >>= f) ls b behind := by
  obtain ⟨_, hp⟩ := hp
  obtain ⟨_, hf⟩ := hf
  exact (hp.bind hf).reads

/-- Of a step that writes nothing, what comes behind it decides. -/
theorem Writes.silent_bind {f : α → Parse β} (hp : Writes p ls a [] ls')
    (hf : Writes (f a) ls' b ts behind) : Writes (p >>= f) ls b ts behind := hp.bind hf

theorem Writes.bind_pure (f : α → β) (hp : Writes p ls a ts behind) :
    Writes (p >>= fun a => Pure.pure (f a)) ls (f a) ts behind := by
  rw [← List.append_nil ts]
  exact hp.bind (Writes.pure (f a) behind)

theorem Writes.map (f : α → β) (hp : Writes p ls a ts behind) :
    Writes (f <$> p) ls (f a) ts behind := by
  rw [← bind_pure_comp]
  exact hp.bind_pure f

theorem Refuses.throw (fault : SyntaxFault) (ls : List Lexeme) :
    Refuses (MonadExcept.throw fault : Parse α) ls :=
  fun _ _ => ⟨fault, rfl⟩

theorem Refuses.bind (hp : Refuses p ls) (f : α → Parse β) : Refuses (p >>= f) ls := by
  intro written leftover
  obtain ⟨fault, h⟩ := hp written leftover
  refine ⟨fault, ?_⟩
  rw [StateT.run_bind, h]
  rfl

theorem Refuses.of_bind {f : α → Parse β} (hp : Reads p ls a ls') (hf : Refuses (f a) ls') :
    Refuses (p >>= f) ls := by
  intro written leftover
  obtain ⟨_, hp⟩ := hp
  rw [StateT.run_bind, hp]
  exact hf _ leftover

theorem Refuses.map (hp : Refuses p ls) (f : α → β) : Refuses (f <$> p) ls := by
  rw [← bind_pure_comp]
  exact hp.bind _

/-! ### Single lexemes -/

theorem writes_rest (ls : List Lexeme) : Writes rest ls ls [] ls := fun _ _ => rfl

theorem reads_rest (ls : List Lexeme) : Reads rest ls ls ls := (writes_rest ls).reads

/-- Looking ahead neither reads nor writes. -/
theorem Writes.after_rest {f : List Lexeme → Parse β} (h : Writes (f ls) ls b ts behind) :
    Writes (rest >>= f) ls b ts behind := (writes_rest ls).silent_bind h

theorem writes_atEnd (ls : List Lexeme) : Writes atEnd ls ls.isEmpty [] ls :=
  Writes.after_rest (Writes.pure _ ls)

theorem reads_atEnd (ls : List Lexeme) : Reads atEnd ls ls.isEmpty ls := (writes_atEnd ls).reads

theorem writes_write (ts : List Token) (ls : List Lexeme) : Writes (write ts) ls () ts ls :=
  fun _ _ => rfl

theorem writes_skip (n : Nat) (ls : List Lexeme) : Writes (skip n) ls () [] (ls.drop n) :=
  fun _ _ => rfl

theorem reads_skip (n : Nat) (ls : List Lexeme) : Reads (skip n) ls () (ls.drop n) :=
  (writes_skip n ls).reads

theorem refuses_missing (what : String) (ls : List Lexeme) : Refuses (missing what : Parse α) ls :=
  .of_bind (reads_atEnd ls) (.throw _ ls)

theorem writes_mark {s : String} (h : sees s ls = true) :
    Writes (mark s) ls () [.mark s] (ls.drop s.length) := by
  refine Writes.after_rest ?_
  rw [if_pos h]
  exact (writes_skip _ ls).bind (writes_write _ _)

theorem reads_mark {s : String} (h : sees s ls = true) : Reads (mark s) ls () (ls.drop s.length) :=
  (writes_mark h).reads

theorem refuses_mark {s : String} (h : sees s ls = false) : Refuses (mark s) ls := by
  refine .of_bind (reads_rest ls) ?_
  rw [if_neg (by simp [h])]
  exact .throw _ ls

theorem writes_mark? {s : String} (h : sees s ls = true) :
    Writes (mark? s) ls true [.mark s] (ls.drop s.length) := by
  refine Writes.after_rest ?_
  rw [if_pos h]
  exact (writes_mark h).bind (Writes.pure true _)

theorem reads_mark? {s : String} (h : sees s ls = true) :
    Reads (mark? s) ls true (ls.drop s.length) := (writes_mark? h).reads

theorem writes_no_mark {s : String} (h : sees s ls = false) : Writes (mark? s) ls false [] ls := by
  refine Writes.after_rest ?_
  rw [if_neg (by simp [h])]
  exact Writes.pure false ls

theorem reads_no_mark {s : String} (h : sees s ls = false) : Reads (mark? s) ls false ls :=
  (writes_no_mark h).reads

theorem writes_anyWord (w : String) (ls : List Lexeme) :
    Writes anyWord (.word w :: ls) () [.word w] ls :=
  Writes.after_rest ((writes_skip 1 _).bind (writes_write _ _))

theorem reads_anyWord (w : String) (ls : List Lexeme) : Reads anyWord (.word w :: ls) () ls :=
  (writes_anyWord w ls).reads

theorem writes_name {w : String} (h : keywords.contains w = false) (ls : List Lexeme) :
    Writes name (.word w :: ls) () [.word w] ls := by
  refine Writes.after_rest ?_
  simp only [h, Bool.false_eq_true, if_false]
  exact writes_anyWord w ls

theorem writes_literal {l : Literal} (h : literal? ls = some (l, ts, behind)) :
    Writes literal ls l ts behind := by
  refine Writes.after_rest ?_
  rw [h]
  exact fun _ _ => rfl

/-! ### Groups -/

theorem Writes.within {d : Delimiter} {inner : List Lexeme} (hp : Writes p inner a ts [])
    (behind : List Lexeme) :
    Writes (within d p) (.group d inner :: behind) a [.group d ts] behind := by
  refine Writes.after_rest ?_
  simp only [↓reduceIte]
  intro written leftover
  simp only [StateT.run_bind, StateT.run_get, StateT.run_set, pure_bind]
  rw [hp]
  simp

theorem Reads.within {d : Delimiter} {inner : List Lexeme} (hp : Reads p inner a [])
    (behind : List Lexeme) : Reads (within d p) (.group d inner :: behind) a behind := by
  obtain ⟨_, hp⟩ := hp
  exact (hp.within behind).reads

theorem Refuses.within {d : Delimiter} {inner : List Lexeme} (hp : Refuses p inner)
    (behind : List Lexeme) : Refuses (within d p) (.group d inner :: behind) := by
  refine .of_bind (reads_rest _) ?_
  simp only [↓reduceIte]
  intro written leftover
  obtain ⟨fault, h⟩ := hp [] leftover
  refine ⟨fault, ?_⟩
  simp only [StateT.run_bind, StateT.run_get, StateT.run_set, pure_bind]
  rw [h]
  rfl

theorem refuses_within {d : Delimiter} (h : seesGroup d ls = false) : Refuses (within d p) ls := by
  refine .of_bind (reads_rest ls) ?_
  split
  · rename_i e inner after
    rw [if_neg (by simpa [seesGroup] using h)]
    exact refuses_missing _ _
  · exact refuses_missing _ _

/-! ### Ways of writing -/

theorem aside_run (p : Parse α) (ls : List Lexeme) (written : List Token)
    (leftover : Option Delimiter) : (aside p).run ⟨ls, written, leftover⟩ =
      (p.run ⟨ls, [], leftover⟩).map fun x =>
        ((x.1, x.2.written.reverse), { x.2 with written := written }) := by
  simp only [aside, StateT.run_bind, StateT.run_get, StateT.run_modify, pure_bind]
  cases p.run ⟨ls, [], leftover⟩ <;> rfl

theorem Writes.aside (hp : Writes p ls a ts behind) : Writes (aside p) ls (a, ts) [] behind := by
  intro written leftover
  rw [aside_run, hp]
  simp [Except.map]

theorem Writes.orSpelled {q : Parse (Bool × α)} (hq : Writes q ls (false, a) ts behind) :
    Writes (orSpelled q) ls a ts behind := by
  have hwrite : Writes (write ts >>= fun _ => Pure.pure a) behind a (ts ++ []) behind :=
    (writes_write ts behind).bind (Writes.pure a behind)
  rw [List.append_nil] at hwrite
  exact Writes.after_rest (hq.aside.bind hwrite)

theorem Reads.orSpelled {q : Parse (Bool × α)} (hq : Reads q ls (false, a) behind) :
    Reads (orSpelled q) ls a behind := by
  obtain ⟨_, hq⟩ := hq
  exact hq.orSpelled.reads

theorem Refuses.orSpelled {q : Parse (Bool × α)} (hq : Refuses q ls) :
    Refuses (orSpelled q) ls := by
  refine .of_bind (reads_rest ls) ?_
  intro written leftover
  obtain ⟨fault, h⟩ := hq [] leftover
  refine ⟨fault, ?_⟩
  rw [StateT.run_bind, aside_run, h]
  rfl

/-! ### Repetition -/

section Repeated

variable {step : α → Parse (α × Bool)} {n : Nat} {c : α}

theorem Writes.repeated_last (h : Writes (step a) ls (c, false) ts behind) (n : Nat) :
    Writes (repeated step (n + 1) a) ls c ts behind := by
  rw [← List.append_nil ts]
  exact Writes.bind h (Writes.pure c behind)

theorem Reads.repeated_last (h : Reads (step a) ls (c, false) behind) (n : Nat) :
    Reads (repeated step (n + 1) a) ls c behind :=
  Reads.bind h (Reads.pure c behind)

theorem Writes.repeated_more (h : Writes (step a) ls (c, true) ts ls') {d : α}
    (hrest : Writes (repeated step n c) ls' d us behind) :
    Writes (repeated step (n + 1) a) ls d (ts ++ us) behind :=
  Writes.bind h hrest

theorem Reads.repeated_more (h : Reads (step a) ls (c, true) ls') {d : α}
    (hrest : Reads (repeated step n c) ls' d behind) :
    Reads (repeated step (n + 1) a) ls d behind :=
  Reads.bind h hrest

theorem Refuses.repeated (h : Refuses (step a) ls) (n : Nat) :
    Refuses (repeated step (n + 1) a) ls :=
  h.bind _

theorem Refuses.repeated_more (h : Reads (step a) ls (c, true) ls')
    (hrest : Refuses (Syntax.repeated step n c) ls') :
    Refuses (Syntax.repeated step (n + 1) a) ls :=
  .of_bind h hrest

theorem reads_repeating (h : Reads (repeated step (ls.length + 1) a) ls c behind) :
    Reads (repeating step a) ls c behind :=
  (reads_rest ls).bind h

theorem refuses_repeating (h : Refuses (repeated step (ls.length + 1) a) ls) :
    Refuses (repeating step a) ls :=
  .of_bind (reads_rest ls) h

theorem writes_repeating (h : Writes (repeated step (ls.length + 1) a) ls c ts behind) :
    Writes (repeating step a) ls c ts behind := Writes.after_rest h

/-- A step that asks for no repetition. -/
theorem Writes.repeating (h : Writes (step a) ls (c, false) ts behind) :
    Writes (repeating step a) ls c ts behind :=
  writes_repeating (Writes.repeated_last h _)

end Repeated

/-! ### Getting stuck -/

/-- In front of `ls`, `p` fails, or it leaves something that no comma stands in front of. -/
def Stuck (p : Parse α) (ls : List Lexeme) : Prop :=
  Refuses p ls ∨ ∃ a ls', Reads p ls a ls' ∧ ls' ≠ [] ∧ sees "," ls' = false

theorem Stuck.of_bind {f : α → Parse β} (hp : Reads p ls a ls') (hf : Stuck (f a) ls') :
    Stuck (p >>= f) ls := by
  rcases hf with hf | ⟨b, behind, hf, hbehind⟩
  · exact .inl (.of_bind hp hf)
  · exact .inr ⟨b, behind, hp.bind hf, hbehind⟩

/-- Nothing is read behind it. -/
theorem Stuck.bind_pure (hp : Stuck p ls) (b : β) : Stuck (p >>= fun _ => Pure.pure b) ls := by
  rcases hp with hp | ⟨a, behind, hp, hbehind⟩
  · exact .inl (hp.bind _)
  · exact .inr ⟨b, behind, hp.bind (Reads.pure b behind), hbehind⟩

end Abridge.Derive.Syntax

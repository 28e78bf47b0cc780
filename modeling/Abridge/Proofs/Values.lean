import Abridge.Derive.Syntax.Grammar
import Abridge.Proofs.Readings

/-!
Values of items. A literal or a path is a whole expression if what follows it cannot go on with one.
Where an item is over it is the value of that item; where anything else follows, or where nothing
stands that an expression begins with, the item has no value.
-/
namespace Abridge.Derive.Syntax

/-- Here an item is over. -/
inductive Ends : List Lexeme → Prop
  | nothing : Ends []
  | comma (ls : List Lexeme) : Ends (.mark ',' false :: ls)

/-- Here an expression is over: nothing follows, or something that does not go on with it. -/
inductive Halts : List Lexeme → Prop
  | nothing : Halts []
  | comma (joint : Bool) (ls : List Lexeme) : Halts (.mark ',' joint :: ls)
  | word {w : String} (ls : List Lexeme) : w ≠ "as" → Halts (.word w :: ls)
  | literal (s : String) (ls : List Lexeme) : Halts (.literal s :: ls)

variable {g : Productions} {ls ls' behind : List Lexeme} {ts us : List Token} {e : Expression}

theorem Ends.halts (h : Ends ls) : Halts ls := by
  cases h with
  | nothing => exact .nothing
  | comma ls => exact .comma false ls

theorem writes_attributes (g : Productions) (h : sees "#" ls = false) :
    Writes (attributes g) ls () [] ls := by
  refine Writes.repeating (Writes.silent_bind (a := false) ?_ (Writes.pure ((), false) ls))
  exact (writes_no_mark h).silent_bind (Writes.pure false ls)

/-! ### Behind a value -/

/-- Of all marks only a comma can follow an expression. -/
theorem Halts.sees_eq_false (h : Halts ls) {s : String}
    (hs : s.toList.head?.any (· ≠ ',') = true) : sees s ls = false := by
  obtain ⟨c, hc, hcomma⟩ := (Option.any_eq_true _ _).mp hs
  obtain ⟨cs, hcs⟩ := List.head?_eq_some_iff.mp hc
  rw [sees, hcs]
  rcases h with _ | ⟨joint, ls⟩ | ⟨ls, _⟩ | ⟨s, ls⟩
  · cases cs <;> rfl
  · cases cs with
    | nil => simpa [seesMarks] using hcomma
    | cons d cs =>
      have hne : c ≠ ',' := by simpa using hcomma
      cases joint <;> simp [seesMarks, hne]
  · cases cs <;> rfl
  · cases cs <;> rfl

theorem Halts.seesGroup_eq_false (h : Halts ls) (d : Delimiter) : seesGroup d ls = false := by
  rcases h with _ | ⟨joint, ls⟩ | ⟨ls, _⟩ | ⟨s, ls⟩ <;> rfl

theorem Halts.seesAs_eq_false (h : Halts ls) : seesWord "as" ls = false := by
  rcases h with _ | ⟨joint, ls⟩ | ⟨ls, hw⟩ | ⟨s, ls⟩
  · rfl
  · rfl
  · simpa [seesWord] using hw
  · rfl

theorem halts_of_comma (h : sees "," ls = true) : Halts ls := by
  cases ls with
  | nil => cases h
  | cons l ls =>
    cases l with
    | mark c joint =>
      obtain rfl : c = ',' := by simpa [sees, seesMarks, eq_comm] using h
      exact .comma joint ls
    | _ => cases h

theorem writes_trailed (g : Productions) (e : Expression) (h : Halts behind) :
    Writes (trailed g e) behind e [] behind := by
  refine Writes.repeating (Writes.after_rest ?_)
  have hpoint : seesPoint behind = false := by rw [seesPoint, h.sees_eq_false rfl, Bool.false_and]
  have hquestion : sees "?" behind = false := h.sees_eq_false rfl
  simp only [h.seesGroup_eq_false, hpoint, hquestion, Bool.false_and, Bool.false_eq_true, if_false]
  exact Writes.pure (e, false) behind

theorem operator?_of_halts (h : Halts behind) : operator? behind = none := by
  have hmarks : ∀ o ∈ operators, o.1.toList.head?.any (· ≠ ',') = true := by decide
  rw [operator?, List.find?_eq_none]
  intro o ho
  rw [h.sees_eq_false (hmarks o ho)]
  exact Bool.false_ne_true

theorem writes_extendedBy (g : Productions) (fields : Bool) (e : Expression) (base : Precedence)
    (h : Halts behind) : Writes (extendedBy g fields e base) behind e [] behind := by
  refine Writes.repeating (Writes.after_rest ?_)
  split
  · exact Writes.pure (e, false) behind
  · rw [operator?_of_halts h]
    have hequals : seesEquals behind = false := by
      rw [seesEquals, h.sees_eq_false rfl, Bool.false_and]
    have hpoints : sees ".." behind = false := h.sees_eq_false rfl
    simp only [hequals, hpoints, h.seesAs_eq_false, and_false, Bool.false_eq_true, if_false]
    exact Writes.pure (e, false) behind

/-! ### Expressions without brackets -/

/-- An expression can begin with a word or a literal. -/
def StartsPlainly (ls : List Lexeme) : Prop :=
  (∃ s rest, ls = .literal s :: rest) ∨ ∃ w rest, ls = .word w :: rest

/-- What is no operator and no bracket is an operand of its own. -/
theorem writes_operand {fields : Bool} (hatom : Writes (atom g fields) ls e ts behind)
    (hspelled : e.isSpelled = false) (hls : StartsPlainly ls) (h : Halts behind) :
    Writes (operandOf g fields) ls e ts behind := by
  have hattribute : sees "#" ls = false := by
    rcases hls with ⟨s, rest, rfl⟩ | ⟨w, rest, rfl⟩ <;> rfl
  have hreference : sees "&" ls = false := by
    rcases hls with ⟨s, rest, rfl⟩ | ⟨w, rest, rfl⟩ <;> rfl
  have hsign : (signs.find? fun s => sees s ls) = none := by
    rcases hls with ⟨s, rest, rfl⟩ | ⟨w, rest, rfl⟩ <;> rfl
  refine Writes.orSpelled (Writes.after_rest ((writes_attributes g hattribute).silent_bind
    (Writes.after_rest ?_)))
  rw [if_neg (by simp [hreference]), hsign, ← List.append_nil ts]
  refine hatom.bind ((writes_trailed g e h).silent_bind ?_)
  rw [hattribute, hspelled]
  exact Writes.pure (false, e) behind

theorem Writes.expression {n : Nat} (hoperand : Writes (operandOf (grammar n) true) ls e ts behind)
    (h : Halts behind) : Writes ((grammar (n + 1)).expression true) ls e ts behind := by
  rw [← List.append_nil ts]
  exact hoperand.bind (writes_extendedBy _ true e .lowest h)

theorem Writes.anyExpression {n : Nat}
    (hoperand : Writes (operandOf (grammar n) true) ls e ts behind) (h : Halts behind) :
    Writes (anyExpression (grammar (n + 1))) ls () ts behind :=
  (hoperand.expression h).map fun _ => ()

/-! ### Literals -/

/-- A literal is one lexeme, or a number behind a minus. -/
theorem literal?_cases {l : Literal} (h : literal? ls = some (l, ts, behind)) :
    (∃ s, ls = .literal s :: behind) ∨ (∃ w, ls = .word w :: behind) ∨
      ∃ joint s, ls = .mark '-' joint :: .literal s :: behind ∧
        literal? (.literal s :: behind) = some (l, [.literal s], behind) := by
  rw [literal?.eq_def] at h
  split at h
  · cases h
    exact Or.inl ⟨_, rfl⟩
  · refine Or.inr (Or.inl ?_)
    split at h
    · cases h
      exact ⟨_, rfl⟩
    · split at h
      · cases h
        exact ⟨_, rfl⟩
      · cases h
  · split at h
    · cases h
      exact Or.inr (Or.inr ⟨_, _, rfl, rfl⟩)
    · cases h
  · cases h

theorem writes_atom_literal (g : Productions) (fields : Bool) {l : Literal}
    (h : literal? ls = some (l, ts, behind)) :
    Writes (atom g fields) ls (.literal l) ts behind := by
  refine Writes.after_rest ?_
  rw [if_pos (by rw [seesLiteral, h]; rfl)]
  exact (writes_literal h).bind_pure Expression.literal

theorem writes_operand_literal (g : Productions) {l : Literal}
    (h : literal? ls = some (l, ts, behind)) (hls : StartsPlainly ls) (hhalts : Halts behind) :
    Writes (operandOf g true) ls (.literal l) ts behind :=
  writes_operand (writes_atom_literal g true h) rfl hls hhalts

/-- A literal is a whole expression if what follows it does not go on with one. -/
theorem reads_anyExpression_literal (n : Nat) {l : Literal}
    (h : literal? ls = some (l, ts, behind)) (hhalts : Halts behind) :
    Reads (anyExpression (grammar (n + 2))) ls () behind := by
  rcases literal?_cases h with ⟨s, rfl⟩ | ⟨w, rfl⟩ | ⟨joint, s, rfl, hnumber⟩
  · exact ((writes_operand_literal _ h (.inl ⟨_, _, rfl⟩) hhalts).anyExpression hhalts).reads
  · exact ((writes_operand_literal _ h (.inr ⟨_, _, rfl⟩) hhalts).anyExpression hhalts).reads
  · have hsign : (signs.find? fun t => sees t (.mark '-' joint :: .literal s :: behind)) =
      some "-" := rfl
    have hinner : Writes ((grammar (n + 1)).operand true) (.literal s :: behind) (.literal l)
        [.literal s] behind :=
      writes_operand_literal (grammar n) hnumber (.inl ⟨_, _, rfl⟩) hhalts
    have hoperand : Reads (operandOf (grammar (n + 1)) true)
        (.mark '-' joint :: .literal s :: behind) (.other "unary") behind := by
      refine Reads.orSpelled ((reads_rest _).bind ((writes_attributes _ rfl).reads.bind
        ((reads_rest _).bind ?_)))
      rw [if_neg (by simp [sees, seesMarks]), hsign]
      exact (reads_mark rfl).bind
        ((hinner.map fun _ => ()).reads.bind (Reads.pure (false, _) behind))
    obtain ⟨_, hoperand⟩ := hoperand
    exact (hoperand.anyExpression hhalts).reads

theorem literal?_append {l : Literal} (h : literal? ls = some (l, ts, []))
    (behind : List Lexeme) : literal? (ls ++ behind) = some (l, ts, behind) := by
  rcases literal?_cases h with ⟨s, rfl⟩ | ⟨w, rfl⟩ | ⟨joint, s, rfl, _⟩
  · cases h
    rfl
  · simp only [literal?, List.nil_append, List.cons_append] at h ⊢
    split_ifs at h ⊢ <;> cases h <;> rfl
  · simp only [literal?, List.nil_append, List.cons_append] at h ⊢
    split_ifs at h ⊢
    cases h
    rfl

/-! ### Paths -/

/-- A word is a segment if no list in angle brackets follows it. -/
theorem writes_segment_word {w : String} (hw : keywords.contains w = false) (inExpression : Bool)
    (hlist : sees "<" behind = false) (hturbofish : seesTurbofish behind = false) :
    Writes (segment g inExpression) (.word w :: behind) .bare [.word w] behind := by
  have hpath : seesSomeWord pathWords (.word w :: behind) = false := by
    rw [← Bool.not_eq_true]
    intro hsome
    have hall : ∀ x ∈ pathWords, keywords.contains x = true := by decide
    rw [hall w (List.contains_iff_mem.mp hsome)] at hw
    cases hw
  have hself : seesWord "Self" (.word w :: behind) = false := by
    rw [← Bool.not_eq_true, seesWord, decide_eq_true_eq]
    rintro rfl
    exact absurd hw (by decide)
  refine Writes.after_rest ?_
  rw [if_neg (by simp [hpath])]
  refine Writes.after_rest ?_
  rw [if_neg (by simp [hself])]
  refine (writes_name hw behind).bind (Writes.after_rest ?_)
  rw [if_neg (by simp [hlist, hturbofish])]
  exact Writes.pure PathEnd.bare behind

section Segments

variable {inExpression : Bool} {stops : List Lexeme → Bool} {p q : PathForm} {a : PathEnd}

/-- The step that reads one segment of a path. -/
def segmentStep (g : Productions) (inExpression : Bool) (stops : List Lexeme → Bool)
    (p : PathForm) : Parse (PathForm × Bool) := do
  let p := p.push (← segment g inExpression)
  let ls ← rest
  if sees "::" ls && !stops ls then
    mark "::"
    return (p, true)
  else return (p, false)

theorem segments_eq (p : PathForm) :
    segments g inExpression stops p = repeating (segmentStep g inExpression stops) p := rfl

theorem writes_segments_last (h : Writes (segment g inExpression) ls a ts behind)
    (hbehind : (sees "::" behind && !stops behind) = false) (n : Nat) :
    Writes (repeated (segmentStep g inExpression stops) (n + 1) p) ls (p.push a) ts behind := by
  refine Writes.repeated_last ?_ n
  rw [← List.append_nil ts]
  refine h.bind (Writes.after_rest ?_)
  rw [hbehind]
  exact Writes.pure (p.push a, false) behind

theorem writes_segments_more {joint : Bool}
    (h : Writes (segment g inExpression) ls a ts (.mark ':' true :: .mark ':' joint :: ls'))
    (hgoesOn : stops (.mark ':' true :: .mark ':' joint :: ls') = false) {n : Nat}
    (hrest : Writes (repeated (segmentStep g inExpression stops) n (p.push a)) ls' q us behind) :
    Writes (repeated (segmentStep g inExpression stops) (n + 1) p) ls q
      (ts ++ .mark "::" :: us) behind := by
  have hcolons : sees "::" (.mark ':' true :: .mark ':' joint :: ls') = true := rfl
  rw [List.append_cons]
  refine Writes.repeated_more (h.bind (Writes.after_rest ?_)) hrest
  rw [hgoesOn, hcolons]
  exact (writes_mark hcolons).bind (Writes.pure (p.push a, true) ls')

end Segments

/-- Words joined by double colons, none of which is a keyword. -/
def isPath : List Lexeme → Bool
  | [.word w] => !keywords.contains w
  | .word w :: .mark ':' true :: .mark ':' _ :: ls => !keywords.contains w && isPath ls
  | _ => false

/-- The tokens of a path. -/
def pathTokens : List Lexeme → List Token
  | .word w :: .mark ':' true :: .mark ':' _ :: ls => .word w :: .mark "::" :: pathTokens ls
  | ls => Lexeme.spell ls

theorem exists_word_of_isPath (h : isPath ls = true) :
    ∃ w rest, ls = .word w :: rest ∧ keywords.contains w = false := by
  rw [isPath.eq_def] at h
  split at h
  · exact ⟨_, _, rfl, by simpa using h⟩
  · rw [Bool.and_eq_true] at h
    exact ⟨_, _, rfl, by simpa using h.1⟩
  · cases h

theorem writes_segments_of_isPath (h : isPath ls = true) (hbehind : Halts behind) {n : Nat}
    (hn : ls.length ≤ n) (p : PathForm) :
    ∃ q, Writes (repeated (segmentStep g true seesInputs) n p) (ls ++ behind) q (pathTokens ls)
      behind := by
  have hcolons : sees "::" behind = false := hbehind.sees_eq_false rfl
  have hangle : sees "<" behind = false := hbehind.sees_eq_false rfl
  have hturbofish : seesTurbofish behind = false := by rw [seesTurbofish, hcolons]; rfl
  induction ls using isPath.induct generalizing n p with
  | case1 w =>
    obtain ⟨n, rfl⟩ := Nat.exists_eq_add_one.mpr hn
    have hw : keywords.contains w = false := by simpa [isPath] using h
    refine ⟨_, writes_segments_last (writes_segment_word hw true hangle hturbofish) ?_ n⟩
    rw [hcolons]
    rfl
  | case2 w joint ls ih =>
    obtain ⟨n, rfl⟩ := Nat.exists_eq_add_one.mpr (Nat.zero_lt_of_lt hn)
    rw [isPath, Bool.and_eq_true] at h
    obtain ⟨w', rest, rfl, -⟩ := exists_word_of_isPath h.2
    have hw : keywords.contains w = false := by simpa using h.1
    obtain ⟨q, hrest⟩ := ih h.2 (n := n) (by simp at hn ⊢; omega) (p.push .bare)
    exact ⟨q, writes_segments_more (writes_segment_word hw true rfl rfl) rfl hrest⟩
  | case3 ls hone hmore =>
    rw [isPath.eq_3 _ hone hmore] at h
    cases h

theorem writes_valuePath (h : isPath ls = true) (hbehind : Halts behind) :
    ∃ p, Writes (valuePath g) (ls ++ behind) p (pathTokens ls) behind := by
  obtain ⟨q, hq⟩ := writes_segments_of_isPath (g := g) h hbehind (n := (ls ++ behind).length + 1)
    (by simp; omega) ⟨false, false, 0, true, .bare⟩
  obtain ⟨w, rest, rfl, -⟩ := exists_word_of_isPath h
  refine ⟨q, (writes_no_mark rfl).silent_bind ((writes_no_mark rfl).silent_bind ?_)⟩
  rw [segments_eq]
  exact writes_repeating hq

/-- A path begins with a word that no other expression begins with. -/
theorem writes_atom_path (h : isPath ls = true) (hbehind : Halts behind) :
    Writes (atom g true) (ls ++ behind) (.other "path") (pathTokens ls) behind := by
  obtain ⟨p, hp⟩ := writes_valuePath (g := g) h hbehind
  have hbang : p.isInvoked behind = false := by
    rw [PathForm.isInvoked, seesBang, hbehind.sees_eq_false rfl, Bool.false_and, Bool.and_false]
  have hpath : Writes (pathExpression g true) (ls ++ behind) (.other "path") (pathTokens ls)
      behind := by
    rw [← List.append_nil (pathTokens ls)]
    refine hp.bind (Writes.after_rest ?_)
    rw [hbang, hbehind.seesGroup_eq_false]
    exact Writes.pure _ behind
  obtain ⟨w, rest, rfl, hw⟩ := exists_word_of_isPath h
  have hnext : sees "#" (rest ++ behind) = false := by
    rw [isPath.eq_def] at h
    split at h
    · rename_i heq
      cases heq
      exact hbehind.sees_eq_false rfl
    · rename_i heq
      cases heq
      rfl
    · cases h
  have hkeyword {s : String} (hs : keywords.contains s = true) : w ≠ s := by
    rintro rfl
    rw [hs] at hw
    cases hw
  have hsees {s : String} (hs : keywords.contains s = true) (next : List Lexeme) :
      seesWord s (.word w :: next) = false := by
    simpa [seesWord] using hkeyword hs
  have hliteral : seesLiteral (.word w :: (rest ++ behind)) = false := by
    simp [seesLiteral, literal?, hkeyword (s := "true") rfl, hkeyword (s := "false") rfl]
  have hclosure : seesClosure (.word w :: (rest ++ behind)) = false := by
    have hmove : seesSomeWord ["move", "static"] (.word w :: (rest ++ behind)) = false := by
      simp [seesSomeWord, hkeyword (s := "move") rfl, hkeyword (s := "static") rfl]
    rw [seesClosure, hmove, hsees rfl, hsees rfl, hsees rfl]
    rfl
  have hname : seesPath (.word w :: (rest ++ behind)) = true := by
    rw [seesPath, seesName, hw]
    rfl
  refine Writes.after_rest ?_
  rw [List.cons_append] at hpath ⊢
  simp only [hliteral, seesAsyncBlock, hsees (s := "async") rfl, hsees (s := "try") rfl, hclosure,
    List.drop_succ_cons, List.drop_zero, hnext, hname, Bool.false_and, Bool.and_false, Bool.true_or,
    Bool.false_eq_true, if_false, if_true]
  exact hpath

theorem writes_operand_path (g : Productions) (h : isPath ls = true) (hbehind : Halts behind) :
    Writes (operandOf g true) (ls ++ behind) (.other "path") (pathTokens ls) behind := by
  obtain ⟨w, rest, rfl, -⟩ := exists_word_of_isPath h
  exact writes_operand (writes_atom_path h hbehind) rfl (.inr ⟨_, _, rfl⟩) hbehind

/-- A path is a whole expression if what follows it does not go on with one. -/
theorem reads_anyExpression_path (n : Nat) (h : isPath ls = true) (hbehind : Halts behind) :
    Reads (anyExpression (grammar (n + 1))) (ls ++ behind) () behind :=
  ((writes_operand_path _ h hbehind).anyExpression hbehind).reads

/-! ### Lengths of arrays -/

/-- A length that is not computed: a literal or a path. -/
def isLength : List Lexeme → Bool
  | [.literal _] => true
  | ls => isPath ls

def lengthTokens : List Lexeme → List Token
  | [.literal s] => [.literal s]
  | ls => pathTokens ls

theorem writes_length (n : Nat) (h : isLength ls = true) :
    ∃ e, Writes ((grammar (n + 1)).expression true) ls e (lengthTokens ls) [] := by
  rw [isLength.eq_def] at h
  rw [lengthTokens.eq_def]
  split at h
  · rename_i s
    have hliteral : literal? [.literal s] = some (Literal.ofSource s, [.literal s], []) := rfl
    have hoperand := writes_operand_literal (grammar n) hliteral (.inl ⟨s, [], rfl⟩) .nothing
    exact ⟨_, hoperand.expression .nothing⟩
  · have hoperand := writes_operand_path (grammar n) h .nothing
    rw [List.append_nil] at hoperand
    exact ⟨_, hoperand.expression .nothing⟩

/-! ### No value -/

theorem refuses_atom (g : Productions) (fields : Bool) (h : Ends ls) :
    Refuses (atom g fields) ls := by
  refine .of_bind (reads_rest ls) ?_
  cases h with
  | nothing => exact refuses_missing _ _
  | comma ls => exact refuses_missing _ _

/-- Where an item is over, no expression begins. -/
theorem refuses_anyExpression (n : Nat) (h : Ends ls) :
    Refuses (anyExpression (grammar n)) ls := by
  cases n with
  | zero => exact Refuses.map (.throw _ ls) _
  | succ n =>
    have hhalts : Halts ls := h.halts
    have hsign : (signs.find? fun s => sees s ls) = none := by cases h <;> rfl
    have hoperand : Refuses (operandOf (grammar n) true) ls := by
      refine Refuses.orSpelled (.of_bind (reads_rest ls) (.of_bind
        (writes_attributes _ (hhalts.sees_eq_false rfl)).reads (.of_bind (reads_rest ls) ?_)))
      rw [hhalts.sees_eq_false rfl, hsign]
      exact (refuses_atom _ true h).bind _
    exact (hoperand.bind _).map _

end Abridge.Derive.Syntax

import Abridge.Proofs.Implementations
import Abridge.Proofs.Values

/-!
What becomes of the lexemes of a text when they are written as tokens. Nearly all stay what they
are: marks that belong together become one, and lifetimes come first in a list in angle brackets. A
few marks without meaning are left out. Whatever is written so keeps its brackets matched, if those
of the text are.
-/
namespace Abridge.Derive

/-! ### Plain and tame texts -/

mutual

/-- Neither a block nor an attribute, and a semicolon only in front of a length that is not
computed; `ls` follows. -/
def Lexeme.isPlain (ls : List Lexeme) : Lexeme → Bool
  | .mark c _ => c ≠ '#' && (c ≠ ';' || Syntax.isLength ls)
  | .group d inner => d ≠ .curly && allPlain inner
  | _ => true

def allPlain : List Lexeme → Bool
  | [] => true
  | l :: ls => l.isPlain ls && allPlain ls

end

theorem allPlain_of_append {ls ms : List Lexeme} (h : allPlain (ls ++ ms) = true) :
    allPlain ms = true := by
  induction ls with
  | nil => exact h
  | cons l ls ih =>
    rw [List.cons_append, allPlain, Bool.and_eq_true] at h
    exact ih h.2

theorem allPlain_group {d : Delimiter} {inner after : List Lexeme}
    (h : allPlain (.group d inner :: after) = true) : d ≠ .curly ∧ allPlain inner = true := by
  rw [allPlain, Bool.and_eq_true, Lexeme.isPlain, Bool.and_eq_true, decide_eq_true_eq] at h
  exact h.1

theorem isLength_of_allPlain {joint : Bool} {ls : List Lexeme}
    (h : allPlain (.mark ';' joint :: ls) = true) : Syntax.isLength ls = true := by
  simp only [allPlain, Lexeme.isPlain, Bool.and_eq_true] at h
  simpa using h.1

/-- A lifetime begins with an apostrophe. -/
def Lexeme.isMarked : Lexeme → Bool
  | .lifetime s => s.toList.head? = some '\''
  | _ => true

/-- Is a macro called with a block, where `l` stands in front of `ls`? -/
def callsBlock (l : Lexeme) (ls : List Lexeme) : Bool :=
  match l with
  | .mark c _ => c = '!' && Syntax.seesGroup .curly ls
  | _ => false

/-- Outside of groups, lifetimes begin with an apostrophe and no macro is called with a block. -/
def isTame : List Lexeme → Bool
  | [] => true
  | l :: ls => l.isMarked && !callsBlock l ls && isTame ls

theorem isTame_append {ls ms : List Lexeme} (h : isTame (ls ++ ms) = true) :
    isTame ls = true ∧ isTame ms = true := by
  induction ls with
  | nil => exact ⟨rfl, h⟩
  | cons l ls ih =>
    rw [List.cons_append, isTame, Bool.and_eq_true, Bool.and_eq_true, Bool.not_eq_true'] at h
    obtain ⟨⟨hmarked, hcalls⟩, hrest⟩ := h
    refine ⟨?_, (ih hrest).2⟩
    have hcalls' : callsBlock l ls = false := by
      cases l with
      | mark c j =>
        cases ls with
        | nil => exact Bool.and_false _
        | cons m ls => cases m <;> exact hcalls
      | _ => rfl
    rw [isTame, hmarked, hcalls', (ih hrest).1]
    rfl

theorem isTame_flatMap {α : Type} {f : α → List Lexeme} {as : List α}
    (h : isTame (as.flatMap f) = true) : ∀ a ∈ as, isTame (f a) = true := by
  induction as with
  | nil => nofun
  | cons a as ih =>
    rw [List.flatMap_cons] at h
    exact List.forall_mem_cons.mpr ⟨(isTame_append h).1, ih (isTame_append h).2⟩

theorem Lexeme.spell_append (ls ms : List Lexeme) : spell (ls ++ ms) = spell ls ++ spell ms := by
  induction ls with
  | nil => rfl
  | cons l ls ih => rw [List.cons_append, spell, spell, ih, List.cons_append]

theorem Lexeme.spell_flatMap {α : Type} (f : α → List Lexeme) (as : List α) :
    spell (as.flatMap f) = as.flatMap fun a => spell (f a) := by
  induction as with
  | nil => rfl
  | cons a as ih => rw [List.flatMap_cons, List.flatMap_cons, spell_append, ih]

/-! ### Brackets along the way -/

namespace Code

/-- Behind tokens, unless one of them closes a bracket that is not open or is a block or a comma
outside of brackets. -/
def travel : Nest → List Token → Option Nest
  | s, [] => some s
  | s, t :: ts =>
    if s = .outside ∧ (isBlock t = true ∨ isComma t = true) then none
    else (s.past t).bind fun s => travel s ts

/-- Tokens lead from `i` open brackets to `j`, however many others are open around them. -/
def Goes (i j : Nat) (ts : List Token) : Prop :=
  ∀ d, travel ⟨d + i, false⟩ ts = some ⟨d + j, false⟩

variable {i j k : Nat} {t : Token} {ts us : List Token}

theorem travel_append (s : Nest) (ts us : List Token) :
    travel s (ts ++ us) = (travel s ts).bind fun s => travel s us := by
  induction ts generalizing s with
  | nil => rfl
  | cons t ts ih =>
    rw [List.cons_append, travel, travel]
    split
    · rfl
    · cases s.past t with
      | none => rfl
      | some s => exact ih s

theorem Goes.nil (i : Nat) : Goes i i [] := fun _ => rfl

theorem Goes.append (h : Goes i j ts) (h' : Goes j k us) : Goes i k (ts ++ us) := by
  intro d
  rw [travel_append, h d]
  exact h' d

/-- The token is no part of what is counted. -/
def isQuiet (t : Token) : Bool :=
  !isOpening t && !isClosing t && !isComma t && !isDash t && !isBlock t

theorem goes_quiet (h : isQuiet t = true) (i : Nat) : Goes i i [t] := by
  intro d
  simp only [isQuiet, Bool.and_eq_true, Bool.not_eq_true'] at h
  obtain ⟨⟨⟨⟨hopening, hclosing⟩, hcomma⟩, hdash⟩, hblock⟩ := h
  simp [travel, Nest.past, hopening, hclosing, hcomma, hdash, hblock]

/-- A lifetime is no bracket. -/
theorem isQuiet_lifetime {s : String} (h : s.toList.head? = some '\'') :
    isQuiet (.mark s) = true := by
  have hne : s ≠ "<" ∧ s ≠ ">" ∧ s ≠ "," := by
    refine ⟨?_, ?_, ?_⟩ <;> rintro rfl <;> cases h
  simp [isQuiet, isOpening, isClosing, isComma, isDash, isBlock, hne]

theorem goes_opening (h : t = .mark "<" ∨ t = .joint "<") (i : Nat) : Goes i (i + 1) [t] := by
  intro d
  rcases h with rfl | rfl <;>
    simp [travel, Nest.past, isOpening, isClosing, isComma, isBlock, Nat.add_assoc]

theorem goes_closing (h : t = .mark ">" ∨ t = .joint ">") (i : Nat) : Goes (i + 1) i [t] := by
  intro d
  rcases h with rfl | rfl <;>
    simp [travel, Nest.past, isClosing, isComma, isBlock, ← Nat.add_assoc]

theorem goes_comma (h : t = .mark "," ∨ t = .joint ",") (i : Nat) : Goes (i + 1) (i + 1) [t] := by
  intro d
  rcases h with rfl | rfl <;>
    simp [travel, Nest.past, Nest.outside, isOpening, isClosing, isDash, isBlock, ← Nat.add_assoc]

/-- Inside of brackets there are blocks. -/
theorem goes_group (d : Delimiter) (us : List Token) (i : Nat) :
    Goes (i + 1) (i + 1) [.group d us] := by
  intro n
  simp [travel, Nest.past, Nest.outside, isOpening, isClosing, isComma, isDash, ← Nat.add_assoc]

/-- The head of an arrow closes nothing. -/
theorem goes_arrow (h : t = .mark ">" ∨ t = .joint ">") (i : Nat) :
    Goes i i [.joint "-", t] := by
  intro d
  rcases h with rfl | rfl <;>
    simp [travel, Nest.past, Nest.outside, isOpening, isClosing, isComma, isDash, isBlock]

theorem goes_flatMap {α : Type} {f : α → List Token} {as : List α} (h : ∀ a ∈ as, Goes i i (f a)) :
    Goes i i (as.flatMap f) := by
  induction as with
  | nil => exact Goes.nil i
  | cons a as ih =>
    rw [List.flatMap_cons]
    exact (h a List.mem_cons_self).append (ih fun b hb => h b (List.mem_cons_of_mem _ hb))

/-- What leads back to where it began is passed by whatever stops at blocks and commas only. -/
theorem passes_of_travel {stop : Token → Option Token → Bool}
    (hstop : ∀ t next, stop t next = true → isBlock t = true ∨ isComma t = true)
    {next : Option Token} {s : Nest} (h : travel s ts = some .outside) :
    passes stop next s ts = true := by
  induction ts generalizing s with
  | nil =>
    obtain rfl := Option.some.inj h
    rfl
  | cons t ts ih =>
    rw [travel] at h
    split at h
    · cases h
    · rename_i hno
      obtain ⟨s', hs', hts⟩ := Option.bind_eq_some_iff.mp h
      refine passes_cons.mpr ⟨fun hhere => ?_, s', hs', ih hts⟩
      exact hno ⟨hhere.1, hstop _ _ hhere.2⟩

theorem Goes.isWhole (h : Goes 0 0 ts) : isWhole ts = true :=
  passes_of_travel (fun _ _ => .inr) (h 0)

theorem Goes.isCondition (h : Goes 0 0 ts) : isCondition ts = true := by
  rw [Code.isCondition, h.isWhole]
  refine passes_of_travel (fun t next hends => .inl ?_) (h 0)
  rw [endsBlock.eq_def] at hends
  split at hends
  · rfl
  · rfl
  · cases hends

end Code

/-! ### Lexemes as tokens -/

/-- The characters of `s` as marks without gaps. -/
def IsMark (s : String) (ls : List Lexeme) : Prop :=
  s ≠ "" ∧ ls.length = s.length ∧ Syntax.sees s ls = true

/-- An empty list in angle brackets, behind double colons or not, or nothing. -/
inductive Hollow : List Lexeme → Prop
  | nothing : Hollow []
  | list (j j' : Bool) : Hollow [.mark '<' j, .mark '>' j']
  | turbofish (j j' j'' : Bool) : Hollow [.mark ':' true, .mark ':' j, .mark '<' j', .mark '>' j'']

/-- Parameters that hold for what follows. -/
def IsBinder (ls : List Lexeme) : Prop :=
  ∃ j j' inside, ls = .word "for" :: .mark '<' j :: inside ++ [.mark '>' j']

/-- An entry of a list in angle brackets, with the comma behind it if it has one. -/
structure ListEntry where
  lexemes : List Lexeme
  joint : Bool
  listed : Token.Listed

def ListEntry.all (e : ListEntry) : List Lexeme :=
  e.lexemes ++ if e.listed.comma then [.mark ',' e.joint] else []

/-- The call of a macro, with its brackets as they stand. -/
def IsInvocation (ls : List Lexeme) (ts : List Token) : Prop :=
  ∃ j d inner, ls = [.mark '!' j, .group d inner] ∧
    ts = [.mark "!", .group d (Lexeme.spell inner)]

/-- Lexemes are written as tokens. -/
inductive Rendered : List Lexeme → List Token → Prop
  | nil : Rendered [] []
  | append {ls ls' : List Lexeme} {ts ts' : List Token} : Rendered ls ts → Rendered ls' ts' →
    Rendered (ls ++ ls') (ts ++ ts')
  | word (w : String) : Rendered [.word w] [.word w]
  | mark {s : String} {ls : List Lexeme} : IsMark s ls → Rendered ls [.mark s]
  | lifetime (s : String) : Rendered [.lifetime s] [.mark s]
  | literal (s : String) : Rendered [.literal s] [.literal s]
  | group {d : Delimiter} {inner : List Lexeme} {ts : List Token} : Rendered inner ts →
    Rendered [.group d inner] [.group d ts]
  /-- What has no form of its own stays as it stands. -/
  | spelled (ls : List Lexeme) : Rendered ls (Lexeme.spell ls)
  /-- Lifetimes come first in a list in angle brackets. -/
  | listed {es : List ListEntry} (j j' : Bool) :
    (∀ e ∈ es, Rendered e.lexemes e.listed.tokens) →
    (∀ e ∈ es, e.listed.isLifetime = true → ∃ s, e.lexemes = [.lifetime s]) →
    Rendered (.mark '<' j :: es.flatMap ListEntry.all ++ [.mark '>' j'])
      (.mark "<" :: Token.lifetimesFirst (es.map ListEntry.listed) ++ [.mark ">"])
  /-- In front of the inputs of a function, empty lists and double colons are left out. -/
  | inputs {list colons inner : List Lexeme} {ts : List Token} : Hollow list →
    colons = [] ∨ (∃ j, colons = [.mark ':' true, .mark ':' j]) →
    Rendered [.group .round inner] [.group .round ts] →
    Rendered (list ++ colons ++ [.group .round inner]) [.group .round ts]
  /-- A colon with nothing behind it is left out. -/
  | colon {ls : List Lexeme} (j : Bool) : Rendered ls [] → Rendered (.mark ':' j :: ls) []
  /-- In front of the call of a macro, parameters that hold for it are left out. -/
  | unbound {binder ls call : List Lexeme} {ts us : List Token} : IsBinder binder →
    IsInvocation call us → Rendered (ls ++ call) ts → Rendered (binder ++ (ls ++ call)) ts
  /-- Round brackets around round brackets can be left out. -/
  | unwrapped {inner : List Lexeme} {ts : List Token} :
    Rendered [.group .round inner] [.group .round [.group .round ts]] →
    Rendered [.group .round inner] [.group .round ts]

/-- Lexemes are written as tokens, if they are read as a `whole`, and both lead from `i` open
brackets to `j`, if the lexemes are tame. -/
structure Moves (whole : Bool) (i j : Nat) (ls : List Lexeme) (ts : List Token) : Prop where
  rendered : whole = true → Rendered ls ts
  lexemes : isTame ls = true → Code.Goes i j (Lexeme.spell ls)
  tokens : isTame ls = true → Code.Goes i j ts

namespace Moves

open Code

variable {whole : Bool} {i j k : Nat} {ls ls' : List Lexeme} {ts ts' : List Token}

theorem nil (i : Nat) : Moves whole i i [] [] := ⟨fun _ => .nil, fun _ => .nil i, fun _ => .nil i⟩

theorem append (h : Moves whole i j ls ts) (h' : Moves whole j k ls' ts') :
    Moves whole i k (ls ++ ls') (ts ++ ts') where
  rendered hwhole := (h.rendered hwhole).append (h'.rendered hwhole)
  lexemes htame := by
    rw [Lexeme.spell_append]
    exact (h.lexemes (isTame_append htame).1).append (h'.lexemes (isTame_append htame).2)
  tokens htame := (h.tokens (isTame_append htame).1).append (h'.tokens (isTame_append htame).2)

theorem word (i : Nat) (w : String) : Moves whole i i [.word w] [.word w] :=
  ⟨fun _ => .word w, fun _ => goes_quiet rfl i, fun _ => goes_quiet rfl i⟩

theorem literal (i : Nat) (s : String) : Moves whole i i [.literal s] [.literal s] :=
  ⟨fun _ => .literal s, fun _ => goes_quiet rfl i, fun _ => goes_quiet rfl i⟩

theorem spelled (h : Moves whole i j ls ts) : Moves whole i j ls (Lexeme.spell ls) :=
  ⟨fun _ => .spelled ls, h.lexemes, h.lexemes⟩

theorem lifetime (i : Nat) (s : String) : Moves whole i i [.lifetime s] [.mark s] := by
  have hgoes (h : isTame [.lifetime s] = true) : Goes i i [.mark s] := by
    refine goes_quiet (isQuiet_lifetime ?_) i
    simpa [isTame, Lexeme.isMarked, callsBlock] using h
  exact ⟨fun _ => .lifetime s, hgoes, hgoes⟩

/-- A group that is no block. -/
theorem group {d : Delimiter} (hd : d ≠ .curly) {inner : List Lexeme} {ts : List Token}
    (h : whole = true → Rendered inner ts) (i : Nat) :
    Moves whole i i [.group d inner] [.group d ts] := by
  have hquiet (us : List Token) : isQuiet (.group d us) = true := by
    cases d with
    | curly => exact absurd rfl hd
    | _ => rfl
  exact ⟨fun hwhole => .group (h hwhole), fun _ => goes_quiet (hquiet _) i,
    fun _ => goes_quiet (hquiet _) i⟩

/-- A group of which nothing is left. -/
theorem within {d : Delimiter} (hd : d ≠ .curly) {inner left : List Lexeme} {ts : List Token}
    (h : Moves whole j k inner ts) (hleft : whole = true → left = []) (i : Nat) :
    Moves whole i i [.group d (inner ++ left)] [.group d ts] := by
  refine .group hd (fun hwhole => ?_) i
  rw [hleft hwhole, List.append_nil]
  exact h.rendered hwhole

/-- A group that need not be read. -/
theorem unread {d : Delimiter} (hd : d ≠ .curly) (inner : List Lexeme) (us : List Token) (i : Nat) :
    Moves false i i [.group d inner] [.group d us] :=
  .group hd (fun h => absurd h Bool.false_ne_true) i

/-- A block inside of brackets. -/
theorem block (inner : List Lexeme) (us : List Token) (i : Nat) :
    Moves false (i + 1) (i + 1) [.group .curly inner] [.group .curly us] :=
  ⟨nofun, fun _ => goes_group _ _ i, fun _ => goes_group _ _ i⟩

theorem unwrapped {inner : List Lexeme} {ts : List Token} {i : Nat}
    (h : Moves whole i i [.group .round inner] [.group .round [.group .round ts]]) :
    Moves whole i i [.group .round inner] [.group .round ts] :=
  ⟨fun hwhole => .unwrapped (h.rendered hwhole), h.lexemes, fun _ => goes_quiet rfl i⟩

end Moves

/-! ### Marks -/

namespace Syntax

theorem seesMarks_split {cs : List Char} {ls : List Lexeme} (h : seesMarks cs ls = true) :
    ∃ front behind, ls = front ++ behind ∧ front.length = cs.length ∧
      seesMarks cs front = true := by
  induction cs, ls using seesMarks.induct with
  | case1 ls => exact ⟨[], ls, rfl, rfl, rfl⟩
  | case2 c d joint ls => exact ⟨[.mark d joint], ls, rfl, rfl, h⟩
  | case3 c cs d ls hcs ih =>
    rw [seesMarks.eq_3 _ _ _ _ hcs, Bool.and_eq_true] at h
    obtain ⟨front, behind, rfl, hlength, hfront⟩ := ih h.2
    refine ⟨.mark d true :: front, behind, rfl, by rw [List.length_cons, hlength]; rfl, ?_⟩
    rw [seesMarks.eq_3 _ _ _ _ hcs, Bool.and_eq_true]
    exact ⟨h.1, hfront⟩
  | case4 cs ls hempty hone hmore =>
    rw [seesMarks.eq_4 _ _ hempty hone hmore] at h
    cases h

/-- A mark that is seen is the front of what is seen. -/
theorem isMark_of_sees {s : String} (hs : s ≠ "") {ls : List Lexeme} (h : sees s ls = true) :
    ∃ front, IsMark s front ∧ ls = front ++ ls.drop s.length := by
  obtain ⟨front, behind, rfl, hlength, hfront⟩ := seesMarks_split h
  rw [String.length_toList] at hlength
  exact ⟨front, ⟨hs, hlength, hfront⟩, by rw [List.drop_left' hlength]⟩

end Syntax

theorem IsMark.eq_one {s : String} {ls : List Lexeme} (h : IsMark s ls) {c : Char}
    (hs : s.toList = [c]) : ∃ j, ls = [.mark c j] := by
  obtain ⟨-, hlength, hsees⟩ := h
  rw [← String.length_toList, hs] at hlength
  rw [Syntax.sees, hs] at hsees
  obtain ⟨l, rfl⟩ := List.length_eq_one_iff.mp hlength
  cases l with
  | mark d j => exact ⟨j, by rw [of_decide_eq_true hsees]⟩
  | _ => cases hsees

theorem IsMark.eq_two {s : String} {ls : List Lexeme} (h : IsMark s ls) {c d : Char}
    (hs : s.toList = [c, d]) : ∃ j, ls = [.mark c true, .mark d j] := by
  obtain ⟨-, hlength, hsees⟩ := h
  rw [← String.length_toList, hs] at hlength
  rw [Syntax.sees, hs] at hsees
  obtain ⟨l, m, rfl⟩ := List.length_eq_two.mp hlength
  cases l with
  | mark c' j =>
    cases j with
    | false => cases hsees
    | true =>
      rw [Syntax.seesMarks, Bool.and_eq_true] at hsees
      · obtain ⟨hc, hd⟩ := hsees
        cases m with
        | mark d' j => exact ⟨j, by rw [of_decide_eq_true hc, of_decide_eq_true hd]⟩
        | _ => cases hd
      · exact List.cons_ne_nil d []
  | _ => cases hsees

/-- A character that is neither a bracket nor a comma, and begins no arrow. -/
def isQuietChar (c : Char) : Bool := c ≠ '<' && c ≠ '>' && c ≠ ',' && c ≠ '-'

theorem isQuiet_spelled_mark {c : Char} (h : isQuietChar c = true) (joint : Bool) :
    Code.isQuiet (Lexeme.spelled (.mark c joint)) = true := by
  have hne (d : Char) (hd : c ≠ d) : String.singleton c ≠ String.singleton d := by
    intro heq
    have hlist := congrArg String.toList heq
    simp only [String.toList_singleton, List.cons.injEq, and_true] at hlist
    exact hd hlist
  simp only [isQuietChar, Bool.and_eq_true, decide_eq_true_eq] at h
  obtain ⟨⟨⟨hopening, hclosing⟩, hcomma⟩, hdash⟩ := h
  replace hopening : String.singleton c ≠ "<" := hne '<' hopening
  replace hclosing : String.singleton c ≠ ">" := hne '>' hclosing
  replace hcomma : String.singleton c ≠ "," := hne ',' hcomma
  replace hdash : String.singleton c ≠ "-" := hne '-' hdash
  cases joint <;>
    simp [Lexeme.spelled, Code.isQuiet, Code.isOpening, Code.isClosing, Code.isComma, Code.isDash,
      Code.isBlock, hopening, hclosing, hcomma, hdash]

theorem goes_spell_marks {cs : List Char} (hcs : cs.all isQuietChar = true) {ls : List Lexeme}
    (hlength : ls.length = cs.length) (h : Syntax.seesMarks cs ls = true) (i : Nat) :
    Code.Goes i i (Lexeme.spell ls) := by
  induction cs, ls using Syntax.seesMarks.induct with
  | case1 ls =>
    rw [List.length_eq_zero_iff.mp hlength]
    exact .nil i
  | case2 c d joint ls =>
    obtain rfl := List.length_eq_zero_iff.mp (Nat.succ.inj hlength)
    obtain rfl : c = d := of_decide_eq_true h
    rw [List.all_cons, Bool.and_eq_true] at hcs
    exact Code.goes_quiet (isQuiet_spelled_mark hcs.1 joint) i
  | case3 c cs d ls hmore ih =>
    rw [Syntax.seesMarks.eq_3 _ _ _ _ hmore, Bool.and_eq_true] at h
    obtain rfl : c = d := of_decide_eq_true h.1
    rw [List.all_cons, Bool.and_eq_true] at hcs
    exact (Code.goes_quiet (isQuiet_spelled_mark hcs.1 true) i).append
      (ih hcs.2 (Nat.succ.inj hlength) h.2)
  | case4 cs ls hempty hone hmore =>
    rw [Syntax.seesMarks.eq_4 _ _ hempty hone hmore] at h
    cases h

namespace Moves

open Code

variable {whole : Bool} {s : String} {ls : List Lexeme}

theorem mark (h : IsMark s ls) (hs : s.toList.all isQuietChar = true) (i : Nat) :
    Moves whole i i ls [.mark s] := by
  have hquiet : isQuiet (.mark s) = true := by
    have hne : s ≠ "<" ∧ s ≠ ">" ∧ s ≠ "," := by
      refine ⟨?_, ?_, ?_⟩ <;> rintro rfl <;> cases hs
    simp [isQuiet, isOpening, isClosing, isComma, isDash, isBlock, hne]
  refine ⟨fun _ => .mark h, fun _ => goes_spell_marks hs ?_ h.2.2 i, fun _ => goes_quiet hquiet i⟩
  rw [String.length_toList]
  exact h.2.1

theorem arrow (h : IsMark "->" ls) (i : Nat) : Moves whole i i ls [.mark "->"] := by
  refine ⟨fun _ => .mark h, fun _ => ?_, fun _ => goes_quiet rfl i⟩
  obtain ⟨j, rfl⟩ := h.eq_two rfl
  cases j
  · exact goes_arrow (.inl rfl) i
  · exact goes_arrow (.inr rfl) i

theorem opening (h : IsMark "<" ls) (i : Nat) : Moves whole i (i + 1) ls [.mark "<"] := by
  refine ⟨fun _ => .mark h, fun _ => ?_, fun _ => goes_opening (.inl rfl) i⟩
  obtain ⟨j, rfl⟩ := h.eq_one rfl
  cases j
  · exact goes_opening (.inl rfl) i
  · exact goes_opening (.inr rfl) i

theorem closing (h : IsMark ">" ls) (i : Nat) : Moves whole (i + 1) i ls [.mark ">"] := by
  refine ⟨fun _ => .mark h, fun _ => ?_, fun _ => goes_closing (.inl rfl) i⟩
  obtain ⟨j, rfl⟩ := h.eq_one rfl
  cases j
  · exact goes_closing (.inl rfl) i
  · exact goes_closing (.inr rfl) i

/-- Inside of brackets there are commas. -/
theorem comma (h : IsMark "," ls) (i : Nat) : Moves whole (i + 1) (i + 1) ls [.mark ","] := by
  refine ⟨fun _ => .mark h, fun _ => ?_, fun _ => goes_comma (.inl rfl) i⟩
  obtain ⟨j, rfl⟩ := h.eq_one rfl
  cases j
  · exact goes_comma (.inl rfl) i
  · exact goes_comma (.inr rfl) i

end Moves

theorem Moves.invocation {whole : Bool} {ls : List Lexeme} {ts : List Token}
    (h : IsInvocation ls ts) (i : Nat) : Moves whole i i ls ts := by
  obtain ⟨j, d, inner, rfl, rfl⟩ := h
  have hbang : IsMark "!" [.mark '!' j] := ⟨by decide, rfl, rfl⟩
  have hgroup (h : isTame [.mark '!' j, .group d inner] = true) :
      Moves whole i i [.group d inner] [.group d (Lexeme.spell inner)] := by
    refine .group ?_ (fun _ => .spelled inner) i
    rintro rfl
    cases h
  refine ⟨fun hwhole => .append (.mark hbang) (.group (.spelled inner)), fun htame => ?_,
    fun htame => ?_⟩
  · exact ((Moves.mark hbang rfl i).append (hgroup htame)).lexemes htame
  · exact ((Moves.mark hbang rfl i).append (hgroup htame)).tokens htame

theorem Moves.unbound {whole : Bool} {i : Nat} {binder ls call : List Lexeme}
    {bs ts us : List Token} (hbs : Moves whole i i binder bs) (hbinder : IsBinder binder)
    (hts : Moves whole i i ls ts) (hcall : IsInvocation call us) (hus : Moves whole i i call us) :
    Moves whole i i (binder ++ (ls ++ call)) (ts ++ us) where
  rendered hwhole := .unbound hbinder hcall ((hts.append hus).rendered hwhole)
  lexemes := (hbs.append (hts.append hus)).lexemes
  tokens htame := (hts.append hus).tokens (isTame_append htame).2

/-! ### Lists in angle brackets -/

theorem goes_lifetimesFirst {es : List Token.Listed} {i : Nat}
    (h : ∀ e ∈ es, Code.Goes (i + 1) (i + 1) e.tokens) :
    Code.Goes (i + 1) (i + 1) (Token.lifetimesFirst es) := by
  have hcomma : Code.Goes (i + 1) (i + 1) [.mark ","] := Code.goes_comma (.inl rfl) i
  have hall : ∀ e ∈ es, Code.Goes (i + 1) (i + 1) e.all := by
    intro e he
    rw [Token.Listed.all]
    split
    · exact (h e he).append hcomma
    · exact (h e he).append (.nil _)
  rw [Token.lifetimesFirst]
  refine .append (.append (Code.goes_flatMap fun e he => ?_) ?_) (Code.goes_flatMap fun e he => ?_)
  · exact hall e (List.mem_of_mem_filter he)
  · split
    · exact hcomma
    · exact .nil _
  · exact hall e (List.mem_of_mem_filter he)

theorem Moves.listed {whole : Bool} {i : Nat} {es : List ListEntry}
    (hmoves : ∀ e ∈ es, Moves whole (i + 1) (i + 1) e.lexemes e.listed.tokens)
    (hlifetime : ∀ e ∈ es, e.listed.isLifetime = true → ∃ s, e.lexemes = [.lifetime s])
    {first last : List Lexeme} (hfirst : IsMark "<" first) (hlast : IsMark ">" last) :
    Moves whole i i (first ++ es.flatMap ListEntry.all ++ last)
      (.mark "<" :: Token.lifetimesFirst (es.map ListEntry.listed) ++ [.mark ">"]) := by
  have hopening : Moves whole i (i + 1) first [.mark "<"] := .opening hfirst i
  have hclosing : Moves whole (i + 1) i last [.mark ">"] := .closing hlast i
  have htames (h : isTame (first ++ es.flatMap ListEntry.all ++ last) = true) :
      isTame first = true ∧ (∀ e ∈ es, isTame e.lexemes = true) ∧ isTame last = true := by
    obtain ⟨hfront, hlast⟩ := isTame_append h
    obtain ⟨hfirst, hall⟩ := isTame_append hfront
    exact ⟨hfirst, fun e he => (isTame_append (isTame_flatMap hall e he)).1, hlast⟩
  have hentry {e : ListEntry} (he : e ∈ es) (htame : isTame e.lexemes = true) :
      Code.Goes (i + 1) (i + 1) (Lexeme.spell e.all) := by
    have hlexemes := (hmoves e he).lexemes htame
    rw [ListEntry.all, Lexeme.spell_append]
    split
    · refine hlexemes.append (Code.goes_comma ?_ i)
      cases e.joint
      · exact .inl rfl
      · exact .inr rfl
    · exact hlexemes.append (.nil _)
  refine ⟨fun hwhole => ?_, fun htame => ?_, fun htame => ?_⟩
  · obtain ⟨j, rfl⟩ := hfirst.eq_one rfl
    obtain ⟨j', rfl⟩ := hlast.eq_one rfl
    exact .listed j j' (fun e he => (hmoves e he).rendered hwhole) hlifetime
  · obtain ⟨hfirst, hall, hlast⟩ := htames htame
    rw [Lexeme.spell_append, Lexeme.spell_append, Lexeme.spell_flatMap]
    exact ((hopening.lexemes hfirst).append
      (Code.goes_flatMap fun e he => hentry he (hall e he))).append (hclosing.lexemes hlast)
  · obtain ⟨hfirst, hall, hlast⟩ := htames htame
    refine ((hopening.tokens hfirst).append (goes_lifetimesFirst fun e he => ?_)).append
      (hclosing.tokens hlast)
    obtain ⟨e', he', rfl⟩ := List.mem_map.mp he
    exact (hmoves e' he').tokens (hall e' he')

/-- An empty list and double colons in front of inputs leave nothing behind. -/
theorem Moves.inputs {whole : Bool} {i : Nat} {list colons inner : List Lexeme} {us ts : List Token}
    (hlist : Moves whole i i list us) (hhollow : Hollow list)
    (hcolons : colons = [] ∨ ∃ j, colons = [.mark ':' true, .mark ':' j])
    (hinner : Moves whole i i [.group .round inner] [.group .round ts]) :
    Moves whole i i (list ++ colons ++ [.group .round inner]) [.group .round ts] := by
  have hcolonsGo : Code.Goes i i (Lexeme.spell colons) := by
    rcases hcolons with rfl | ⟨j, rfl⟩
    · exact .nil i
    · exact goes_spell_marks (show [':', ':'].all isQuietChar = true from rfl) rfl rfl i
  refine ⟨fun hwhole => .inputs hhollow hcolons (hinner.rendered hwhole), fun htame => ?_,
    fun htame => hinner.tokens (isTame_append htame).2⟩
  obtain ⟨hfront, hbehind⟩ := isTame_append htame
  rw [Lexeme.spell_append, Lexeme.spell_append]
  exact ((hlist.lexemes (isTame_append hfront).1).append hcolonsGo).append (hinner.lexemes hbehind)

end Abridge.Derive

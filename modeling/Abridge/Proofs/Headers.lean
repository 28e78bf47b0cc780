import Abridge.Proofs.TypeTokens

/-!
The header of an implementation and the texts of a definition. Whatever text can be read has its
brackets matched, so that the header is complete, and what stands there are the lexemes of the
texts, in the form that code has.
-/
namespace Abridge.Derive

/-! ### Lifetimes of a text -/

namespace Lexeme

theorem isMarked_leaf (c : Char) (rest : List Char) : (leaf c rest).1.isMarked = true := by
  rw [leaf]
  split
  · rfl
  · split
    · rename_i hc
      subst hc
      simp [isMarked]
    · split
      · rfl
      · split <;> rfl

theorem isMarked_ofComment (m : Char) (text : List Char) :
    (ofComment m text).all isMarked = true := by
  cases text with
  | nil => rfl
  | cons c text =>
    rw [ofComment]
    split
    · rfl
    · split <;> rfl

theorem isMarked_scanFrom (n : Nat) (acc : List Lexeme) (cs : List Char)
    (h : acc.all isMarked = true) : (scanFrom n acc cs).1.all isMarked = true := by
  have hcomment (m : Char) (text : List Char) (acc : List Lexeme) (h : acc.all isMarked = true) :
      ((ofComment m text).reverse ++ acc).all isMarked = true := by
    rw [List.all_append, List.all_reverse, isMarked_ofComment, h]
    rfl
  fun_induction scanFrom n acc cs with
  | case1 acc cs => rwa [List.all_reverse]
  | case2 n acc => rwa [List.all_reverse]
  | case3 n acc rest inside ih => exact ih (hcomment _ _ _ h)
  | case4 n acc rest behind inside ih => exact ih (hcomment _ _ _ h)
  | case5 n acc c rest hgap _ _ ih =>
    rw [if_pos hgap]
    exact ih h
  | case6 n acc c rest hgap hbracket =>
    rw [if_neg hgap, hbracket]
    rwa [List.all_reverse]
  | case7 n acc c rest hgap d hbracket inner rest' hinner _ _ _ ih =>
    rw [if_neg hgap, hbracket]
    simp only [hinner]
    exact ih h
  | case8 n acc c rest hgap hbracket l rest' hleaf _ _ ih =>
    rw [if_neg hgap, hbracket]
    simp only [hleaf]
    refine ih ?_
    have hmarked := isMarked_leaf c rest
    rw [hleaf] at hmarked
    rw [List.all_cons, hmarked, h]
    rfl

/-- In a text that has been scanned, every lifetime begins with an apostrophe. -/
theorem isMarked_scan (s : String) : (scan s).all isMarked = true :=
  isMarked_scanFrom _ _ _ rfl

end Lexeme

/-- Is a macro called with a block, outside of groups? -/
def callsBlocks : List Lexeme → Bool
  | [] => false
  | l :: ls => callsBlock l ls || callsBlocks ls

theorem isTame_of_marked {ls : List Lexeme} (hmarked : ls.all Lexeme.isMarked = true)
    (hcalls : callsBlocks ls = false) : isTame ls = true := by
  induction ls with
  | nil => rfl
  | cons l ls ih =>
    rw [List.all_cons, Bool.and_eq_true] at hmarked
    rw [callsBlocks, Bool.or_eq_false_iff] at hcalls
    rw [isTame, hmarked.1, hcalls.1, ih hmarked.2 hcalls.2]
    rfl

/-! ### Whole texts -/

namespace Syntax

variable {α : Type} {p : Productions → Parse α} {source : String}

/-- Is the text read up to its end, and every group up to its own? -/
def reads (p : Productions → Parse α) (source : String) : Bool :=
  match start p (Lexeme.scan source) with
  | .ok (_, r) => r.rest.isEmpty && r.leftover.isNone
  | .error _ => false

theorem moves_tokensOf (hp : ∀ g, Faithful g → Carries 0 0 (p g)) (h : reads p source = true) :
    Moves (allPlain (Lexeme.scan source)) 0 0 (Lexeme.scan source) (tokensOf p source) := by
  rw [reads] at h
  rw [tokensOf]
  cases hrun : start p (Lexeme.scan source) with
  | error fault =>
    rw [hrun] at h
    cases h
  | ok x =>
    obtain ⟨a, r⟩ := x
    rw [hrun] at h
    simp only [h, if_true]
    obtain ⟨-, front, ts, hls, hwritten, hmoves⟩ :=
      hp _ (faithful_grammar _) (Lexeme.scan source) [] none a r hrun
    rw [Bool.and_eq_true] at h
    rw [List.isEmpty_iff.mp h.1, List.append_nil] at hls
    rw [List.append_nil] at hwritten
    rw [hwritten, List.reverse_reverse, hls]
    exact hmoves _ fun hplain => ⟨hls ▸ hplain, Option.isNone_iff_eq_none.mp h.2⟩

/-- What cannot be read stays as it stands. -/
theorem tokensOf_of_not_reads (h : reads p source = false) :
    tokensOf p source = Lexeme.spell (Lexeme.scan source) := by
  rw [reads] at h
  rw [tokensOf]
  cases hrun : start p (Lexeme.scan source) with
  | error fault => rfl
  | ok x =>
    rw [hrun] at h
    exact if_neg (by simp [h])

/-- A plain text is written as its lexemes. -/
theorem rendered_tokensOf (hp : ∀ g, Faithful g → Carries 0 0 (p g))
    (hplain : allPlain (Lexeme.scan source) = true) :
    Rendered (Lexeme.scan source) (tokensOf p source) := by
  cases h : reads p source with
  | false =>
    rw [tokensOf_of_not_reads h]
    exact .spelled _
  | true => exact (moves_tokensOf hp h).rendered hplain

/-- Can the text be read, and is no macro called with a block? -/
def isLegible (p : Productions → Parse α) (source : String) : Bool :=
  reads p source && !callsBlocks (Lexeme.scan source)

/-- Whatever can be read has its brackets matched. -/
theorem goes_tokensOf (hp : ∀ g, Faithful g → Carries 0 0 (p g))
    (h : isLegible p source = true) : Code.Goes 0 0 (tokensOf p source) := by
  rw [isLegible, Bool.and_eq_true, Bool.not_eq_true'] at h
  exact (moves_tokensOf hp h.1).tokens (isTame_of_marked (Lexeme.isMarked_scan source) h.2)

/-! ### Types, subjects and bounds -/

/-- What a predicate is about, behind the parameters that hold for it. -/
def subject (g : Productions) : Parse TypeForm := do
  discard (binder? g)
  g.type true

theorem carries_type (g : Productions) (hg : Faithful g) : Carries 0 0 (g.type true) :=
  (hg.type true 0).carries

theorem carries_subject (g : Productions) (hg : Faithful g) : Carries 0 0 (subject g) :=
  (hg.carriesBinder 0).discard.bind fun _ => carries_type g hg

theorem carries_bounds (g : Productions) (hg : Faithful g) :
    Carries 0 0 (bounds g true true true) :=
  hg.bounds true true true 0

end Syntax

open Syntax

def isLegibleBound (source : String) : Bool := isLegible (fun g => bounds g true true true) source

/-- Can all texts be read, and is the name of a lifetime one? -/
def Parameter.isLegible : Parameter → Bool
  | .lifetime n bs => n.toList.head? = some '\'' && bs.all isLegibleBound
  | .type _ bs _ => bs.all isLegibleBound
  | .const _ t _ => Syntax.isLegible (·.type true) t

def Predicate.isLegible (p : Predicate) : Bool :=
  Syntax.isLegible subject p.type && p.bounds.all isLegibleBound

/-- Can all texts be read in which parameters and predicates are given? -/
def Generics.isLegible (g : Generics) : Bool :=
  g.parameters.all Parameter.isLegible && g.predicates.all Predicate.isLegible

namespace Code

theorem goes_separated {tss : List (List Token)} (h : ∀ ts ∈ tss, Goes 0 0 ts) :
    Goes 0 0 (separated "+" tss) := by
  induction tss with
  | nil => exact .nil 0
  | cons ts tss ih =>
    obtain ⟨hts, hrest⟩ := List.forall_mem_cons.mp h
    cases tss with
    | nil => exact hts
    | cons us tss => exact hts.append ((goes_quiet (t := .mark "+") rfl 0).append (ih hrest))

theorem goes_boundTokens {bs : List String} (h : bs.all isLegibleBound = true) :
    Goes 0 0 (boundTokens bs) := by
  refine goes_separated fun ts hts => ?_
  obtain ⟨b, hb, rfl⟩ := List.mem_map.mp hts
  exact goes_tokensOf carries_bounds (List.all_eq_true.mp h b hb)

theorem goes_withBounds {n : Token} (hn : isQuiet n = true) {bs : List String}
    (h : bs.all isLegibleBound = true) : Goes 0 0 (withBounds [n] bs) := by
  have hname : Goes 0 0 [n] := goes_quiet hn 0
  rw [withBounds]
  split
  · exact hname
  · exact hname.append ((goes_quiet (t := .mark ":") rfl 0).append (goes_boundTokens h))

theorem goes_declaration {p : Parameter} (h : p.isLegible = true) :
    Goes 0 0 (declaration p) ∧ Goes 0 0 (argument p) := by
  cases p with
  | lifetime n bs =>
    rw [Parameter.isLegible, Bool.and_eq_true, decide_eq_true_eq] at h
    exact ⟨goes_withBounds (isQuiet_lifetime h.1) h.2, goes_quiet (isQuiet_lifetime h.1) 0⟩
  | type n bs standard => exact ⟨goes_withBounds rfl h, goes_quiet rfl 0⟩
  | const n t standard =>
    have hname : Goes 0 0 [.word "const", .word n, .mark ":"] :=
      (goes_quiet (t := .word "const") rfl 0).append
        ((goes_quiet (t := .word n) rfl 0).append (goes_quiet (t := .mark ":") rfl 0))
    exact ⟨hname.append (goes_tokensOf carries_type h), goes_quiet rfl 0⟩

theorem goes_predicateTokens {p : Predicate} (h : p.isLegible = true) :
    Goes 0 0 (predicateTokens p) := by
  rw [Predicate.isLegible, Bool.and_eq_true] at h
  exact (goes_tokensOf carries_subject h.1).append
    ((goes_quiet (t := .mark ":") rfl 0).append (goes_boundTokens h.2))

end Code

/-- Parameters and predicates whose texts can be read are complete in themselves. -/
theorem Generics.isSound_of_isLegible {g : Generics} (h : g.isLegible = true) :
    g.isSound = true := by
  rw [Generics.isLegible, Bool.and_eq_true, List.all_eq_true, List.all_eq_true] at h
  rw [Generics.isSound, Bool.and_eq_true, List.all_eq_true, List.all_eq_true]
  refine ⟨fun p hp => ?_, fun p hp => ?_⟩
  · obtain ⟨hdeclaration, hargument⟩ := Code.goes_declaration (h.1 p hp)
    rw [hdeclaration.isWhole, hargument.isWhole]
    rfl
  · exact (Code.goes_predicateTokens (h.2 p hp)).isCondition

/-! ### Headers and the texts they are made of -/

/-- A plain text is written as its lexemes. -/
def Spells (source : String) (ts : List Token) : Prop :=
  allPlain (Lexeme.scan source) = true → Rendered (Lexeme.scan source) ts

/-- Bounds stand one after the other, with plus signs between them. -/
def SpellsBounds (bs : List String) (ts : List Token) : Prop :=
  ∃ tss, ts = Code.separated "+" tss ∧ List.Forall₂ Spells bs tss

/-- A parameter stands there with its name and its texts. -/
inductive Declares : Parameter → Code.Declared → Prop
  | lifetime {n : String} {bs : List String} {ts : List Token} :
    SpellsBounds bs ts → Declares (.lifetime n bs) (.lifetime n ts)
  | type {n : String} {bs : List String} {standard : Option String} {ts : List Token} :
    SpellsBounds bs ts → Declares (.type n bs standard) (.type n ts)
  | const {n t : String} {standard : Option String} {ts : List Token} :
    Spells t ts → Declares (.const n t standard) (.const n ts)

/-- A predicate stands there with its texts. -/
def States (p : Predicate) (ts : List Token) : Prop :=
  ∃ us vs, ts = us ++ .mark ":" :: vs ∧ Spells p.type us ∧ SpellsBounds p.bounds vs

theorem spellsBounds_joinedBounds (bs : List String) : SpellsBounds bs (joinedBounds bs) :=
  ⟨_, rfl, List.forall₂_map_right_iff.mpr (List.forall₂_same.mpr fun _ _ =>
    rendered_tokensOf carries_bounds)⟩

theorem declares_declared (p : Parameter) : Declares p p.declared := by
  cases p with
  | lifetime n bs => exact .lifetime (spellsBounds_joinedBounds bs)
  | type n bs standard => exact .type (spellsBounds_joinedBounds bs)
  | const n t standard => exact .const (rendered_tokensOf carries_type)

end Abridge.Derive

import Abridge.Derive.Code
import Mathlib

/-!
Tokens in angle brackets. The brackets are marks like any other, so what stands between two of them
is found by counting, and a list is taken apart at the commas that stand outside of all brackets.
Tokens whose own brackets match hide nothing of what surrounds them.
-/
namespace Abridge.Derive.Code

/-! ### Counting -/

def isOpening : Token → Bool
  | .mark "<" => true
  | .joint "<" => true
  | _ => false

def isClosing : Token → Bool
  | .mark ">" => true
  | .joint ">" => true
  | _ => false

def isComma : Token → Bool
  | .mark "," => true
  | .joint "," => true
  | _ => false

/-- A dash that the next mark follows without a gap, as in an arrow. -/
def isDash : Token → Bool
  | .joint "-" => true
  | _ => false

/-- How many brackets are open, and whether a dash has just been passed. -/
structure Nest where
  depth : Nat
  dashed : Bool
  deriving DecidableEq

namespace Nest

def outside : Nest := ⟨0, false⟩

/-- Behind one more token, unless it closes a bracket that is not open. -/
def past (s : Nest) (t : Token) : Option Nest :=
  -- behind a dash the mark is the head of an arrow
  if isClosing t && !s.dashed then
    if s.depth = 0 then none else some ⟨s.depth - 1, false⟩
  else if isOpening t then some ⟨s.depth + 1, false⟩
  else some ⟨s.depth, isDash t⟩

end Nest

/-- What stands before the first token outside of brackets where `stop` holds, given the token after
it, and what stands from there on. -/
def upTo (stop : Token → Option Token → Bool) : Nest → List Token →
    Option (List Token × List Token)
  | _, [] => none
  | s, t :: ts =>
    if s = .outside ∧ stop t ts.head? = true then some ([], t :: ts)
    else do
      let s ← s.past t
      let (front, rest) ← upTo stop s ts
      return (t :: front, rest)

/-- Do the brackets match, and does `stop` hold nowhere outside them? The token `next` follows. -/
def passes (stop : Token → Option Token → Bool) (next : Option Token) : Nest → List Token → Bool
  | s, [] => s = .outside
  | s, t :: ts =>
    !(s = .outside && stop t (ts.head?.or next)) && (s.past t).any fun s => passes stop next s ts

variable {stop : Token → Option Token → Bool} {next : Option Token} {s : Nest}

theorem passes_cons {t : Token} {ts : List Token} : passes stop next s (t :: ts) = true ↔
    ¬ (s = .outside ∧ stop t (ts.head?.or next) = true) ∧
      ∃ s', s.past t = some s' ∧ passes stop next s' ts = true := by
  rw [passes, Bool.and_eq_true, Bool.not_eq_true', ← Bool.not_eq_true, Bool.and_eq_true,
    decide_eq_true_eq]
  cases s.past t <;> simp

theorem upTo_append {ts : List Token} {u : Token} {us : List Token}
    (h : passes stop (some u) s ts = true) (hstop : stop u us.head? = true) :
    upTo stop s (ts ++ u :: us) = some (ts, u :: us) := by
  induction ts generalizing s with
  | nil =>
    rw [passes, decide_eq_true_eq] at h
    rw [List.nil_append, upTo, if_pos ⟨h, hstop⟩]
  | cons t ts ih =>
    obtain ⟨hno, s', hs', hts⟩ := passes_cons.mp h
    have hhead : (ts ++ u :: us).head? = ts.head?.or (some u) := by cases ts <;> rfl
    rw [List.cons_append, upTo, hhead, if_neg hno, hs']
    simp only [Option.bind_eq_bind, Option.bind_some, ih hts]
    rfl

theorem passes_append {ts us : List Token} (hts : passes stop (us.head?.or next) s ts = true)
    (hus : passes stop next .outside us = true) : passes stop next s (ts ++ us) = true := by
  induction ts generalizing s with
  | nil =>
    rw [passes, decide_eq_true_eq] at hts
    rw [List.nil_append, hts]
    exact hus
  | cons t ts ih =>
    obtain ⟨hno, s', hs', hts⟩ := passes_cons.mp hts
    have hhead : (ts ++ us).head?.or next = ts.head?.or (us.head?.or next) := by cases ts <;> rfl
    rw [List.cons_append, passes_cons, hhead]
    exact ⟨hno, s', hs', ih hts⟩

/-- Where brackets match, none is closed that is not open. -/
theorem passes_isClosing {next' : Option Token} {ts : List Token}
    (h : passes stop next s ts = true) : passes (fun t _ => isClosing t) next' s ts = true := by
  induction ts generalizing s with
  | nil => exact h
  | cons t ts ih =>
    obtain ⟨-, s', hs', hts⟩ := passes_cons.mp h
    refine passes_cons.mpr ⟨?_, s', hs', ih hts⟩
    rintro ⟨rfl, hclosing⟩
    rw [Nest.past, hclosing] at hs'
    cases hs'

/-- Only what follows the last token depends on the token behind all others. -/
theorem passes_congr {next' : Option Token} (h : ∀ t, stop t next = stop t next')
    {ts : List Token} : passes stop next s ts = passes stop next' s ts := by
  induction ts generalizing s with
  | nil => rfl
  | cons t ts ih =>
    have hstop : stop t (ts.head?.or next) = stop t (ts.head?.or next') := by
      cases ts with
      | nil => exact h t
      | cons u us => rfl
    simp only [passes, hstop, ih]

/-- What passes part by part does so as a list, if the commas do. -/
theorem passes_separated (hcomma : ∀ next, passes stop next .outside [.mark ","] = true)
    (hnext : ∀ t, stop t next = stop t (some (.mark ","))) : ∀ {ps : List (List Token)},
    (∀ p ∈ ps, passes stop (some (.mark ",")) .outside p = true) →
      passes stop next .outside (separated "," ps) = true
  | [], _ => rfl
  | [p], h => by
    rw [separated, passes_congr hnext]
    exact h p List.mem_cons_self
  | p :: q :: ps, h => by
    have hrest := passes_separated hcomma hnext fun r hr => h r (List.mem_cons_of_mem _ hr)
    rw [separated]
    exact passes_append (h p List.mem_cons_self) (passes_append (hcomma _) hrest)

/-! ### Lists with commas -/

/-- The parts between commas outside of brackets: the first one and all others. -/
def pieces : Nest → List Token → Option (List Token × List (List Token))
  | s, [] => if s = .outside then some ([], []) else none
  | s, t :: ts =>
    if s = .outside ∧ isComma t = true then
      (pieces .outside ts).map fun ps => ([], ps.1 :: ps.2)
    else do
      let s ← s.past t
      let (p, ps) ← pieces s ts
      return (t :: p, ps)

/-- The parts of a list. The last comma may have nothing behind it. -/
def readList (ts : List Token) : Option (List (List Token)) :=
  (pieces .outside ts).map fun ps =>
    if ((ps.1 :: ps.2).getLast?.any List.isEmpty) then (ps.1 :: ps.2).dropLast else ps.1 :: ps.2

/-- Brackets match, and no comma stands outside of them. -/
def isWhole (ts : List Token) : Bool := passes (fun t _ => isComma t) none .outside ts

theorem pieces_append {ts : List Token} (h : passes (fun t _ => isComma t) next s ts = true)
    (us : List Token) : pieces s (ts ++ .mark "," :: us) =
      (pieces .outside us).map fun ps => (ts, ps.1 :: ps.2) := by
  induction ts generalizing s with
  | nil =>
    rw [passes, decide_eq_true_eq] at h
    rw [List.nil_append, pieces, if_pos ⟨h, rfl⟩]
  | cons t ts ih =>
    obtain ⟨hno, s', hs', hts⟩ := passes_cons.mp h
    rw [List.cons_append, pieces, if_neg hno, hs']
    simp only [Option.bind_eq_bind, Option.bind_some, ih hts]
    cases pieces .outside us <;> rfl

theorem pieces_of_passes {ts : List Token} (h : passes (fun t _ => isComma t) next s ts = true) :
    pieces s ts = some (ts, []) := by
  induction ts generalizing s with
  | nil =>
    rw [passes, decide_eq_true_eq] at h
    rw [pieces, if_pos h]
  | cons t ts ih =>
    obtain ⟨hno, s', hs', hts⟩ := passes_cons.mp h
    rw [pieces, if_neg hno, hs']
    simp only [Option.bind_eq_bind, Option.bind_some, ih hts]
    rfl

theorem pieces_separated : ∀ (p : List Token) (ps : List (List Token)),
    (∀ q ∈ p :: ps, isWhole q = true) → pieces .outside (separated "," (p :: ps)) = some (p, ps)
  | p, [], h => pieces_of_passes (h p List.mem_cons_self)
  | p, q :: ps, h => by
    have hrest := pieces_separated q ps fun r hr => h r (List.mem_cons_of_mem _ hr)
    rw [separated, pieces_append (h p List.mem_cons_self), hrest]
    rfl

/-- Parts that are separated by commas are read one by one. -/
theorem readList_separated {ps : List (List Token)}
    (h : ∀ p ∈ ps, isWhole p = true ∧ p.isEmpty = false) :
    readList (separated "," ps) = some ps := by
  cases ps with
  | nil => rfl
  | cons p ps =>
    have hlast : (p :: ps).getLast?.any List.isEmpty = false := by
      rw [List.getLast?_eq_some_getLast (List.cons_ne_nil p ps), Option.any_some]
      exact (h _ (List.getLast_mem _)).2
    rw [readList, pieces_separated p ps fun q hq => (h q hq).1, Option.map_some, hlast]
    rfl

/-! ### Lifetimes in front -/

section Listed

open Token

/-- Each entry that another one follows has its comma. -/
def Separated (es : List Listed) : Prop := es.Pairwise fun e _ => e.comma = true

/-- The last entry may have a comma too; an empty part is then left behind it. -/
theorem pieces_flatMap_all {es : List Listed} (hcommas : Separated es)
    (h : ∀ e ∈ es, isWhole e.tokens = true) : ∃ p ps,
      pieces .outside (es.flatMap Listed.all) = some (p, ps) ∧
        p :: ps = es.map Listed.tokens ++ if es.getLast?.all (·.comma) then [[]] else [] := by
  induction es with
  | nil => exact ⟨[], [], rfl, rfl⟩
  | cons e es ih =>
    obtain ⟨hfirst, hlater⟩ := List.pairwise_cons.mp hcommas
    obtain ⟨p, ps, hpieces, hps⟩ := ih hlater fun f hf => h f (List.mem_cons_of_mem _ hf)
    have he := h e List.mem_cons_self
    cases hcomma : e.comma with
    | true =>
      refine ⟨e.tokens, p :: ps, ?_, ?_⟩
      · rw [List.flatMap_cons, Listed.all, hcomma, if_pos rfl, List.append_assoc,
          List.singleton_append, pieces_append he, hpieces]
        rfl
      · rw [hps, List.map_cons, List.cons_append]
        cases es with
        | nil => simp [hcomma]
        | cons f es => rfl
    | false =>
      cases es with
      | nil =>
        refine ⟨e.tokens, [], ?_, by simp [hcomma]⟩
        rw [List.flatMap_cons, Listed.all, hcomma]
        simpa using pieces_of_passes he
      | cons f es =>
        rw [hfirst f List.mem_cons_self] at hcomma
        cases hcomma

theorem readList_flatMap_all {es : List Listed} (hcommas : Separated es)
    (h : ∀ e ∈ es, isWhole e.tokens = true ∧ e.tokens.isEmpty = false) :
    readList (es.flatMap Listed.all) = some (es.map Listed.tokens) := by
  obtain ⟨p, ps, hpieces, hps⟩ := pieces_flatMap_all hcommas fun e he => (h e he).1
  rw [readList, hpieces, Option.map_some, hps]
  cases hlast : es.getLast? with
  | none => simp
  | some e =>
    have he := (h e (List.mem_of_getLast? hlast)).2
    cases hcomma : e.comma <;> simp [hlast, hcomma, he]

/-- An entry with a comma behind it. -/
def followed (e : Listed) : Listed := { e with comma := true }

theorem flatMap_followed {es : List Listed} (hcommas : Separated es) :
    es.flatMap Listed.all ++ (if es.getLast?.any (!·.comma) then [.mark ","] else []) =
      (es.map followed).flatMap Listed.all := by
  induction es with
  | nil => rfl
  | cons e es ih =>
    obtain ⟨hfirst, hlater⟩ := List.pairwise_cons.mp hcommas
    cases es with
    | nil => cases hcomma : e.comma <;> simp [hcomma, Listed.all, followed]
    | cons f es =>
      have hall : (followed e).all = e.all := by
        rw [Listed.all, Listed.all, hfirst f List.mem_cons_self]
        rfl
      have hlast : (e :: f :: es).getLast? = (f :: es).getLast? := List.getLast?_cons_cons
      calc (e :: f :: es).flatMap Listed.all ++ (if (e :: f :: es).getLast?.any (!·.comma) then
              [.mark ","] else [])
        _ = e.all ++ ((f :: es).flatMap Listed.all ++ if (f :: es).getLast?.any (!·.comma) then
              [.mark ","] else []) := by rw [hlast, List.flatMap_cons, List.append_assoc]
        _ = ((e :: f :: es).map followed).flatMap Listed.all := by rw [ih hlater, ← hall]; rfl

theorem passes_flatMap_all {es : List Listed} (h : ∀ e ∈ es, isWhole e.tokens = true) :
    passes (fun t _ => isClosing t) next .outside (es.flatMap Listed.all) = true := by
  induction es with
  | nil => rfl
  | cons e es ih =>
    have hrest := ih fun f hf => h f (List.mem_cons_of_mem _ hf)
    have he {next' : Option Token} :
        passes (fun t _ => isClosing t) next' .outside e.tokens = true :=
      passes_isClosing (h e List.mem_cons_self)
    rw [List.flatMap_cons, Listed.all]
    split
    · exact passes_append (passes_append he rfl) hrest
    · rw [List.append_nil]
      exact passes_append he hrest

/-- Lifetimes in front, and all others behind them, each with the comma that it needs. -/
theorem lifetimesFirst_eq {es : List Listed} (hcommas : Separated es) : ∃ es',
    lifetimesFirst es = es'.flatMap Listed.all ∧ Separated es' ∧
      es'.map Listed.tokens =
        (es.filter (·.isLifetime) ++ es.filter (!·.isLifetime)).map Listed.tokens := by
  have hlifetimes : Separated (es.filter (·.isLifetime)) := hcommas.filter _
  have hothers : Separated (es.filter (!·.isLifetime)) := hcommas.filter _
  rw [lifetimesFirst]
  cases hempty : (es.filter (!·.isLifetime)).isEmpty with
  | true =>
    refine ⟨es.filter (·.isLifetime), ?_, hlifetimes, ?_⟩
    · rw [List.isEmpty_iff.mp hempty]
      simp
    · rw [List.isEmpty_iff.mp hempty, List.append_nil]
  | false =>
    -- only the last lifetime can lack its comma, and gets it here
    refine ⟨(es.filter (·.isLifetime)).map followed ++ es.filter (!·.isLifetime), ?_, ?_, ?_⟩
    · rw [List.flatMap_append, ← flatMap_followed hlifetimes]
      rfl
    · refine List.pairwise_append.mpr ⟨?_, hothers, ?_⟩
      · exact List.pairwise_map.mpr (hlifetimes.imp fun _ => rfl)
      · rintro e he f -
        obtain ⟨e', -, rfl⟩ := List.mem_map.mp he
        rfl
    · rw [List.map_append, List.map_append, List.map_map]
      rfl

/-- A list with the lifetimes in front is read so, and it ends where it is closed. -/
theorem readList_lifetimesFirst {es : List Listed} (hcommas : Separated es)
    (h : ∀ e ∈ es, isWhole e.tokens = true ∧ e.tokens.isEmpty = false) :
    readList (lifetimesFirst es) =
        some ((es.filter (·.isLifetime) ++ es.filter (!·.isLifetime)).map Listed.tokens) ∧
      passes (fun t _ => isClosing t) next .outside (lifetimesFirst es) = true := by
  obtain ⟨es', hes', hcommas', htokens⟩ := lifetimesFirst_eq hcommas
  have h' : ∀ e ∈ es', isWhole e.tokens = true ∧ e.tokens.isEmpty = false := by
    intro e he
    have hmem : e.tokens ∈ es'.map Listed.tokens := List.mem_map_of_mem he
    rw [htokens] at hmem
    obtain ⟨f, hf, hfe⟩ := List.mem_map.mp hmem
    rw [← hfe]
    rcases List.mem_append.mp hf with hf | hf
    · exact h f (List.mem_of_mem_filter hf)
    · exact h f (List.mem_of_mem_filter hf)
  rw [hes', readList_flatMap_all hcommas' h', htokens]
  exact ⟨rfl, passes_flatMap_all fun e he => (h' e he).1⟩

end Listed

end Abridge.Derive.Code

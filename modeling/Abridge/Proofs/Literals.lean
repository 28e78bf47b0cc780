import Abridge.Derive.Syntax.Reading
import Abridge.Proofs.Ascii
import Mathlib

/-!
Literals that are written out and read again: a text in quotation marks stands for itself, and a
whole number is one literal behind its sign.
-/
namespace Abridge.Derive

/-! ### Digits -/

/-- What holds of the ten digits holds of every digit. -/
theorem forall_isDigit {P : Char → Prop} (h : ∀ n < 10, P (Char.ofNat (48 + n))) {c : Char}
    (hc : c.isDigit = true) : P c := by
  obtain ⟨hlow, hhigh⟩ := Text.isDigit_iff.mp hc
  have hP := h (c.toNat - 48) (by omega)
  rwa [Nat.add_sub_cancel' hlow, Char.ofNat_toNat] at hP

namespace Literal

theorem ne_of_mem_toDigits {b n : Nat} (hb : 1 < b) {c d : Char} (hd : ∀ k : Nat, k.digitChar ≠ d)
    (hc : c ∈ Nat.toDigits b n) : c ≠ d := by
  induction n using Nat.strong_induction_on with
  | _ n ih =>
    rcases Nat.lt_or_ge n b with hn | hn
    · rw [Nat.toDigits_of_lt_base hn, List.mem_singleton] at hc
      exact hc ▸ hd _
    · rw [Nat.toDigits_of_base_le hb hn, List.mem_append, List.mem_singleton] at hc
      rcases hc with hc | rfl
      · exact ih _ (Nat.div_lt_self (by omega) hb) hc
      · exact hd _

/-- The digits of a number stand for it. -/
theorem foldl_toDigits {b : Nat} (hb : 1 < b) (hb' : b ≤ 16) (n : Nat) :
    (Nat.toDigits b n).foldl (fun n c => n * b + hexValue c) 0 = n := by
  have hvalue : ∀ d < 16, hexValue d.digitChar = d := by decide
  induction n using Nat.strong_induction_on with
  | _ n ih =>
    rcases Nat.lt_or_ge n b with hn | hn
    · rw [Nat.toDigits_of_lt_base hn, List.foldl_cons, List.foldl_nil, hvalue n (by omega),
        Nat.zero_mul, Nat.zero_add]
    · have hmod : n % b < b := Nat.mod_lt _ (by omega)
      rw [Nat.toDigits_of_base_le hb hn, List.foldl_append,
        ih _ (Nat.div_lt_self (by omega) hb), List.foldl_cons, List.foldl_nil,
        hvalue _ (by omega), Nat.mul_comm, Nat.div_add_mod]

/-- There are no gaps between the digits of a number. -/
theorem filter_toDigits {b : Nat} (hb : 1 < b) (n : Nat) :
    (Nat.toDigits b n).filter (· ≠ '_') = Nat.toDigits b n :=
  List.filter_eq_self.mpr fun _ hc => decide_eq_true
    (ne_of_mem_toDigits hb (fun _ => Nat.digitChar_ne _ (by decide)) hc)

theorem hexNumber_toDigits (n : Nat) : hexNumber (Nat.toDigits 16 n) = n := by
  rw [hexNumber, filter_toDigits (by decide), foldl_toDigits (by decide) (by decide)]

/-! ### Text literals

The inside of a literal is read back one character of the text at a time.
-/

theorem unescape_plain {c : Char} (hslash : c ≠ '\\') (hreturn : c ≠ '\r') (hquote : c ≠ '"')
    (n : Nat) (rest : List Char) : unescape (n + 1) (c :: rest) = c :: unescape n rest := by
  rw [unescape.eq_def]
  split <;> simp_all

theorem unescape_simple {c : Char} (hx : c ≠ 'x') (hu : c ≠ 'u') (hline : c ≠ '\n' ∧ c ≠ '\r')
    (n : Nat) (rest : List Char) :
    unescape (n + 1) ('\\' :: c :: rest) = simpleEscape c :: unescape n rest := by
  rw [unescape.eq_def]
  split
  · simp_all
  · simp_all
  · simp_all
  · simp_all
  · simp_all
  · simp_all
  · rename_i hno _ hn hcs
    obtain ⟨hslash, hrest⟩ := List.cons.inj hcs
    exact (hno c rest hslash.symm hrest.symm).elim

theorem unescape_numbered (c : Char) (n : Nat) (rest : List Char) :
    unescape (n + 1) (Text.numbered c ++ rest) = c :: unescape n rest := by
  have hhex : Text.hex 1 c.toNat = Nat.toDigits 16 c.toNat := by
    have hlength := List.length_pos_of_ne_nil (Nat.toDigits_ne_nil (n := c.toNat) (b := 16))
    rw [Text.hex, Nat.sub_eq_zero_of_le hlength]
    rfl
  have hdigits : ∀ d ∈ Nat.toDigits 16 c.toNat, decide (d ≠ '\x7d') = true := fun d hd =>
    decide_eq_true (ne_of_mem_toDigits (by decide) (fun _ => Nat.digitChar_ne _ (by decide)) hd)
  rw [Text.numbered, hhex]
  simp only [List.cons_append, List.nil_append, List.append_assoc, unescape, List.drop_succ_cons,
    List.drop_zero]
  rw [List.takeWhile_append_of_pos hdigits, List.takeWhile_cons_of_neg (by decide),
    List.append_nil, hexNumber_toDigits, Char.ofNat_toNat, List.dropWhile_cons_of_pos (by decide),
    List.dropWhile_append_of_pos hdigits, List.dropWhile_cons_of_neg (by decide)]
  rfl

theorem unescape_inspectEscape (c : Char) (n : Nat) (rest : List Char) :
    unescape (n + 1) (Text.inspectEscape c ++ rest) = c :: unescape n rest := by
  have simple : ∀ {d : Char}, d ≠ 'x' → d ≠ 'u' → d ≠ '\n' ∧ d ≠ '\r' → simpleEscape d = c →
      unescape (n + 1) (['\\', d] ++ rest) = c :: unescape n rest := by
    rintro d hx hu hline rfl
    exact unescape_simple hx hu hline n rest
  rw [Text.inspectEscape]
  split_ifs with hnul htab hreturn hline hslash hquote hshown
  · exact simple (by decide) (by decide) (by decide) hnul.symm
  · exact simple (by decide) (by decide) (by decide) htab.symm
  · exact simple (by decide) (by decide) (by decide) hreturn.symm
  · exact simple (by decide) (by decide) (by decide) hline.symm
  · exact simple (by decide) (by decide) (by decide) hslash.symm
  · exact simple (by decide) (by decide) (by decide) hquote.symm
  · exact unescape_numbered c n rest
  · exact unescape_plain hslash hreturn hquote n rest

theorem unescape_literalBody : ∀ (cs : List Char) (n : Nat), (Text.literalBody cs).length < n →
    unescape n (Text.literalBody cs ++ ['"']) = cs
  | [], n + 1, _ => rfl
  | c :: cs, n + 1, h => by
    rw [Text.literalBody] at h ⊢
    rw [List.append_assoc]
    split at h
    · rename_i hnul
      rw [if_pos hnul, hnul.1]
      have hrest := unescape_literalBody cs n (by simp at h; omega)
      exact congrArg ('\x00' :: ·) hrest
    · rename_i hnul
      have hpiece : 0 < (Text.inspectEscape c).length := by
        rw [Text.inspectEscape]
        split_ifs <;> simp [Text.numbered]
      rw [List.length_append] at h
      rw [if_neg hnul, unescape_inspectEscape, unescape_literalBody cs n (by omega)]

/-- A text in quotation marks stands for itself. -/
theorem ofSource_literalQuoted (s : String) : ofSource (Text.literalQuoted s) = .text s := by
  have hlength : (Text.literalBody s.toList).length < (Text.literalQuoted s).length := by
    rw [Text.literalQuoted, String.length_ofList, List.length_cons, List.length_append]
    omega
  have hlist : (Text.literalQuoted s).toList = '"' :: (Text.literalBody s.toList ++ ['"']) := by
    rw [Text.literalQuoted, String.toList_ofList]
  simp only [ofSource, hlist]
  rw [unescape_literalBody _ _ hlength, String.ofList_toList]

/-! ### Numbers -/

theorem ofNumber_ne_text (cs : List Char) (t : String) : ofNumber cs ≠ .text t := by
  rw [ofNumber.eq_def]
  split
  · simp
  · simp
  · simp
  · split <;> simp

/-- A literal that begins with a digit is no text. -/
theorem ofSource_ne_text {s : String} (hs : s.toList.head?.any Char.isDigit = true) (t : String) :
    ofSource s ≠ .text t := by
  rw [ofSource]
  split
  · simp_all
  · simp_all
  · simp_all
  · simp_all
  · simp_all
  · simp_all
  · exact ofNumber_ne_text _ t

/-- Does a character end the digits in front of it, and mark no other base? -/
def endsDigits (c : Char) : Bool := !(c.isDigit || c = '_') && !"xob".toList.contains c

theorem baseAndDigits_digits {c : Char} {cs rest : List Char} (h : ∀ d ∈ c :: cs, d.isDigit = true)
    (hrest : rest.head?.all endsDigits = true) :
    baseAndDigits (c :: cs ++ rest) = (10, c :: cs ++ rest) := by
  have hsecond {a d : Char} {ds : List Char} (hd : endsDigits d = false)
      (hd' : d.isDigit = false) : c :: cs ++ rest ≠ a :: d :: ds := by
    intro heq
    cases cs with
    | nil =>
      obtain rfl := (List.cons.inj heq).2
      rw [List.head?_cons, Option.all_some, hd] at hrest
      cases hrest
    | cons e es =>
      obtain rfl := (List.cons.inj (List.cons.inj heq).2).1
      rw [h e (by simp)] at hd'
      cases hd'
  rw [baseAndDigits.eq_def]
  split
  · exact absurd ‹_› (hsecond (by decide) (by decide))
  · exact absurd ‹_› (hsecond (by decide) (by decide))
  · exact absurd ‹_› (hsecond (by decide) (by decide))
  · rfl

/-- A whole number is read back with what follows its digits. -/
theorem wholeNumber_toString (n : Nat) {suffix : String}
    (h : suffix.toList.head?.all endsDigits = true) :
    wholeNumber (toString n ++ suffix) = (n, suffix) := by
  have htext : (toString n ++ suffix).toList = Nat.toDigits 10 n ++ suffix.toList := by
    rw [String.toList_append, Nat.toString_eq_repr, Nat.repr_eq_ofList_toDigits,
      String.toList_ofList]
  have hdigits : ∀ c ∈ Nat.toDigits 10 n, c.isDigit = true := fun c hc =>
    Nat.isDigit_of_mem_toDigits (by decide) (by decide) hc
  have hbase : baseAndDigits (Nat.toDigits 10 n ++ suffix.toList) =
      (10, Nat.toDigits 10 n ++ suffix.toList) := by
    obtain ⟨c, cs, hcs⟩ := List.exists_cons_of_ne_nil (Nat.toDigits_ne_nil (n := n) (b := 10))
    rw [hcs] at hdigits ⊢
    exact baseAndDigits_digits hdigits h
  have hstart : ∀ c ∈ Nat.toDigits 10 n, (c.isDigit || c = '_') = true := fun c hc => by
    rw [hdigits c hc, Bool.true_or]
  have hend : suffix.toList.takeWhile (fun c => c.isDigit || c = '_') = [] ∧
      suffix.toList.dropWhile (fun c => c.isDigit || c = '_') = suffix.toList := by
    cases hs : suffix.toList with
    | nil => exact ⟨rfl, rfl⟩
    | cons c cs =>
      rw [hs, List.head?_cons, Option.all_some, endsDigits, Bool.and_eq_true,
        Bool.not_eq_true', ← Bool.not_eq_true] at h
      exact ⟨List.takeWhile_cons_of_neg h.1, List.dropWhile_cons_of_neg h.1⟩
  have hbases : decide (10 = 16) = false := rfl
  simp only [wholeNumber, htext, hbase, hbases, Bool.false_and, Bool.or_false]
  rw [List.takeWhile_append_of_pos hstart, List.dropWhile_append_of_pos hstart, hend.1, hend.2,
    List.append_nil, filter_toDigits (by decide), foldl_toDigits (by decide) (by decide),
    String.ofList_toList]

end Literal

namespace Lexeme

theorem number_digits {cs : List Char} (h : ∀ c ∈ cs, c.isDigit = true) : number cs = (cs, []) := by
  have hdigit : ∀ c ∈ cs, isDigitOrUnderscore c = true := fun c hc =>
    forall_isDigit (P := (isDigitOrUnderscore · = true)) (by decide) (h c hc)
  have hword : ∀ c ∈ cs, isWordChar c = true := fun c hc =>
    forall_isDigit (P := (isWordChar · = true)) (by decide) (h c hc)
  have hfloat : float? cs = none := by
    simp [float?, List.takeWhile_eq_self_iff.mpr hdigit, List.dropWhile_eq_nil_iff.mpr hdigit]
  rw [number, hfloat, List.takeWhile_eq_self_iff.mpr hword, List.dropWhile_eq_nil_iff.mpr hword]

theorem leaf_digits {c : Char} {cs : List Char} (h : ∀ d ∈ c :: cs, d.isDigit = true) :
    leaf c cs = (.literal (String.ofList (c :: cs)), []) := by
  have hc : c.isDigit = true := h c List.mem_cons_self
  have hliteral : literal? (c :: cs) = some (c :: cs, []) := by
    rw [literal?.eq_def]
    split <;> simp_all [number_digits]
  rw [leaf, hliteral]

/-- Digits are one literal. -/
theorem scanFrom_digits {c : Char} {cs : List Char} (h : ∀ d ∈ c :: cs, d.isDigit = true) (n : Nat)
    (acc : List Lexeme) : (scanFrom (n + 1) acc (c :: cs)).1 =
      acc.reverse ++ [.literal (String.ofList (c :: cs))] := by
  have hc : c.isDigit = true := h c List.mem_cons_self
  have hslash : c ≠ '/' := forall_isDigit (P := (· ≠ '/')) (by decide) hc
  have hgap : isGap c = false := forall_isDigit (P := (isGap · = false)) (by decide) hc
  have hbracket : bracket? c = none := by
    rw [bracket?.eq_def]
    split <;> simp_all
  rw [scanFrom.eq_def]
  simp [hslash, hgap, hbracket, leaf_digits h]
  cases n <;> simp [scanFrom]

theorem leaf_minus {c : Char} (hc : c.isDigit = true) (cs : List Char) :
    leaf '-' (c :: cs) = (.mark '-' false, c :: cs) := by
  have hmark : markFollows (c :: cs) = false := by
    have hslash : c ≠ '/' := forall_isDigit (P := (· ≠ '/')) (by decide) hc
    have hnone : isMarkChar c = false := forall_isDigit (P := (isMarkChar · = false)) (by decide) hc
    rw [markFollows.eq_def]
    split <;> simp_all
  have hliteral : literal? ('-' :: c :: cs) = none := rfl
  rw [leaf, hliteral, hmark]
  rfl

theorem scanFrom_minus {c : Char} (hc : c.isDigit = true) (cs : List Char) (n : Nat)
    (acc : List Lexeme) : scanFrom (n + 1) acc ('-' :: c :: cs) =
      scanFrom n (.mark '-' false :: acc) (c :: cs) := by
  have hgap : isGap '-' = false := by decide
  have hbracket : bracket? '-' = none := rfl
  rw [scanFrom.eq_def]
  simp [hgap, hbracket, leaf_minus hc]

/-- A whole number is one literal, behind its sign if it has one. -/
theorem scan_int (z : Int) : ∃ s, Syntax.isNumber s = true ∧
    (scan (toString z) = [.literal s] ∨ scan (toString z) = [.mark '-' false, .literal s]) := by
  have digits (n : Nat) : ∃ c cs, n.repr.toList = c :: cs ∧ ∀ d ∈ c :: cs, d.isDigit = true := by
    obtain ⟨c, cs, hcs⟩ := List.exists_cons_of_ne_nil (Nat.toDigits_ne_nil (n := n) (b := 10))
    refine ⟨c, cs, by rw [Nat.repr_eq_ofList_toDigits, String.toList_ofList, hcs], fun d hd => ?_⟩
    exact Nat.isDigit_of_mem_toDigits (by decide) (by decide) (hcs ▸ hd)
  have number {c : Char} {cs : List Char} (h : ∀ d ∈ c :: cs, d.isDigit = true) :
      Syntax.isNumber (String.ofList (c :: cs)) = true := by
    rw [Syntax.isNumber, String.toList_ofList]
    exact h c List.mem_cons_self
  cases z with
  | ofNat n =>
    obtain ⟨c, cs, hcs, hdigits⟩ := digits n
    refine ⟨_, number hdigits, Or.inl ?_⟩
    have htext : (toString (Int.ofNat n)).toList = c :: cs := hcs
    rw [scan, htext, scanFrom_digits hdigits]
    rfl
  | negSucc n =>
    obtain ⟨c, cs, hcs, hdigits⟩ := digits (n + 1)
    refine ⟨_, number hdigits, Or.inr ?_⟩
    have hrepr : toString (Int.negSucc n) = "-" ++ (n + 1).repr := String.toByteArray_inj.mp rfl
    have htext : (toString (Int.negSucc n)).toList = '-' :: c :: cs := by
      rw [hrepr, String.toList_append, hcs]
      rfl
    have hlength : (toString (Int.negSucc n)).length = cs.length + 2 := by
      rw [← String.length_toList, htext]
      rfl
    rw [scan, htext, hlength, scanFrom_minus (hdigits c List.mem_cons_self),
      scanFrom_digits hdigits]
    rfl

end Lexeme

end Abridge.Derive

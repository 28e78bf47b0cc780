import Abridge.Proofs.Document
import Abridge.Proofs.Texts

/-!
JSON texts can be read in one way only. The text of a part ends where it ends, whatever follows: a
string at the first quotation mark that is not escaped, a number before the first character that is
no digit, an array or object at its own bracket. So no content of a string or key is ever taken for
structure, and trees without floats and complex numbers have the same text only if they are the same
but for the sign that integers are kept with.
-/
namespace Abridge

namespace Text

/-! ### Strings -/

/-- The characters that stand for another one behind a backslash. -/
def shortcuts : List Char := ['"', '\\', 'b', 'f', 'n', 'r', 't']

/-- What a shortcut stands for. -/
def unescaped : Char → Char
  | 'b' => '\x08'
  | 'f' => '\x0c'
  | 'n' => '\n'
  | 'r' => '\r'
  | 't' => '\t'
  | c => c

theorem jsonEscape_unescaped : ∀ e ∈ shortcuts, jsonEscape (unescaped e) = ['\\', e] := by
  simp [shortcuts, unescaped, jsonEscape]

/-- How a character is written: as it is, by a shortcut, or by its number. -/
inductive Escaped : Char → List Char → Prop
  | plain {c} : c ≠ '"' → c ≠ '\\' → Escaped c [c]
  | short {c e} : e ∈ shortcuts → unescaped e = c → Escaped c ['\\', e]
  | numbered {c} : c.toNat < 32 → Escaped c ('\\' :: 'u' :: hex 4 c.toNat)

theorem escaped_jsonEscape (c : Char) : Escaped c (jsonEscape c) := by
  by_cases hc : c ∈ shortcuts.map unescaped
  · obtain ⟨e, he, rfl⟩ := List.mem_map.mp hc
    rw [jsonEscape_unescaped e he]
    exact .short he rfl
  · change c ∉ ['"', '\\', '\x08', '\x0c', '\n', '\r', '\t'] at hc
    simp only [List.mem_cons, List.not_mem_nil, or_false, not_or] at hc
    simp only [jsonEscape, hc, if_false]
    split
    · exact .numbered ‹_›
    · exact .plain hc.1 hc.2.1

theorem hex_four : ∀ n < 32,
    hex 4 n = ['0', '0', Nat.digitChar (n / 16), Nat.digitChar (n % 16)] := by
  decide

theorem digitChar_inj : ∀ m < 16, ∀ n < 16, Nat.digitChar m = Nat.digitChar n → m = n := by
  decide

/-- The number of a control character ends after four digits, the last two of which tell it. -/
theorem hex_four_inj {m n : Nat} (hm : m < 32) (hn : n < 32) {r s : List Char}
    (h : hex 4 m ++ r = hex 4 n ++ s) : m = n ∧ r = s := by
  rw [hex_four m hm, hex_four n hn] at h
  simp only [List.cons_append, List.nil_append, List.cons.injEq, true_and] at h
  obtain ⟨hhigh, hlow, hrs⟩ := h
  have hdiv := digitChar_inj _ (by omega) _ (by omega) hhigh
  have hmod := digitChar_inj _ (by omega) _ (by omega) hlow
  exact ⟨by omega, hrs⟩

/-- The first character of a text that is written out is told, and where it ends. -/
theorem Escaped.append_inj {c d : Char} {ws us r s : List Char} (hc : Escaped c ws)
    (hd : Escaped d us) (h : ws ++ r = us ++ s) : c = d ∧ r = s := by
  cases hc with
  | plain hq hb =>
    cases hd with
    | plain => exact List.cons.inj h
    | short | numbered => exact absurd (List.cons.inj h).1 hb
  | short he hc =>
    cases hd with
    | plain hq hb => exact absurd (List.cons.inj h).1.symm hb
    | short _ hd =>
      obtain ⟨heq, hrs⟩ := List.cons.inj (List.cons.inj h).2
      exact ⟨by rw [← hc, ← hd, heq], hrs⟩
    | numbered =>
      rw [(List.cons.inj (List.cons.inj h).2).1] at he
      exact absurd he (by decide)
  | numbered hm =>
    cases hd with
    | plain hq hb => exact absurd (List.cons.inj h).1.symm hb
    | short he =>
      rw [← (List.cons.inj (List.cons.inj h).2).1] at he
      exact absurd he (by decide)
    | numbered hn =>
      obtain ⟨hnat, hrs⟩ := hex_four_inj hm hn (List.cons.inj (List.cons.inj h).2).2
      exact ⟨Char.toNat_inj.mp hnat, hrs⟩

theorem Escaped.ne_quote {c : Char} {ws r s : List Char} (hc : Escaped c ws) :
    ws ++ r ≠ '"' :: s := by
  intro h
  cases hc with
  | plain hq => exact hq (List.cons.inj h).1
  | short | numbered => exact absurd (List.cons.inj h).1 (by decide)

theorem escapes_inj {cs ds r s : List Char}
    (h : cs.flatMap jsonEscape ++ '"' :: r = ds.flatMap jsonEscape ++ '"' :: s) :
    cs = ds ∧ r = s := by
  induction cs generalizing ds with
  | nil =>
    cases ds with
    | nil => exact ⟨rfl, (List.cons.inj h).2⟩
    | cons d ds =>
      rw [List.flatMap_cons, List.append_assoc] at h
      exact absurd h.symm (escaped_jsonEscape d).ne_quote
  | cons c cs ih =>
    cases ds with
    | nil =>
      rw [List.flatMap_cons, List.append_assoc] at h
      exact absurd h (escaped_jsonEscape c).ne_quote
    | cons d ds =>
      rw [List.flatMap_cons, List.flatMap_cons, List.append_assoc, List.append_assoc] at h
      obtain ⟨rfl, hrest⟩ := (escaped_jsonEscape c).append_inj (escaped_jsonEscape d) h
      obtain ⟨rfl, hrs⟩ := ih hrest
      exact ⟨rfl, hrs⟩

/-- A string ends at its own quotation mark, whatever it holds. -/
theorem jsonQuoted_inj {a b : String} {r s : List Char}
    (h : jsonQuoted a.toList ++ r = jsonQuoted b.toList ++ s) : a = b ∧ r = s := by
  rw [jsonQuoted, jsonQuoted, List.cons_append, List.cons_append, List.append_assoc,
    List.append_assoc] at h
  obtain ⟨hab, hrs⟩ := escapes_inj (List.cons.inj h).2
  exact ⟨String.toList_inj.mp hab, hrs⟩

/-! ### Numbers -/

/-- No digit stands in front. -/
def Stops (r : List Char) : Prop := ∀ c ∈ r.head?, c.isDigit = false

theorem takeWhile_of_stops {r : List Char} (h : Stops r) : r.takeWhile Char.isDigit = [] := by
  cases r with
  | nil => rfl
  | cons c r => rw [List.takeWhile_cons_of_neg (by simp [h c rfl])]

theorem isDigit_of_toDigits_eq_cons {n : Nat} {c : Char} {cs : List Char}
    (h : Nat.toDigits 10 n = c :: cs) : c.isDigit = true :=
  Nat.isDigit_of_mem_toDigits (by decide) (by decide) (h ▸ List.mem_cons_self)

theorem takeWhile_toDigits (n : Nat) {r : List Char} (h : Stops r) :
    (Nat.toDigits 10 n ++ r).takeWhile Char.isDigit = Nat.toDigits 10 n := by
  rw [List.takeWhile_append_of_pos, takeWhile_of_stops h, List.append_nil]
  exact fun c hc => Nat.isDigit_of_mem_toDigits (by decide) (by decide) hc

theorem toDigits_inj {m n : Nat} {r s : List Char} (hr : Stops r) (hs : Stops s)
    (h : Nat.toDigits 10 m ++ r = Nat.toDigits 10 n ++ s) : m = n ∧ r = s := by
  have hdigits : Nat.toDigits 10 m = Nat.toDigits 10 n := by
    rw [← takeWhile_toDigits m hr, h, takeWhile_toDigits n hs]
  refine ⟨?_, List.append_cancel_left (hdigits ▸ h)⟩
  rw [← Nat.ofDigitChars_ten_toDigits (n := m), hdigits, Nat.ofDigitChars_ten_toDigits]

theorem stops_cons {c : Char} (h : c.isDigit = false) (r : List Char) : Stops (c :: r) := by
  intro d hd
  cases hd
  exact h

/-- In front of what ends a number, the text of `x` is not that of another `y`, and ends where that
of `y` would. -/
def Told {α : Type} (write : α → List Char) (ok : α → Prop) (x : α) : Prop :=
  ∀ y r s, ok y → Stops r → Stops s → write x ++ r = write y ++ s → x = y ∧ r = s

/-! ### Lists -/

section Lists

variable {α : Type} (write : α → List Char)

/-- Texts with commas between them. -/
def commas : List α → List Char
  | [] => []
  | [x] => write x
  | x :: y :: rest => write x ++ ',' :: commas (y :: rest)

/-- What follows an element of a list: the end, or a comma and the others. -/
def onward (close : Char) (r : List Char) : List α → List Char
  | [] => close :: r
  | x :: xs => ',' :: (commas write (x :: xs) ++ close :: r)

theorem commas_cons (x : α) (xs : List α) (close : Char) (r : List Char) :
    commas write (x :: xs) ++ close :: r = write x ++ onward write close r xs := by
  cases xs with
  | nil => rfl
  | cons y xs => rw [commas, List.append_assoc, List.cons_append, onward]

variable {write} {ok : α → Prop} {close : Char}

theorem stops_onward (hclose : close.isDigit = false) (r : List Char) (xs : List α) :
    Stops (onward write close r xs) := by
  cases xs with
  | nil => exact stops_cons hclose r
  | cons => exact stops_cons (by decide) _

/-- A list is told if its elements are, and none begins with the bracket at its end. -/
theorem commas_inj (hdigit : close.isDigit = false) (hcomma : close ≠ ',')
    (hopen : ∀ y, ok y → ∀ r s, write y ++ r ≠ close :: s) {xs ys : List α}
    (hxs : ∀ x ∈ xs, ok x ∧ Told write ok x) (hys : ∀ y ∈ ys, ok y) {r s : List Char}
    (h : commas write xs ++ close :: r = commas write ys ++ close :: s) : xs = ys ∧ r = s := by
  induction xs generalizing ys with
  | nil =>
    cases ys with
    | nil => exact ⟨rfl, (List.cons.inj h).2⟩
    | cons y ys =>
      rw [commas_cons] at h
      exact absurd h.symm (hopen y (hys y List.mem_cons_self) _ _)
  | cons x xs ih =>
    obtain ⟨hx, htold⟩ := hxs x List.mem_cons_self
    cases ys with
    | nil =>
      rw [commas_cons] at h
      exact absurd h (hopen x hx _ _)
    | cons y ys =>
      rw [commas_cons, commas_cons] at h
      obtain ⟨rfl, hmore⟩ := htold y _ _ (hys y List.mem_cons_self) (stops_onward hdigit r xs)
        (stops_onward hdigit s ys) h
      -- the elements that follow end the lists together, or stand behind a comma in both
      cases xs with
      | nil =>
        cases ys with
        | nil => exact ⟨rfl, (List.cons.inj hmore).2⟩
        | cons => exact absurd (List.cons.inj hmore).1 hcomma
      | cons x' xs =>
        cases ys with
        | nil => exact absurd (List.cons.inj hmore).1.symm hcomma
        | cons y' ys =>
          obtain ⟨hlist, hrs⟩ := ih (fun z hz => hxs z (List.mem_cons_of_mem _ hz))
            (fun z hz => hys z (List.mem_cons_of_mem _ hz)) (List.cons.inj hmore).2
          exact ⟨by rw [hlist], hrs⟩

end Lists

end Text

/-! ### Documents -/

namespace Json

/-- A document without floats. -/
inductive Whole : Json → Prop
  | null : Whole .null
  | bool {b} : Whole (.bool b)
  | integer {z} : Whole (.integer z)
  | text {s} : Whole (.text s)
  | array {xs} : (∀ x ∈ xs, Whole x) → Whole (.array xs)
  | object {es} : (∀ w ∈ es, Whole w.2) → Whole (.object es)

inductive Kind where | null | bool | number | text | array | object

def kind : Json → Kind
  | .null => .null
  | .bool _ => .bool
  | .integer _ => .number
  | .float _ => .number
  | .text _ => .text
  | .array _ => .array
  | .object _ => .object

/-- The kind of document whose text begins so. -/
def kindOf : Char → Option Kind
  | 'n' => some .null
  | 't' => some .bool
  | 'f' => some .bool
  | '"' => some .text
  | '[' => some .array
  | '\x7b' => some .object
  | '-' => some .number
  | c => if c.isDigit then some .number else none

theorem kindOf_digit {c : Char} (h : c.isDigit = true) : kindOf c = some .number := by
  rw [kindOf, if_pos h] <;> rintro rfl <;> cases h

theorem kindOf_integerText {z : Int} {c : Char} {cs : List Char} (h : integerText z = c :: cs) :
    kindOf c = some .number := by
  rw [integerText] at h
  split at h
  · cases h
    rfl
  · exact kindOf_digit (Text.isDigit_of_toDigits_eq_cons h)

/-- The first character of a text tells the kind of document. -/
theorem Whole.kindOf_head {d : Json} (hd : d.Whole) {c : Char} {r s : List Char}
    (h : d.chars ++ r = c :: s) : kindOf c = some d.kind := by
  obtain ⟨c', cs, hc⟩ := List.exists_cons_of_ne_nil d.chars_ne_nil
  rw [hc] at h
  obtain rfl := (List.cons.inj h).1
  cases hd with
  | bool =>
    rename_i b
    cases b <;> cases hc <;> rfl
  | integer => exact kindOf_integerText hc
  | _ => cases hc; rfl

theorem Whole.chars_ne_close {d : Json} (hd : d.Whole) {r s : List Char} :
    d.chars ++ r ≠ ']' :: s := by
  intro h
  have hkind : none = some d.kind := hd.kindOf_head h
  cases hkind

theorem Whole.kind_eq {d e : Json} (hd : d.Whole) (he : e.Whole) {r s : List Char}
    (h : d.chars ++ r = e.chars ++ s) : d.kind = e.kind := by
  obtain ⟨c, cs, hc⟩ := List.exists_cons_of_ne_nil e.chars_ne_nil
  have hdc : d.chars ++ r = c :: (cs ++ s) := by rw [h, hc, List.cons_append]
  have hec : e.chars ++ s = c :: (cs ++ s) := by rw [hc, List.cons_append]
  exact Option.some.inj ((hd.kindOf_head hdc).symm.trans (he.kindOf_head hec))

/-- Integers are told in front of what ends a number. -/
theorem integerText_inj {y z : Int} {r s : List Char} (hr : Text.Stops r) (hs : Text.Stops s)
    (h : integerText y ++ r = integerText z ++ s) : y = z ∧ r = s := by
  have minus : ∀ {n : Nat} {t u : List Char}, Nat.toDigits 10 n ++ t ≠ '-' :: u := by
    intro n t u h
    obtain ⟨c, cs, hc⟩ := List.exists_cons_of_ne_nil (Nat.toDigits_ne_nil (n := n) (b := 10))
    have hdigit := Text.isDigit_of_toDigits_eq_cons hc
    rw [hc] at h
    rw [(List.cons.inj h).1] at hdigit
    cases hdigit
  rw [integerText, integerText] at h
  split at h <;> split at h
  · obtain ⟨habs, hrs⟩ := Text.toDigits_inj hr hs (List.cons.inj h).2
    exact ⟨by omega, hrs⟩
  · exact absurd h.symm minus
  · exact absurd h minus
  · obtain ⟨hnat, hrs⟩ := Text.toDigits_inj hr hs h
    exact ⟨by omega, hrs⟩

theorem itemChars_eq_commas (xs : List Json) : itemChars xs = Text.commas chars xs := by
  induction xs with
  | nil => rfl
  | cons x xs ih =>
    cases xs with
    | nil => rfl
    | cons => rw [itemChars, ih, Text.commas]

def memberText (w : String × Json) : List Char := Text.jsonQuoted w.1.toList ++ ':' :: w.2.chars

theorem memberChars_eq_commas (es : List (String × Json)) :
    memberChars es = Text.commas memberText es := by
  induction es with
  | nil => rfl
  | cons w es ih =>
    cases es with
    | nil => rfl
    | cons => rw [memberChars, ih, Text.commas, memberText, List.append_assoc, List.cons_append]

theorem memberText_ne_close {w : String × Json} {r s : List Char} :
    memberText w ++ r ≠ '\x7d' :: s := by
  intro h
  cases (List.cons.inj h).1

/-- A member is told if its value is. -/
theorem told_memberText {w : String × Json} (hw : Text.Told chars Whole w.2) :
    Text.Told memberText (fun w => w.2.Whole) w := by
  intro y r s hy hr hs h
  rw [memberText, memberText, List.append_assoc, List.append_assoc] at h
  obtain ⟨hkey, hrest⟩ := Text.jsonQuoted_inj h
  obtain ⟨hvalue, hrs⟩ := hw y.2 r s hy hr hs (List.cons.inj hrest).2
  exact ⟨Prod.ext hkey hvalue, hrs⟩

/-- Documents without floats are told, whatever stands in their texts and keys. -/
theorem Whole.told {d : Json} (hd : d.Whole) : Text.Told chars Whole d := by
  -- the first character leaves `e` no other kind than that of the document
  induction hd with
  | null =>
    intro e r s he _ _ h
    have hkind := null.kind_eq he h
    cases he with
    | null => exact ⟨rfl, List.append_cancel_left h⟩
    | _ => cases hkind
  | @bool b =>
    intro e r s he _ _ h
    have hkind := bool.kind_eq he h
    cases he with
    | @bool c =>
      cases b <;> cases c
      · exact ⟨rfl, List.append_cancel_left h⟩
      · cases (List.cons.inj h).1
      · cases (List.cons.inj h).1
      · exact ⟨rfl, List.append_cancel_left h⟩
    | _ => cases hkind
  | integer =>
    intro e r s he hr hs h
    have hkind := integer.kind_eq he h
    cases he with
    | integer =>
      obtain ⟨rfl, hrs⟩ := integerText_inj hr hs h
      exact ⟨rfl, hrs⟩
    | _ => cases hkind
  | text =>
    intro e r s he _ _ h
    have hkind := text.kind_eq he h
    cases he with
    | text =>
      obtain ⟨rfl, hrs⟩ := Text.jsonQuoted_inj h
      exact ⟨rfl, hrs⟩
    | _ => cases hkind
  | @array xs hxs ih =>
    intro e r s he _ _ h
    have hkind := (array hxs).kind_eq he h
    cases he with
    | @array ys hys =>
      simp only [chars, List.cons_append, List.append_assoc, itemChars_eq_commas] at h
      obtain ⟨rfl, hrs⟩ := Text.commas_inj (by decide) (by decide)
        (fun _ hy _ _ => hy.chars_ne_close)
        (fun x hx => ⟨hxs x hx, ih x hx⟩) hys (List.cons.inj h).2
      exact ⟨rfl, hrs⟩
    | _ => cases hkind
  | @object es hes ih =>
    intro e r s he _ _ h
    have hkind := (object hes).kind_eq he h
    cases he with
    | @object fs hfs =>
      simp only [chars, List.cons_append, List.append_assoc, memberChars_eq_commas] at h
      obtain ⟨rfl, hrs⟩ := Text.commas_inj (by decide) (by decide)
        (fun _ _ _ _ => memberText_ne_close)
        (fun w hw => ⟨hes w hw, told_memberText (ih w hw)⟩) hfs (List.cons.inj h).2
      exact ⟨rfl, hrs⟩
    | _ => cases hkind

/-- Documents without floats have different texts. -/
theorem Whole.render_inj {d e : Json} (hd : d.Whole) (he : e.Whole) (h : d.render = e.render) :
    d = e := by
  have hchars : d.chars = e.chars := String.ofList_injective h
  have stops_nil : Text.Stops [] := fun _ hc => nomatch hc
  exact (hd.told e [] [] he stops_nil stops_nil (congrArg (· ++ []) hchars)).1

end Json

/-! ### Trees -/

namespace Tree

mutual

/-- Is the tree without floats and complex numbers? -/
def exact : Tree → Bool
  | .float _ => false
  | .complex _ => false
  | .seq ts => exactItems ts
  | .map es => exactEntries es
  | _ => true

def exactItems : List Tree → Bool
  | [] => true
  | t :: ts => exact t && exactItems ts

def exactEntries : List (String × Tree) → Bool
  | [] => true
  | (_, t) :: es => exact t && exactEntries es

end

mutual

/-- The tree with a sign to all its integers. -/
def signed : Tree → Tree
  | .uint n => .int n
  | .seq ts => .seq (signedItems ts)
  | .map es => .map (signedEntries es)
  | t => t

def signedItems : List Tree → List Tree
  | [] => []
  | t :: ts => signed t :: signedItems ts

def signedEntries : List (String × Tree) → List (String × Tree)
  | [] => []
  | (k, t) :: es => (k, signed t) :: signedEntries es

end

mutual

/-- A document does not say how an integer was kept. -/
theorem document_signed : ∀ t : Tree, t.signed.document = t.document
  | .null | .bool _ | .int _ | .uint _ | .float _ | .complex _ | .text _ => rfl
  | .seq ts => by rw [signed, document, document, itemDocuments_signedItems ts]
  | .map es => by rw [signed, document, document, entryDocuments_signedEntries es]

theorem itemDocuments_signedItems : ∀ ts : List Tree,
    itemDocuments (signedItems ts) = itemDocuments ts
  | [] => rfl
  | t :: ts => by
    rw [signedItems, itemDocuments, itemDocuments, document_signed t, itemDocuments_signedItems ts]

theorem entryDocuments_signedEntries : ∀ es : List (String × Tree),
    entryDocuments (signedEntries es) = entryDocuments es
  | [] => rfl
  | (k, t) :: es => by
    rw [signedEntries, entryDocuments, entryDocuments, document_signed t,
      entryDocuments_signedEntries es]

end

theorem signed_tree_integer (z : Int) : (Json.integer z).tree.signed = .int z := by
  rw [Json.tree]
  split
  · rfl
  · rw [signed, Int.toNat_of_nonneg (by omega)]

mutual

/-- All of an exact tree is in its document but how its integers were kept. -/
theorem document_of_exact : ∀ {t : Tree}, t.exact = true →
    ∃ d, t.document = .ok d ∧ d.Whole ∧ d.tree.signed = t.signed
  | .null, _ => ⟨_, rfl, .null, rfl⟩
  | .bool _, _ => ⟨_, rfl, .bool, rfl⟩
  | .int z, _ => ⟨_, rfl, .integer, signed_tree_integer z⟩
  | .uint n, _ => ⟨_, rfl, .integer, signed_tree_integer n⟩
  | .text _, _ => ⟨_, rfl, .text, rfl⟩
  | .seq ts, h => by
    obtain ⟨ds, hds, hwhole, htrees⟩ := @itemDocuments_of_exact ts h
    refine ⟨.array ds, by rw [document, hds, Except.map], .array hwhole, ?_⟩
    rw [Json.tree, signed, signed, htrees]
  | .map es, h => by
    obtain ⟨ds, hds, hwhole, htrees⟩ := @entryDocuments_of_exact es h
    refine ⟨.object ds, by rw [document, hds, Except.map], .object hwhole, ?_⟩
    rw [Json.tree, signed, signed, htrees]

theorem itemDocuments_of_exact : ∀ {ts : List Tree}, exactItems ts = true →
    ∃ ds, itemDocuments ts = .ok ds ∧ (∀ d ∈ ds, d.Whole) ∧
      signedItems (Json.itemTrees ds) = signedItems ts
  | [], _ => ⟨[], rfl, by simp, rfl⟩
  | t :: ts, h => by
    obtain ⟨ht, hts⟩ := Bool.and_eq_true_iff.mp h
    obtain ⟨d, hd, hwhole, htree⟩ := document_of_exact ht
    obtain ⟨ds, hds, hwholes, htrees⟩ := itemDocuments_of_exact hts
    refine ⟨d :: ds, by rw [itemDocuments, hd, hds]; rfl,
      List.forall_mem_cons.mpr ⟨hwhole, hwholes⟩, ?_⟩
    rw [Json.itemTrees, signedItems, signedItems, htree, htrees]

theorem entryDocuments_of_exact : ∀ {es : List (String × Tree)}, exactEntries es = true →
    ∃ ds, entryDocuments es = .ok ds ∧ (∀ w ∈ ds, w.2.Whole) ∧
      signedEntries (Json.memberTrees ds) = signedEntries es
  | [], _ => ⟨[], rfl, by simp, rfl⟩
  | (k, t) :: es, h => by
    obtain ⟨ht, hes⟩ := Bool.and_eq_true_iff.mp h
    obtain ⟨d, hd, hwhole, htree⟩ := document_of_exact ht
    obtain ⟨ds, hds, hwholes, htrees⟩ := entryDocuments_of_exact hes
    refine ⟨(k, d) :: ds, by rw [entryDocuments, hd, hds]; rfl,
      List.forall_mem_cons.mpr ⟨hwhole, hwholes⟩, ?_⟩
    rw [Json.memberTrees, signedEntries, signedEntries, htree, htrees]

end

theorem json_of_document {t : Tree} {d : Json} (h : t.document = .ok d) :
    t.json = .ok d.render := by
  rw [json, h, Except.map]

end Tree

/-- No string and no key forges structure: two trees without floats and complex numbers have JSON
texts, and these are the same exactly if the trees are the same but for the sign that integers are
kept with. -/
theorem same_text_iff {a b : Tree} (ha : a.exact = true) (hb : b.exact = true) :
    ∃ s t, (a.json = .ok s ∧ a.display = s) ∧ (b.json = .ok t ∧ b.display = t) ∧
      (s = t ↔ a.signed = b.signed) := by
  obtain ⟨d, hd, hdWhole, hdTree⟩ := Tree.document_of_exact ha
  obtain ⟨e, he, heWhole, heTree⟩ := Tree.document_of_exact hb
  have hs := Tree.json_of_document hd
  have ht := Tree.json_of_document he
  refine ⟨d.render, e.render, ⟨hs, Tree.display_of_json hs⟩, ⟨ht, Tree.display_of_json ht⟩, ?_⟩
  constructor
  · intro h
    rw [← hdTree, hdWhole.render_inj heWhole h, heTree]
  · intro h
    have hdocument : a.document = b.document := by
      rw [← Tree.document_signed a, h, Tree.document_signed b]
    cases hd.symm.trans (hdocument.trans he)
    rfl

/-- A text that holds what would end it and begin a second entry. -/
theorem same_text_iff_forged :
    (Tree.map [("a", .text "1\",\"b\":\"2")]).exact = true ∧
    (Tree.map [("a", .text "1"), ("b", .text "2")]).exact = true ∧
    (Tree.map [("a", .text "1\",\"b\":\"2")]).display ≠
      (Tree.map [("a", .text "1"), ("b", .text "2")]).display := by
  refine ⟨rfl, rfl, ?_⟩
  obtain ⟨s, t, ⟨-, hs⟩, ⟨-, ht⟩, hsame⟩ := same_text_iff
    (a := .map [("a", .text "1\",\"b\":\"2")]) (b := .map [("a", .text "1"), ("b", .text "2")])
    rfl rfl
  rw [hs, ht, ne_eq, hsame]
  simp [Tree.signed, Tree.signedEntries]

end Abridge

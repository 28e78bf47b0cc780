import Abridge.Derive.Serializer.Keys
import Abridge.Proofs.Literals
import Abridge.Proofs.Values

/-!
Items of attributes one by one. An item is a key with a value, with a list or with nothing behind
it; whether it is taken as the entry that it stands for or read as source text, it can be passed
over or not for the same reasons.
-/
namespace Abridge.Derive

/-! ### Keys -/

namespace Syntax

/-- Words behind double colons, as they are joined to the words before them. -/
def segmentsText? : List Lexeme → Option String
  | [] => some ""
  | .mark ':' true :: .mark ':' _ :: .word w :: ls => (segmentsText? ls).map ("::" ++ w ++ ·)
  | _ => none

/-- The key that lexemes are, if they are one. -/
def keyText? : List Lexeme → Option String
  | [] => none
  | .word w :: ls => (segmentsText? ls).map (w ++ ·)
  | ls => segmentsText? ls

end Syntax

/-- Is this a key, and one that is written as it is? -/
def isKey (k : String) : Bool := Syntax.keyText? (Lexeme.scan k) = some k

/-! ### Literals -/

/-- This is a literal. A number may have a sign. -/
def IsLiteral (source : String) : Prop :=
  ∃ l ts, Syntax.literal? (Lexeme.scan source) = some (l, ts, [])

/-- A text literal in front, and what follows it. -/
def leadingText? : List Lexeme → Option (String × List Lexeme)
  | .literal s :: ls =>
    match Literal.ofSource s with
    | .text t => some (t, ls)
    | _ => none
  | _ => none

/-! ### Expressions -/

/-- This is a value: wherever it ends its item, it is read as an expression up to its end. -/
def IsValue (source : String) : Prop :=
  ∀ n behind, 2 * Lexeme.sizeAll (Lexeme.scan source) + 2 ≤ n → Syntax.Ends behind →
    Syntax.Reads (Syntax.anyExpression (Syntax.grammar n)) (Lexeme.scan source ++ behind) () behind

/-- This is no value: whatever follows its item, no expression is read, or one is that something
else than a comma follows. -/
def NoValue (source : String) : Prop :=
  ∀ n behind, 2 * Lexeme.sizeAll (Lexeme.scan source) + 2 ≤ n → Syntax.Ends behind →
    Syntax.Stuck (Syntax.anyExpression (Syntax.grammar n)) (Lexeme.scan source ++ behind)

/-- What values begin with that are given here: a literal or a path. -/
def isPlainValue (ls : List Lexeme) : Bool :=
  Syntax.isPath ls ||
    match Syntax.literal? ls with
    | some (_, _, []) => true
    | _ => false

theorem reads_plainValue {ls behind : List Lexeme} (h : isPlainValue ls = true)
    (hbehind : Syntax.Halts behind) {n : Nat} (hn : 2 ≤ n) :
    Syntax.Reads (Syntax.anyExpression (Syntax.grammar n)) (ls ++ behind) () behind := by
  obtain ⟨n, rfl⟩ := Nat.exists_eq_add_of_le' hn
  rw [isPlainValue, Bool.or_eq_true] at h
  rcases h with h | h
  · exact Syntax.reads_anyExpression_path (n + 1) h hbehind
  · split at h
    · exact Syntax.reads_anyExpression_literal n (Syntax.literal?_append ‹_› behind) hbehind
    · cases h

/-- Literals and paths are values. -/
theorem isValue_of_isPlainValue {source : String}
    (h : isPlainValue (Lexeme.scan source) = true) : IsValue source :=
  fun _ _ hn hends => reads_plainValue h hends.halts (by omega)

/-- A value must not be missing. -/
theorem noValue_empty : NoValue "" :=
  fun n _ _ hends => .inl (Syntax.refuses_anyExpression n hends)

/-- Behind a value, only a comma may follow. -/
theorem noValue_of_followed {source : String} {ls after : List Lexeme}
    (hscan : Lexeme.scan source = ls ++ after) (h : isPlainValue ls = true)
    (hafter : ∀ behind, Syntax.Halts (after ++ behind)) (hne : after ≠ [])
    (hcomma : ∀ behind, Syntax.sees "," (after ++ behind) = false) : NoValue source := by
  intro n behind hn _
  rw [hscan, List.append_assoc]
  exact .inr ⟨(), _, reads_plainValue h (hafter behind) (by omega),
    List.append_ne_nil_of_left_ne_nil hne _, hcomma behind⟩

/-- A value is read or it is not. -/
theorem IsValue.not_noValue {source : String} (h : IsValue source) : ¬ NoValue source := by
  intro hno
  have hread := h _ [] (Nat.le_refl _) .nothing
  rcases hno _ [] (Nat.le_refl _) .nothing with hrefuses | ⟨_, ls, hread', hne, _⟩
  · exact hread.not_refuses hrefuses
  · exact hne (hread'.behind_unique hread)

theorem isValue_of_isLiteral {source : String} (h : IsLiteral source) : IsValue source := by
  obtain ⟨l, ts, h⟩ := h
  refine isValue_of_isPlainValue ?_
  rw [isPlainValue, h, Bool.or_true]

/-! ### Items that can be passed over -/

/-- A key alone, with a value, or with a list of such items that is not empty; `V` holds for what
counts as a value of source text. -/
inductive Item.Ordinary (V : String → Prop) : Item → Prop
  | word {k : String} : isKey k = true → Ordinary V (.word k)
  | text {k : String} (s : String) : isKey k = true → Ordinary V (.text k s)
  | int {k : String} (z : Int) : isKey k = true → Ordinary V (.int k z)
  | bool {k : String} (b : Bool) : isKey k = true → Ordinary V (.bool k b)
  | value {k source : String} : isKey k = true → V source → Ordinary V (.expr k source)
  | list {k : String} {items : List Item} : isKey k = true → items ≠ [] →
    (∀ i ∈ items, i.Ordinary V) → Ordinary V (.list k items)

/-- A text alone, a key without the value that it is given, or with a list that is empty or in which
there is such an item. -/
inductive Item.Refused : Item → Prop
  | lone (s : String) : Refused (.lone s)
  | value {k source : String} : isKey k = true → NoValue source → Refused (.expr k source)
  | none {k : String} : isKey k = true → Refused (.list k [])
  | list {k : String} {before : List Item} {i : Item} {after : List Item} : isKey k = true →
    (∀ j ∈ before, j.Ordinary IsValue) → i.Refused → Refused (.list k (before ++ i :: after))

theorem Item.Ordinary.mono {V W : String → Prop} (hVW : ∀ source, V source → W source) {i : Item}
    (h : i.Ordinary V) : i.Ordinary W := by
  induction h with
  | word hkey => exact .word hkey
  | text s hkey => exact .text s hkey
  | int z hkey => exact .int z hkey
  | bool b hkey => exact .bool b hkey
  | value hkey hsource => exact .value hkey (hVW _ hsource)
  | list hkey hne _ ih => exact .list hkey hne ih

theorem Item.eq_lone_of_key? {i : Item} (h : i.key? = none) : ∃ s, i = .lone s := by
  cases i <;> cases h
  exact ⟨_, rfl⟩

theorem Item.Ordinary.exists_key {V : String → Prop} {i : Item} (h : i.Ordinary V) :
    ∃ k, i.key? = some k ∧ isKey k = true := by
  cases h <;> exact ⟨_, rfl, ‹_›⟩

theorem Item.Ordinary.isKey {V : String → Prop} {i : Item} (h : i.Ordinary V) {k : String}
    (hk : i.key? = some k) : isKey k = true := by
  cases h <;> cases hk <;> assumption

theorem Item.Refused.isKey {i : Item} (h : i.Refused) {k : String} (hk : i.key? = some k) :
    isKey k = true := by
  cases h <;> cases hk <;> assumption

/-! ### As entries -/

/-- What an item is as an entry, if it need not be read first. -/
inductive Item.StandsFor : Item → Entry → Prop
  | lone (s : String) : StandsFor (.lone s) .lone
  | word (k : String) : StandsFor (.word k) (.word k)
  | text (k s : String) : StandsFor (.text k s) (.value k (.literal (.text s)))
  | int (k : String) (z : Int) : StandsFor (.int k z) (.value k (.literal .int))
  | bool (k : String) (b : Bool) : StandsFor (.bool k b) (.value k (.literal (.bool b)))
  | list (k : String) {items : List Item} {es : List Entry} : plainEntries? items = some es →
    StandsFor (.list k items) (.list k es)

theorem Item.standsFor_of_entry? {i : Item} {e : Entry} (h : i.entry? = some e) :
    i.StandsFor e := by
  rw [Item.entry?.eq_def] at h
  split at h
  · cases h
    exact .lone _
  · split at h <;> cases h
    exact .word _
  · split at h <;> cases h
    exact .text _ _
  · split at h <;> cases h
    exact .int _ _
  · split at h <;> cases h
    exact .bool _ _
  · cases h
  · split at h
    · obtain ⟨es, hes, rfl⟩ := Option.map_eq_some_iff.mp h
      exact .list _ hes
    · cases h

theorem plainEntries?_cons {i : Item} {is : List Item} {es : List Entry}
    (h : plainEntries? (i :: is) = some es) :
    ∃ e es', i.StandsFor e ∧ plainEntries? is = some es' ∧ es = e :: es' := by
  rw [plainEntries?] at h
  obtain ⟨e, he, h⟩ := Option.bind_eq_some_iff.mp h
  obtain ⟨es', hes', h⟩ := Option.bind_eq_some_iff.mp h
  exact ⟨e, es', Item.standsFor_of_entry? he, hes', (Option.some.inj h).symm⟩

theorem exists_standsFor {i : Item} {items : List Item} {es : List Entry}
    (h : plainEntries? items = some es) (hi : i ∈ items) : ∃ e ∈ es, i.StandsFor e := by
  induction items generalizing es with
  | nil => cases hi
  | cons j is ih =>
    obtain ⟨e, es', he, hes', rfl⟩ := plainEntries?_cons h
    rcases List.mem_cons.mp hi with rfl | hi
    · exact ⟨e, List.mem_cons_self, he⟩
    · obtain ⟨e', he', hi⟩ := ih hes' hi
      exact ⟨e', List.mem_cons_of_mem _ he', hi⟩

theorem Item.StandsFor.key?_eq {i : Item} {e : Entry} (h : i.StandsFor e) : e.key? = i.key? := by
  cases h <;> rfl

theorem allSkippable_of_forall {items : List Item} {es : List Entry}
    (h : plainEntries? items = some es)
    (hitems : ∀ i ∈ items, ∀ e, i.StandsFor e → e.skippable = true) : allSkippable es = true := by
  induction items generalizing es with
  | nil =>
    cases h
    rfl
  | cons i is ih =>
    obtain ⟨e, es', he, hes', rfl⟩ := plainEntries?_cons h
    rw [allSkippable, hitems i List.mem_cons_self e he,
      ih hes' fun j hj => hitems j (List.mem_cons_of_mem _ hj)]
    rfl

theorem Item.Ordinary.skippable {i : Item} (hi : i.Ordinary IsValue) {e : Entry}
    (h : i.StandsFor e) : e.skippable = true := by
  induction hi generalizing e with
  | word _ => cases h; rfl
  | text s _ => cases h; rfl
  | int z _ => cases h; rfl
  | bool b _ => cases h; rfl
  | value _ _ => cases h
  | @list k items _ hne _ ih =>
    obtain - | - | - | - | - | @⟨_, _, es, hes⟩ := h
    have hskip := allSkippable_of_forall hes fun i hi e he => ih i hi he
    cases items with
    | nil => exact absurd rfl hne
    | cons i is =>
      obtain ⟨e, es', _, _, rfl⟩ := plainEntries?_cons hes
      simpa [Entry.skippable] using hskip

theorem allSkippable_eq_false {e : Entry} {es : List Entry} (he : e ∈ es)
    (h : e.skippable = false) : allSkippable es = false := by
  induction es with
  | nil => cases he
  | cons f es ih =>
    rw [allSkippable]
    rcases List.mem_cons.mp he with rfl | he
    · rw [h, Bool.false_and]
    · rw [ih he, Bool.and_false]

theorem Item.Refused.skippable_eq_false {i : Item} (h : i.Refused) {e : Entry}
    (he : i.StandsFor e) : e.skippable = false := by
  induction h generalizing e with
  | lone s => cases he; rfl
  | value _ _ => cases he
  | none _ =>
    obtain - | - | - | - | - | ⟨_, hes⟩ := he
    cases hes
    rfl
  | @list k before j after _ _ _ ih =>
    obtain - | - | - | - | - | ⟨_, hes⟩ := he
    obtain ⟨f, hf, hj⟩ := exists_standsFor (i := j) hes (by simp)
    rw [Entry.skippable, allSkippable_eq_false hf (ih hj), Bool.and_false]

/-! ### As source text -/

/-- What stands behind the key of an item. -/
def Item.behindKey : Item → List Lexeme
  | .lone _ => []
  | .word _ => []
  | .text _ s => [.mark '=' false, quotedLexeme s]
  | .int _ z => .mark '=' false :: Lexeme.scan (toString z)
  | .bool _ b => [.mark '=' false, .word (toString b)]
  | .expr _ source => .mark '=' false :: Lexeme.scan source
  | .list _ items => [.group .round (itemLexemes items)]

theorem Item.lexemes_eq {i : Item} {k : String} (h : i.key? = some k) :
    i.lexemes = Lexeme.scan k ++ i.behindKey := by
  cases i with
  | lone s => cases h
  | list k items => cases h; rfl
  | word k => cases h; exact (List.append_nil _).symm
  | text k s => cases h; rfl
  | int k z => cases h; rfl
  | bool k b => cases h; rfl
  | expr k source => cases h; rfl

theorem Item.sees_behindKey (i : Item) {behind : List Lexeme} (h : Syntax.Ends behind) :
    Syntax.sees "::" (i.behindKey ++ behind) = false := by
  cases i with
  | lone s => cases h <;> rfl
  | word k => cases h <;> rfl
  | text k s => rfl
  | int k z => rfl
  | bool k b => rfl
  | expr k source => rfl
  | list k items => rfl

namespace Syntax

variable {ls behind : List Lexeme}

theorem reads_keyWord (w : String) (ls : List Lexeme) : Reads keyWord (.word w :: ls) w ls :=
  (reads_rest _).bind ((reads_anyWord w ls).bind (Reads.pure w ls))

theorem reads_segments {t : String} (h : segmentsText? ls = some t)
    (hbehind : sees "::" behind = false) (n : Nat) (hn : ls.length < n) (k : String) : Reads
      (repeated
        (fun k => do
          if ← mark? "::" then return (k ++ "::" ++ (← keyWord), true) else return (k, false))
        n k)
      (ls ++ behind) (k ++ t) behind := by
  induction ls using segmentsText?.induct generalizing t n k with
  | case1 =>
    cases h
    obtain ⟨n, rfl⟩ := Nat.exists_eq_add_one.mpr hn
    rw [String.append_empty]
    exact Reads.repeated_last ((reads_no_mark hbehind).bind (Reads.pure (k, false) behind)) n
  | case2 joint w ls ih =>
    obtain ⟨u, hu, rfl⟩ := Option.map_eq_some_iff.mp h
    obtain ⟨n, rfl⟩ := Nat.exists_eq_add_one.mpr (Nat.zero_lt_of_lt hn)
    have hrest := ih hu n (by simp at hn; omega) (k ++ "::" ++ w)
    rw [String.append_assoc, String.append_assoc] at hrest
    rw [String.append_assoc]
    refine Reads.repeated_more ?_ hrest
    refine (reads_mark? rfl).bind ((reads_keyWord w _).bind ?_)
    rw [String.append_assoc]
    exact Reads.pure (k ++ ("::" ++ w), true) _
  | case3 ls hempty hwords =>
    rw [segmentsText?.eq_3 _ hempty hwords] at h
    cases h

theorem refuses_key (hword : seesAnyWord ls = false) (hmark : sees "::" ls = false) :
    Refuses key ls := by
  refine .of_bind (reads_no_mark hmark) (.bind (.of_bind (reads_rest ls) ?_) _)
  split
  · cases hword
  · exact refuses_missing _ ls

/-- A key is read as it is written. -/
theorem reads_key {k : String} (h : isKey k = true) (hbehind : sees "::" behind = false) :
    Reads key (Lexeme.scan k ++ behind) k behind := by
  rw [isKey, decide_eq_true_eq] at h
  have later {t : String} {ls : List Lexeme} (ht : segmentsText? ls = some t) (w : String) :=
    reads_repeating (reads_segments ht hbehind _
      (show ls.length < (ls ++ behind).length + 1 by simp) w)
  rw [keyText?.eq_def] at h
  split at h
  · cases h
  · rename_i w ls hls
    obtain ⟨t, ht, rfl⟩ := Option.map_eq_some_iff.mp h
    rw [hls]
    refine (reads_no_mark rfl).bind ((reads_keyWord w _).bind ?_)
    exact (congrArg (· ++ t) (String.empty_append (s := w))) ▸ later ht _
  · rename_i hempty hword
    rw [segmentsText?.eq_def] at h
    split at h
    · exact absurd ‹_› hempty
    · rename_i joint w ls hls
      obtain ⟨t, ht, rfl⟩ := Option.map_eq_some_iff.mp h
      rw [hls]
      exact (reads_mark? rfl).bind ((reads_keyWord w _).bind (later ht _))
    · cases h

theorem scan_ne_nil {k : String} (h : isKey k = true) : Lexeme.scan k ≠ [] := by
  intro hnil
  rw [isKey, decide_eq_true_eq, hnil] at h
  cases h

end Syntax

/-- What follows an item, if other items come after it. -/
def onward : List Item → List Lexeme
  | [] => []
  | i :: is => .mark ',' false :: itemLexemes (i :: is)

theorem itemLexemes_cons (i : Item) (is : List Item) :
    itemLexemes (i :: is) = i.lexemes ++ onward is := by
  cases is with
  | nil => rw [itemLexemes, onward, List.append_nil]
  | cons j is => rw [itemLexemes, onward]

theorem ends_onward (is : List Item) : Syntax.Ends (onward is) := by
  cases is with
  | nil => exact .nothing
  | cons i is => exact .comma _

theorem Item.lexemes_ne_nil {i : Item} (h : ∀ k, i.key? = some k → isKey k = true) :
    i.lexemes ≠ [] := by
  cases hk : i.key? with
  | none =>
    obtain ⟨s, rfl⟩ := eq_lone_of_key? hk
    exact List.cons_ne_nil _ _
  | some k =>
    rw [lexemes_eq hk]
    exact List.append_ne_nil_of_left_ne_nil (Syntax.scan_ne_nil (h k hk)) _

theorem itemLexemes_ne_nil {i : Item} (h : ∀ k, i.key? = some k → isKey k = true)
    (is : List Item) : itemLexemes (i :: is) ≠ [] := by
  rw [itemLexemes_cons]
  exact List.append_ne_nil_of_left_ne_nil (Item.lexemes_ne_nil h) _

theorem length_le_length_itemLexemes {before : List Item}
    (h : ∀ i ∈ before, ∀ k, i.key? = some k → isKey k = true) (after : List Item) :
    before.length ≤ (itemLexemes (before ++ after)).length := by
  induction before with
  | nil => exact Nat.zero_le _
  | cons i is ih =>
    have hi := List.length_pos_of_ne_nil (Item.lexemes_ne_nil (h i List.mem_cons_self))
    have his := ih fun j hj => h j (List.mem_cons_of_mem _ hj)
    have honward : ∀ js, (itemLexemes js).length ≤ (onward js).length := by
      intro js
      cases js with
      | nil => exact Nat.zero_le _
      | cons j js => exact Nat.le_succ _
    have hlater := honward (is ++ after)
    rw [List.cons_append, itemLexemes_cons, List.length_append, List.length_cons]
    omega

/-! ### Sizes -/

namespace Lexeme

theorem sizeAll_append (ls ms : List Lexeme) : sizeAll (ls ++ ms) = sizeAll ls + sizeAll ms := by
  induction ls with
  | nil => simp [sizeAll]
  | cons l ls ih => rw [List.cons_append, sizeAll, sizeAll, ih, Nat.add_assoc]

theorem sizeAll_lexemes_le {i : Item} {items : List Item} (hi : i ∈ items) :
    sizeAll i.lexemes ≤ sizeAll (itemLexemes items) := by
  induction items with
  | nil => cases hi
  | cons j is ih =>
    rw [itemLexemes_cons, sizeAll_append]
    rcases List.mem_cons.mp hi with rfl | hi
    · exact Nat.le_add_right _ _
    · have hlater := ih hi
      cases is with
      | nil => cases hi
      | cons j' is =>
        rw [onward, sizeAll]
        omega

theorem sizeAll_behindKey_le (i : Item) : sizeAll i.behindKey ≤ sizeAll i.lexemes := by
  cases hk : i.key? with
  | none =>
    obtain ⟨s, rfl⟩ := Item.eq_lone_of_key? hk
    exact Nat.zero_le _
  | some k =>
    rw [Item.lexemes_eq hk, sizeAll_append]
    exact Nat.le_add_left _ _

end Lexeme

/-! ### Values of items -/

/-- What stands behind the key of an ordinary item that is no list: nothing, or a value. -/
theorem Item.Ordinary.behindKey_cases {i : Item} (h : i.Ordinary IsValue) :
    i.behindKey = [] ∨
      (∃ source, i.behindKey = .mark '=' false :: Lexeme.scan source ∧ IsValue source) ∨
      (∃ l, i.behindKey = [.mark '=' false, l] ∧ isPlainValue [l] = true) ∨
      ∃ k items, i = .list k items := by
  cases h with
  | word _ => exact .inl rfl
  | text s _ => exact .inr (.inr (.inl ⟨_, rfl, rfl⟩))
  | @int k z _ =>
    refine .inr (.inl ⟨toString z, rfl, isValue_of_isPlainValue ?_⟩)
    obtain ⟨s, hs, hscan | hscan⟩ := Lexeme.scan_int z
    · rw [hscan]
      rfl
    · rw [hscan, isPlainValue, Syntax.literal?, if_pos hs]
      rfl
  | bool b _ => cases b <;> exact .inr (.inr (.inl ⟨_, rfl, rfl⟩))
  | value _ hsource => exact .inr (.inl ⟨_, rfl, hsource⟩)
  | list _ _ _ => exact .inr (.inr (.inr ⟨_, _, rfl⟩))

/-- A value is read up to where its item ends, with levels enough for its lexemes. -/
theorem IsValue.reads_behind {source : String} (h : IsValue source) {m : Nat}
    (hm : Lexeme.sizeAll (.mark '=' false :: Lexeme.scan source) ≤ m) {behind : List Lexeme}
    (hends : Syntax.Ends behind) : Syntax.Reads
      (Syntax.anyExpression (Syntax.grammar (2 * m + 2))) (Lexeme.scan source ++ behind)
      () behind := by
  rw [Lexeme.sizeAll] at hm
  exact h _ behind (by omega) hends

/-! ### Several items -/

namespace SerializerKeys

open Syntax

variable {α : Type} {p : α → String → Parse α}

/-- A step reads an item with its comma, whatever comes after it. -/
def Takes (p : α → String → Parse α) (i : Item) (f : α → α) : Prop :=
  ∀ a behind, Ends behind → Reads (key >>= p a) (i.lexemes ++ behind) (f a) behind

/-- A step does not come to the end of an item, whatever comes after it. -/
def Stops (p : α → String → Parse α) (i : Item) : Prop :=
  ∀ a behind, Ends behind → Stuck (key >>= p a) (i.lexemes ++ behind)

/-- Behind an item: its comma, and whether another item follows. -/
def closing (a : α) : Parse (α × Bool) := do
  if ← atEnd then return (a, false)
  mark ","
  return (a, !(← atEnd))

theorem itemwise_eq (p : α → String → Parse α) (a : α) :
    itemwise p a = repeating (fun a => (key >>= p a) >>= closing) a := by
  simp only [bind_assoc]
  rfl

theorem reads_closing_last (a : α) : Reads (closing a) [] (a, false) [] :=
  (reads_atEnd []).bind (Reads.pure (a, false) [])

theorem reads_closing_comma {ls : List Lexeme} (h : ls ≠ []) (a : α) :
    Reads (closing a) (.mark ',' false :: ls) (a, true) ls := by
  refine (reads_atEnd _).bind ((reads_mark rfl).bind ((reads_atEnd ls).bind ?_))
  rw [List.isEmpty_eq_false_iff.mpr h]
  exact Reads.pure (a, true) ls

theorem refuses_closing {ls : List Lexeme} (h : ls ≠ []) (hcomma : sees "," ls = false) (a : α) :
    Refuses (closing a) ls := by
  refine .of_bind (reads_atEnd ls) ?_
  rw [List.isEmpty_eq_false_iff.mpr h]
  exact (refuses_mark hcomma).bind _

variable {f : Item → α → α}

theorem reads_itemwise {items : List Item} (hne : items ≠ [])
    (hkey : ∀ i ∈ items, ∀ k, i.key? = some k → isKey k = true)
    (h : ∀ i ∈ items, Takes p i (f i)) (a : α) :
    Reads (itemwise p a) (itemLexemes items) (items.foldl (fun a i => f i a) a) [] := by
  rw [itemwise_eq]
  refine reads_repeating ?_
  suffices hn : ∀ n, items.length ≤ n → Reads
      (repeated (fun a => (key >>= p a) >>= closing) n a) (itemLexemes items)
      (items.foldl (fun a i => f i a) a) [] by
    have hlength := length_le_length_itemLexemes hkey []
    rw [List.append_nil] at hlength
    exact hn _ (Nat.le_succ_of_le hlength)
  induction items generalizing a with
  | nil => exact absurd rfl hne
  | cons i is ih =>
    intro n hn
    obtain ⟨n, rfl⟩ := Nat.exists_eq_add_one.mpr (Nat.zero_lt_of_lt hn)
    have hi := h i List.mem_cons_self a (onward is) (ends_onward is)
    rw [itemLexemes_cons, List.foldl_cons]
    cases is with
    | nil => exact Reads.repeated_last (hi.bind (reads_closing_last _)) n
    | cons j is =>
      have hj := itemLexemes_ne_nil (hkey j (List.mem_cons_of_mem _ List.mem_cons_self)) is
      refine Reads.repeated_more (hi.bind (reads_closing_comma hj _)) ?_
      exact ih (List.cons_ne_nil j is) (fun i hi => hkey i (List.mem_cons_of_mem _ hi))
        (fun i hi => h i (List.mem_cons_of_mem _ hi)) _ n (Nat.le_of_succ_le_succ hn)

theorem refuses_itemwise {before : List Item} {i : Item}
    (hkey : ∀ j ∈ before ++ [i], ∀ k, j.key? = some k → isKey k = true)
    (h : ∀ j ∈ before, Takes p j (f j)) (hi : Stops p i) (after : List Item) (a : α) :
    Refuses (itemwise p a) (itemLexemes (before ++ i :: after)) := by
  rw [itemwise_eq]
  refine refuses_repeating ?_
  suffices hn : ∀ n, before.length < n → Refuses
      (repeated (fun a => (key >>= p a) >>= closing) n a) (itemLexemes (before ++ i :: after)) by
    refine hn _ (Nat.lt_succ_of_le (length_le_length_itemLexemes (fun j hj => ?_) _))
    exact hkey j (List.mem_append_left _ hj)
  induction before generalizing a with
  | nil =>
    intro n hn
    obtain ⟨n, rfl⟩ := Nat.exists_eq_add_one.mpr hn
    rw [List.nil_append, itemLexemes_cons]
    rcases hi a (onward after) (ends_onward after) with hi | ⟨b, ls, hi, hne, hcomma⟩
    · exact Refuses.repeated (hi.bind closing) n
    · exact Refuses.repeated (.of_bind hi (refuses_closing hne hcomma b)) n
  | cons j js ih =>
    intro n hn
    obtain ⟨n, rfl⟩ := Nat.exists_eq_add_one.mpr (Nat.zero_lt_of_lt hn)
    have hj := h j List.mem_cons_self a _ (ends_onward (js ++ i :: after))
    have hlater : ∃ j' is, js ++ i :: after = j' :: is ∧ j' ∈ js ++ [i] := by
      cases js with
      | nil => exact ⟨i, after, rfl, List.mem_singleton_self i⟩
      | cons j' js => exact ⟨j', js ++ i :: after, rfl, List.mem_cons_self⟩
    obtain ⟨j', is, hjs, hj'⟩ := hlater
    have hne := itemLexemes_ne_nil (hkey j' (List.mem_cons_of_mem _ hj')) is
    have hrest := ih (fun j hj => hkey j (List.mem_cons_of_mem _ hj))
      (fun j hj => h j (List.mem_cons_of_mem _ hj)) (f j a) n (Nat.lt_of_succ_lt_succ hn)
    rw [List.cons_append, itemLexemes_cons]
    rw [hjs] at hj hrest ⊢
    exact Refuses.repeated_more (hj.bind (reads_closing_comma hne _)) hrest

theorem refuses_itemwise_nil (p : α → String → Parse α) (a : α) : Refuses (itemwise p a) [] := by
  rw [itemwise_eq]
  exact refuses_repeating (Refuses.repeated (((refuses_key rfl rfl).bind _).bind _) _)

/-! ### Passing over -/

/-- What is read behind a key, behind the key. -/
theorem reads_behindKey {q : String → Parse α} {i : Item} {k : String} (hk : i.key? = some k)
    (hkey : isKey k = true) {behind : List Lexeme} (h : Ends behind) {a : α} {ls : List Lexeme}
    (hq : Reads (q k) (i.behindKey ++ behind) a ls) :
    Reads (key >>= q) (i.lexemes ++ behind) a ls := by
  rw [Item.lexemes_eq hk, List.append_assoc]
  exact (reads_key hkey (i.sees_behindKey h)).bind hq

/-- An item is not read to its end if what stands behind its key is not. -/
theorem stuck_item {q : String → Parse α} {i : Item}
    (hkey : ∀ k, i.key? = some k → isKey k = true) {behind : List Lexeme} (h : Ends behind)
    (hq : ∀ k, i.key? = some k → Stuck (q k) (i.behindKey ++ behind)) :
    Stuck (key >>= q) (i.lexemes ++ behind) := by
  cases hk : i.key? with
  | none =>
    obtain ⟨s, rfl⟩ := Item.eq_lone_of_key? hk
    exact .inl ((refuses_key rfl rfl).bind q)
  | some k =>
    rw [Item.lexemes_eq hk, List.append_assoc]
    exact .of_bind (reads_key (hkey k hk) (i.sees_behindKey h)) (hq k hk)

/-- An item in a list is smaller than the list. -/
theorem sizeAll_behindKey_lt {k : String} {items : List Item} {i : Item} (hi : i ∈ items) :
    Lexeme.sizeAll i.behindKey < Lexeme.sizeAll (Item.list k items).behindKey := by
  have hsize := Nat.le_trans (Lexeme.sizeAll_behindKey_le i) (Lexeme.sizeAll_lexemes_le hi)
  rw [Item.behindKey, Lexeme.sizeAll, Lexeme.size, Lexeme.sizeAll]
  omega

variable {m : Nat}

/-- An ordinary item is passed over, up to where it ends. -/
theorem reads_passOver {n : Nat} {i : Item} (hi : i.Ordinary IsValue)
    (hm : Lexeme.sizeAll i.behindKey ≤ m) (hn : Lexeme.sizeAll i.behindKey < n)
    {behind : List Lexeme} (h : Ends behind) :
    Reads (passOver (grammar (2 * m + 2)) n) (i.behindKey ++ behind) () behind := by
  induction n generalizing i behind with
  | zero => cases hn
  | succ n ih =>
    refine (reads_rest _).bind ?_
    rcases hi.behindKey_cases with
      hnone | ⟨source, hvalue, hv⟩ | ⟨l, hvalue, hl⟩ | ⟨key, items, rfl⟩
    · rw [hnone, List.nil_append]
      cases h <;> exact Reads.pure () _
    · rw [hvalue] at hm ⊢
      exact (reads_mark rfl).bind (hv.reads_behind hm h)
    · rw [hvalue]
      exact (reads_mark rfl).bind (reads_plainValue hl h.halts (by omega))
    · cases hi with
      | list _ hne hitems =>
        refine Reads.within (reads_itemwise (f := fun _ _ => ()) hne
          (fun i hi k => (hitems i hi).isKey) (fun i hi a behind hbehind => ?_) ()) behind
        obtain ⟨k, hk, hkey⟩ := (hitems i hi).exists_key
        have hsize := sizeAll_behindKey_lt (k := key) hi
        exact reads_behindKey hk hkey hbehind (ih (hitems i hi) (by omega) (by omega) hbehind)

/-- An item that cannot be passed over is not read to its end. -/
theorem stuck_passOver {n : Nat} {i : Item} (hi : i.Refused) {k : String} (hk : i.key? = some k)
    (hm : Lexeme.sizeAll i.behindKey ≤ m) (hn : Lexeme.sizeAll i.behindKey < n)
    {behind : List Lexeme} (h : Ends behind) :
    Stuck (passOver (grammar (2 * m + 2)) n) (i.behindKey ++ behind) := by
  obtain ⟨n, rfl⟩ := Nat.exists_eq_add_one.mpr (Nat.zero_lt_of_lt hn)
  induction hi generalizing n behind k with
  | lone s => cases hk
  | value hkey hvalue =>
    rw [Item.behindKey, Lexeme.sizeAll] at hm
    exact .of_bind (reads_rest _) (.of_bind (reads_mark rfl) (hvalue _ behind (by omega) h))
  | none hkey =>
    exact .inl (.of_bind (reads_rest _) ((refuses_itemwise_nil _ ()).within behind))
  | @list key before i after hkey hbefore hi ih =>
    refine .inl (.of_bind (reads_rest _) (Refuses.within ?_ behind))
    refine refuses_itemwise (f := fun _ _ => ()) (fun j hj k hk => ?_)
      (fun j hj a behind hbehind => ?_) (fun a behind hbehind => ?_) after ()
    · rcases List.mem_append.mp hj with hj | hj
      · exact (hbefore j hj).isKey hk
      · exact (List.mem_singleton.mp hj ▸ hi).isKey hk
    · obtain ⟨k', hk', hkey'⟩ := (hbefore j hj).exists_key
      have hsize := sizeAll_behindKey_lt (k := key) (List.mem_append_left (i :: after) hj)
      exact reads_behindKey hk' hkey' hbehind
        (reads_passOver (hbefore j hj) (by omega) (by omega) hbehind)
    · refine stuck_item (fun k => hi.isKey) hbehind fun k' hk' => ?_
      have hsize := sizeAll_behindKey_lt (k := key) (List.mem_append_right before
        (List.mem_cons_self (a := i) (l := after)))
      obtain ⟨n, rfl⟩ := Nat.exists_eq_add_one.mpr (show 0 < n by omega)
      exact ih hk' (by omega) hbehind n (by omega)

theorem reads_pass {i : Item} (hi : i.Ordinary IsValue) (hm : Lexeme.sizeAll i.behindKey ≤ m)
    {behind : List Lexeme} (h : Ends behind) :
    Reads (pass (grammar (2 * m + 2))) (i.behindKey ++ behind) () behind := by
  refine (reads_rest _).bind (reads_passOver hi hm ?_ h)
  rw [Lexeme.sizeAll_append]
  omega

theorem stuck_pass {i : Item} (hi : i.Refused) {k : String} (hk : i.key? = some k)
    (hm : Lexeme.sizeAll i.behindKey ≤ m) {behind : List Lexeme} (h : Ends behind) :
    Stuck (pass (grammar (2 * m + 2))) (i.behindKey ++ behind) := by
  refine .of_bind (reads_rest _) (stuck_passOver hi hk hm ?_ h)
  rw [Lexeme.sizeAll_append]
  omega

end SerializerKeys

end Abridge.Derive

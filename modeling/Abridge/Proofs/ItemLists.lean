import Abridge.Proofs.Folded

/-!
What all attributes of a serializer say together. Read as one list of items, they give the last name
for writing and the flags that occur; how the items are spread over attributes, and which items
without meaning stand between them, does not matter. An item that ends its attribute takes the items
behind it away, and nothing else.
-/
namespace Abridge.Derive

open Syntax

/-- The items of all attributes of the serializer, in order. -/
def listed (attributes : List Attribute) : List Item := (SerializerKeys.lists attributes).flatten

/-- The names for writing that the items with a key give. -/
def givenNames (key : String) (items : List Item) : List String :=
  items.filterMap fun i => if i.key? = some key then i.givenName? else none

/-! ### Items that are written as they should be or not -/

/-- All keys are keys, and what is given as a value is one or cannot be read as one. -/
inductive Item.Legible : Item → Prop
  | lone (s : String) : Legible (.lone s)
  | word {k : String} : isKey k = true → Legible (.word k)
  | text {k : String} (s : String) : isKey k = true → Legible (.text k s)
  | int {k : String} (z : Int) : isKey k = true → Legible (.int k z)
  | bool {k : String} (b : Bool) : isKey k = true → Legible (.bool k b)
  | value {k source : String} : isKey k = true → IsValue source ∨ NoValue source →
    Legible (.expr k source)
  | list {k : String} {items : List Item} : isKey k = true → (∀ i ∈ items, i.Legible) →
    Legible (.list k items)

/-- The first of several items for which `P` does not hold. -/
theorem exists_first {α : Type} {P Q : α → Prop} {items : List α}
    (h : ∀ i ∈ items, P i ∨ Q i) : (∀ i ∈ items, P i) ∨
      ∃ before i after, items = before ++ i :: after ∧ (∀ j ∈ before, P j) ∧ Q i := by
  induction items with
  | nil => exact .inl nofun
  | cons i is ih =>
    rcases h i List.mem_cons_self with hi | hi
    · rcases ih fun j hj => h j (List.mem_cons_of_mem _ hj) with
        his | ⟨before, j, after, rfl, hb, hj⟩
      · exact .inl (List.forall_mem_cons.mpr ⟨hi, his⟩)
      · exact .inr ⟨i :: before, j, after, rfl, List.forall_mem_cons.mpr ⟨hi, hb⟩, hj⟩
    · exact .inr ⟨[], i, is, rfl, nofun, hi⟩

theorem Item.Legible.ordinary_or_refused {i : Item} (h : i.Legible) :
    i.Ordinary IsValue ∨ i.Refused := by
  induction h with
  | lone s => exact .inr (.lone s)
  | word hkey => exact .inl (.word hkey)
  | text s hkey => exact .inl (.text s hkey)
  | int z hkey => exact .inl (.int z hkey)
  | bool b hkey => exact .inl (.bool b hkey)
  | value hkey hsource => exact hsource.imp (.value hkey) (.value hkey)
  | @list k items hkey _ ih =>
    rcases exists_first ih with hall | ⟨before, i, after, rfl, hbefore, hi⟩
    · cases items with
      | nil => exact .inr (.none hkey)
      | cons j is => exact .inl (.list hkey (List.cons_ne_nil j is) hall)
    · exact .inr (.list hkey hbefore hi)

theorem Item.Ordinary.not_refused {i : Item} (h : i.Ordinary IsValue) : ¬ i.Refused := by
  intro hrefused
  induction hrefused with
  | lone s => cases h
  | value _ hsource =>
    cases h with
    | value _ hvalue => exact hvalue.not_noValue hsource
  | none _ =>
    cases h with
    | list _ hne _ => exact hne rfl
  | list _ _ _ ih =>
    cases h with
    | list _ _ hitems => exact ih (hitems _ (by simp))

/-- If a comma stood behind the text that a value begins with, reading would stop there, and what is
left would be neither nothing nor something else. -/
theorem sees_comma_behind_text {source t : String} {ls : List Lexeme}
    (hsource : IsValue source ∨ NoValue source)
    (h : leadingText? (Lexeme.scan source) = some (t, ls)) : sees "," ls = false := by
  rw [← Bool.not_eq_true]
  intro hcomma
  obtain ⟨s, hscan, -⟩ := leadingText?_eq_some_iff.mp h
  have hread : Reads (anyExpression (grammar (2 * Lexeme.sizeAll (Lexeme.scan source) + 2)))
      (Lexeme.scan source) () ls := by
    rw [hscan]
    exact reads_anyExpression_literal _ rfl (halts_of_comma hcomma)
  rcases hsource with hvalue | hnone
  · have hall := hvalue _ [] (Nat.le_refl _) .nothing
    rw [List.append_nil] at hall
    rw [hread.behind_unique hall] at hcomma
    cases hcomma
  · have hstuck := hnone _ [] (Nat.le_refl _) .nothing
    rw [List.append_nil] at hstuck
    rcases hstuck with hrefuses | ⟨_, ls', hread', -, hno⟩
    · exact hread.not_refuses hrefuses
    · rw [hread.behind_unique hread', hno] at hcomma
      cases hcomma

theorem Item.isClosed_of_legible {i : Item} (h : i.Legible) : i.isClosed = true := by
  cases h with
  | @value k source _ hsource =>
    rw [isClosed, leadingText?, Option.all_eq_true]
    rintro ⟨t, ls⟩ hleading
    rw [sees_comma_behind_text hsource hleading]
    rfl
  | _ => rfl

theorem Item.Legible.isKey {i : Item} (h : i.Legible) {k : String} (hk : i.key? = some k) :
    Derive.isKey k = true := by
  cases h <;> cases hk <;> assumption

theorem Item.Legible.nameEntry_or_refusedName {i : Item} (h : i.Legible) :
    i.NameEntry IsValue ∨ i.RefusedName := by
  by_cases hkey : i.key? = some "serialize"
  · cases htext : i.text? with
    | some t => exact .inl (.text hkey htext)
    | none => exact .inr (.text hkey htext (isClosed_of_legible h))
  · exact h.ordinary_or_refused.imp (.other hkey) (.other hkey)

theorem Item.NameEntry.not_refusedName {i : Item} (h : i.NameEntry IsValue) : ¬ i.RefusedName := by
  rintro (⟨hkey, htext, -⟩ | ⟨hkey, hrefused⟩)
  · rcases h with ⟨-, htext'⟩ | ⟨hkey', -⟩
    · rw [htext] at htext'
      cases htext'
    · exact hkey' hkey
  · rcases h with ⟨hkey', -⟩ | ⟨-, hordinary⟩
    · exact hkey hkey'
    · exact hordinary.not_refused hrefused

namespace SerializerKeys

variable {σ : Type} (k : SerializerKeys σ)

theorem name_or_malformed {i : Item} (h : i.Legible) (hkey : i.key? = some k.nameKey) :
    i.Name IsValue ∨ k.Malformed i := by
  have hvalid := h.isKey hkey
  by_cases hlist : ∃ items, i = .list k.nameKey items
  · obtain ⟨items, rfl⟩ := hlist
    cases h with
    | list _ hitems =>
      rcases exists_first fun j hj => (hitems j hj).nameEntry_or_refusedName with
        hall | ⟨before, j, after, rfl, hbefore, hj⟩
      · cases items with
        | nil => exact .inr (.noNames hvalid)
        | cons j is => exact .inl (.names (List.cons_ne_nil j is) hall)
      · exact .inr (.names hvalid hbefore hj)
  · cases htext : i.text? with
    | some t => exact .inl (.text htext)
    | none =>
      refine .inr (.name hkey hvalid (fun items hi => hlist ⟨items, hi⟩) htext ?_)
      exact Item.isClosed_of_legible h

/-- An item of keys and values is as it should be, or it ends its attribute. -/
theorem wellFormed_or_malformed {i : Item} (h : i.Legible) :
    k.WellFormed IsValue i ∨ k.Malformed i := by
  cases hkey : i.key? with
  | none =>
    obtain ⟨s, rfl⟩ := Item.eq_lone_of_key? hkey
    exact .inr (.lone s)
  | some key =>
    have hvalid := h.isKey hkey
    by_cases hname : key = k.nameKey
    · subst hname
      exact (k.name_or_malformed h hkey).imp_left (.name hkey hvalid)
    · cases hflag : k.flag? key with
      | none => exact h.ordinary_or_refused.imp (.other hkey hname hflag) (.other hkey hname hflag)
      | some set =>
        have hisFlag : k.IsFlag key := ⟨hname, by rw [hflag]; rfl⟩
        by_cases hword : i = .word key
        · exact .inl (hword ▸ .flag hvalid hisFlag)
        · exact .inr (.flag hkey hvalid hisFlag hword)

/-- No item is both. -/
theorem WellFormed.not_malformed {k : SerializerKeys σ} {i : Item}
    (h : k.WellFormed IsValue i) : ¬ k.Malformed i := by
  intro hbad
  have same {key key' : String} (hk : i.key? = some key) (hk' : i.key? = some key') : key = key' :=
    Option.some.inj (hk.symm.trans hk')
  cases h with
  | name hkey _ hname =>
    cases hbad with
    | lone s => cases hkey
    | name _ _ hlist htext _ =>
      cases hname with
      | text htext' =>
        rw [htext] at htext'
        cases htext'
      | @names key items _ _ =>
        cases hkey
        exact hlist items rfl
    | noNames _ =>
      cases hname with
      | text htext => cases htext
      | names hne _ => exact hne rfl
    | @names before j after _ _ hj =>
      cases hname with
      | text htext => cases htext
      | names _ hitems => exact (hitems j (by simp)).not_refusedName hj
    | flag hkey' _ hflag _ => exact hflag.1 (same hkey' hkey)
    | other hkey' hne _ _ => exact hne (same hkey' hkey)
  | @flag key _ hflag =>
    cases hbad with
    | name hkey _ _ _ _ => exact hflag.1 (Option.some.inj hkey)
    | flag hkey _ _ hword => exact hword (congrArg Item.word (Option.some.inj hkey))
    | other hkey _ hnone _ =>
      rw [← Option.some.inj hkey] at hnone
      rw [IsFlag, hnone] at hflag
      cases hflag.2
  | other hkey hne hnone hordinary =>
    cases hbad with
    | lone s => cases hkey
    | name hkey' _ _ _ _ => exact hne (same hkey hkey')
    | noNames _ => exact hne (Option.some.inj hkey).symm
    | names _ _ _ => exact hne (Option.some.inj hkey).symm
    | flag hkey' _ hflag _ =>
      rw [same hkey' hkey, IsFlag, hnone] at hflag
      cases hflag.2
    | other _ _ _ hrefused => exact hordinary.not_refused hrefused

/-! ### All attributes -/

/-- Does an item mean something? -/
def matters (i : Item) : Bool := i.key?.any fun key => key = k.nameKey || (k.flag? key).isSome

theorem effect_of_not_matters {i : Item} (h : k.matters i = false) : k.effect i = id := by
  rw [matters] at h
  cases hkey : i.key? with
  | none =>
    rw [effect, if_neg (by simp [hkey]), hkey]
    rfl
  | some key =>
    rw [hkey, Option.any_some, Bool.or_eq_false_iff, decide_eq_false_iff_not] at h
    rw [effect_of_other hkey h.1]
    cases hflag : k.flag? key with
    | none => rfl
    | some set => simp [hflag] at h

/-- Items without meaning can stand anywhere. -/
theorem foldl_effect_filter (items : List Item) (s : σ) :
    items.foldl (fun s i => k.effect i s) s =
      (items.filter k.matters).foldl (fun s i => k.effect i s) s := by
  induction items generalizing s with
  | nil => rfl
  | cons i is ih =>
    cases hi : k.matters i with
    | true => rw [List.filter_cons_of_pos hi, List.foldl_cons, List.foldl_cons, ih]
    | false =>
      rw [List.filter_cons_of_neg (by simp [hi]), List.foldl_cons, k.effect_of_not_matters hi, ih]
      rfl

theorem read_of_wellFormed {attributes : List Attribute}
    (h : ∀ i ∈ listed attributes, k.WellFormed IsValue i) (s : σ) :
    k.read s attributes = (listed attributes).foldl (fun s i => k.effect i s) s := by
  rw [read, listed, List.foldl_flatten]
  refine List.foldl_ext _ _ _ fun s items hitems => ?_
  exact readItems_of_wellFormed (fun i hi => h i (List.mem_flatten_of_mem hitems hi)) s

theorem read_append (before behind : List Attribute) (s : σ) :
    k.read s (before ++ behind) = k.read (k.read s before) behind := by
  simp only [read, lists, List.filterMap_append, List.foldl_append]

theorem read_cons_items (items : List Item) (behind : List Attribute) (s : σ) :
    k.read s (⟨path, .items items⟩ :: behind) = k.read (k.readItems s items) behind := by
  simp [read, lists]

/-- An item that ends its attribute keeps the items behind it there from being seen. -/
theorem read_of_malformed {good : List Item} (h : ∀ i ∈ good, k.WellFormed IsValue i) {bad : Item}
    (hbad : k.Malformed bad) (before : List Attribute) (after : List Item)
    (behind : List Attribute) (s : σ) :
    k.read s (before ++ ⟨path, .items (good ++ bad :: after)⟩ :: behind) =
      k.read (k.remains bad (good.foldl (fun s i => k.effect i s) (k.read s before))) behind := by
  rw [read_append, read_cons_items, readItems_of_malformed h hbad]

end SerializerKeys

/-! ### Fields, variants and types -/

theorem givenNames_eq_foldl (key : String) (items : List Item) (name : Option String) :
    items.foldl (fun name i => (if i.key? = some key then i.givenName? else none).or name) name =
      (givenNames key items).getLast?.or name :=
  foldl_or _ items name

namespace SerializerField

/-- What a single item does to a field. -/
theorem effect_eq (i : Item) (s : SerializerField) : keys.effect i s =
    ⟨(if i.key? = some "rename" then i.givenName? else none).or s.rename,
      s.skip || i.key? = some "skip", s.skipSerializing || i.key? = some "skip_serializing"⟩ := by
  cases hkey : i.key? with
  | none => simp [SerializerKeys.effect, hkey]
  | some key =>
    by_cases hname : key = "rename"
    · rw [SerializerKeys.effect, hkey, hname]
      cases i.givenName? <;> simp [keys]
    · by_cases hskip : key = "skip"
      · simp [SerializerKeys.effect, hkey, hskip, keys]
      · by_cases hserializing : key = "skip_serializing"
        · simp [SerializerKeys.effect, hkey, hserializing, keys]
        · simp [SerializerKeys.effect, hkey, hname, hskip, hserializing, keys]

theorem foldl_effect (items : List Item) (s : SerializerField) :
    items.foldl (fun s i => keys.effect i s) s =
      ⟨(givenNames "rename" items).getLast?.or s.rename,
        s.skip || items.any (·.key? = some "skip"),
        s.skipSerializing || items.any (·.key? = some "skip_serializing")⟩ := by
  rw [← givenNames_eq_foldl]
  induction items generalizing s with
  | nil => simp
  | cons i is ih =>
    rw [List.foldl_cons, ih, effect_eq, List.foldl_cons]
    simp [Bool.or_assoc]

end SerializerField

/-- Without flags, all that matters is the name. -/
theorem SerializerKeys.effect_of_no_flags {σ : Type} {k : SerializerKeys σ}
    (h : ∀ key, k.flag? key = none) (i : Item) :
    k.effect i = (if i.key? = some k.nameKey then i.givenName? else none).elim id k.setName := by
  rw [effect]
  split
  · rfl
  · cases i.key? with
    | none => rfl
    | some key => rw [Option.bind_some, h]; rfl

theorem SerializerVariant.foldl_effect (items : List Item) (s : SerializerVariant) :
    items.foldl (fun s i => keys.effect i s) s =
      ⟨(givenNames "rename" items).getLast?.or s.rename⟩ := by
  rw [← givenNames_eq_foldl]
  induction items generalizing s with
  | nil => rfl
  | cons i is ih =>
    have hi : keys.effect i s =
        ⟨(if i.key? = some "rename" then i.givenName? else none).or s.rename⟩ := by
      rw [SerializerKeys.effect_of_no_flags fun _ => rfl]
      change (if i.key? = some "rename" then i.givenName? else none).elim id keys.setName s = _
      cases (if i.key? = some "rename" then i.givenName? else none) <;> rfl
    rw [List.foldl_cons, ih, hi, List.foldl_cons]

/-- A name that is no rule takes an earlier rule away. -/
theorem SerializerContainer.foldl_effect (items : List Item) (name : Option String) :
    items.foldl (fun s i => keys.effect i s) ⟨name.bind RenameRule.ofSpelling?⟩ =
      ⟨((givenNames "rename_all" items).getLast?.or name).bind RenameRule.ofSpelling?⟩ := by
  rw [← givenNames_eq_foldl]
  induction items generalizing name with
  | nil => rfl
  | cons i is ih =>
    have hi : keys.effect i ⟨name.bind RenameRule.ofSpelling?⟩ =
        ⟨((if i.key? = some "rename_all" then i.givenName? else none).or name).bind
          RenameRule.ofSpelling?⟩ := by
      rw [SerializerKeys.effect_of_no_flags fun _ => rfl]
      change (if i.key? = some "rename_all" then i.givenName? else none).elim id keys.setName _ = _
      cases (if i.key? = some "rename_all" then i.givenName? else none) <;> rfl
    rw [List.foldl_cons, hi, ih, List.foldl_cons]

/-! ### One list of items -/

/-- How attributes are read whose keys have these meanings. -/
structure SerializerKeys.ReadsOneList {σ : Type} (k : SerializerKeys σ) : Prop where
  /-- Items as they should be have their effects in order. -/
  folded : ∀ (s : σ) (attributes : List Attribute),
    (∀ i ∈ listed attributes, k.WellFormed IsValue i) →
    k.read s attributes = (listed attributes).foldl (fun s i => k.effect i s) s
  /-- It does not matter in which attributes they stand, and what without meaning stands around
  them. -/
  spread : ∀ (s : σ) (attributes attributes' : List Attribute),
    (∀ i ∈ listed attributes, k.WellFormed IsValue i) →
    (∀ i ∈ listed attributes', k.WellFormed IsValue i) →
    (listed attributes).filter k.matters = (listed attributes').filter k.matters →
    k.read s attributes = k.read s attributes'
  /-- Literals are values. -/
  literals : ∀ i : Item, k.WellFormed IsLiteral i → k.WellFormed IsValue i
  /-- An item of keys and values is either as it should be or not. -/
  told : ∀ i : Item, i.Legible → (k.Malformed i ↔ ¬ k.WellFormed IsValue i)
  /-- Behind one that is not, the items of its attribute are ignored, whatever they are. -/
  ended : ∀ (s : σ) (before : List Attribute) (good : List Item) (bad : Item) (after : List Item)
    (behind : List Attribute), (∀ i ∈ good, k.WellFormed IsValue i) → k.Malformed bad →
    k.read s (before ++ ⟨path, .items (good ++ bad :: after)⟩ :: behind) =
      k.read (k.remains bad (good.foldl (fun s i => k.effect i s) (k.read s before))) behind

theorem SerializerKeys.readsOneList {σ : Type} (k : SerializerKeys σ) : k.ReadsOneList where
  folded s _ h := k.read_of_wellFormed h s
  spread s attributes attributes' h h' hsame := by
    rw [k.read_of_wellFormed h, k.read_of_wellFormed h', k.foldl_effect_filter, hsame,
      ← k.foldl_effect_filter]
  literals _ h := h.mono fun _ => isValue_of_isLiteral
  told _ h :=
    ⟨fun hbad hgood => hgood.not_malformed hbad, (k.wellFormed_or_malformed h).resolve_left⟩
  ended s before _ _ after behind h hbad := k.read_of_malformed h hbad before after behind s

/-- The attributes of a serializer are read as one list of items: the last name for writing counts,
a flag is set exactly if it occurs, and only an item that is not as it should be hides others, which
are those behind it in its attribute. -/
theorem serializer_attributes_folded :
    (∀ attributes, (∀ i ∈ listed attributes, SerializerField.keys.WellFormed IsValue i) →
      SerializerField.read attributes =
        ⟨(givenNames "rename" (listed attributes)).getLast?,
          (listed attributes).any (·.key? = some "skip"),
          (listed attributes).any (·.key? = some "skip_serializing")⟩) ∧
    (∀ attributes, (∀ i ∈ listed attributes, SerializerVariant.keys.WellFormed IsValue i) →
      SerializerVariant.read attributes = ⟨(givenNames "rename" (listed attributes)).getLast?⟩) ∧
    (∀ attributes, (∀ i ∈ listed attributes, SerializerContainer.keys.WellFormed IsValue i) →
      SerializerContainer.read attributes =
        ⟨(givenNames "rename_all" (listed attributes)).getLast?.bind RenameRule.ofSpelling?⟩) ∧
    ∀ {σ : Type} (k : SerializerKeys σ), k.ReadsOneList := by
  refine ⟨fun attributes h => ?_, fun attributes h => ?_, fun attributes h => ?_,
    fun k => k.readsOneList⟩
  · rw [SerializerField.read, SerializerKeys.read_of_wellFormed _ h, SerializerField.foldl_effect,
      Option.or_none, Bool.false_or, Bool.false_or]
  · rw [SerializerVariant.read, SerializerKeys.read_of_wellFormed _ h,
      SerializerVariant.foldl_effect, Option.or_none]
  · rw [SerializerContainer.read, SerializerKeys.read_of_wellFormed _ h]
    refine (SerializerContainer.foldl_effect (listed attributes) none).trans ?_
    rw [Option.or_none]

/-- Two attributes of a serializer between others. -/
def scattered : List Attribute := [
  ⟨"doc", .equals "a field"⟩,
  ⟨"serde", .items [.word "default", .int "count" (-1),
    .list "rename" [.text "deserialize" "in", .text "serialize" "out"]]⟩,
  ⟨"trim", .items [.text "rename" "own"]⟩,
  ⟨"serde", .items [.expr "default" "a::b", .word "skip",
    .list "rename" [.text "deserialize" "later"], .text "rename_all" "camelCase",
    .list "nested::key" [.list "a" [.expr "b" "1.5"], .word "c"]]⟩]

/-- What matters of them for a field, in one attribute. -/
def gathered : List Attribute := [
  ⟨"serde", .items [.list "rename" [.text "deserialize" "in", .text "serialize" "out"],
    .word "skip", .list "rename" [.text "deserialize" "later"]]⟩]

theorem isValue_path : IsValue "a::b" := isValue_of_isPlainValue (by decide)

/-- Behind the first number stands a second one. -/
theorem noValue_numbers : NoValue "1 2" := by
  have hscan : Lexeme.scan "1 2" = [.literal "1"] ++ [.literal "2"] := rfl
  exact noValue_of_followed hscan rfl (fun behind => .literal "2" behind) (List.cons_ne_nil _ _)
    fun _ => rfl

theorem serializer_attributes_folded_scattered :
    ((∀ i ∈ listed scattered, SerializerField.keys.WellFormed IsValue i) ∧
      SerializerField.read scattered = ⟨some "out", true, false⟩) ∧
    ((∀ i ∈ listed scattered, SerializerVariant.keys.WellFormed IsValue i) ∧
      SerializerVariant.read scattered = ⟨some "out"⟩) ∧
    ((∀ i ∈ listed scattered, SerializerContainer.keys.WellFormed IsValue i) ∧
      SerializerContainer.read scattered = ⟨some .camel⟩) ∧
    ((∀ i ∈ listed gathered, SerializerField.keys.WellFormed IsValue i) ∧
      SerializerField.read scattered = SerializerField.read gathered) ∧
    -- A flag counts although it does not stand alone; the name behind it does not.
    (SerializerField.keys.Malformed (.text "skip" "yes") ∧
      SerializerField.read [⟨"serde", .items [.text "rename" "a", .text "skip" "yes",
        .text "rename" "b"]⟩, ⟨"serde", .items [.word "skip_serializing"]⟩] =
          ⟨some "a", true, true⟩) ∧
    -- A value that is missing, or that is none, hides the name behind it.
    (SerializerVariant.keys.Malformed (.expr "default" "") ∧
      SerializerVariant.read [⟨"serde", .items [.expr "default" "", .text "rename" "b"]⟩] =
        ⟨none⟩) ∧
    (SerializerVariant.keys.Malformed (.expr "default" "1 2") ∧
      SerializerVariant.read [⟨"serde", .items [.expr "default" "1 2", .text "rename" "b"]⟩] =
        ⟨none⟩) ∧
    ((Item.list "rename" [.lone "a"]).Legible ∧
      (SerializerVariant.keys.Malformed (.list "rename" [.lone "a"]) ↔
        ¬ SerializerVariant.keys.WellFormed IsValue (.list "rename" [.lone "a"]))) := by
  have hdefault : (Item.word "default").Ordinary IsValue := .word (by decide)
  have hcount : (Item.int "count" (-1)).Ordinary IsValue := .int _ (by decide)
  have hpath : (Item.expr "default" "a::b").Ordinary IsValue := .value (by decide) isValue_path
  have hskip : (Item.word "skip").Ordinary IsValue := .word (by decide)
  have hcamel : (Item.text "rename_all" "camelCase").Ordinary IsValue := .text _ (by decide)
  have hnested : (Item.list "nested::key" [.list "a" [.expr "b" "1.5"], .word "c"]).Ordinary
      IsValue := by
    refine .list (by decide) (List.cons_ne_nil _ _) (List.forall_mem_cons.mpr ⟨?_, ?_⟩)
    · refine .list (by decide) (List.cons_ne_nil _ _) (List.forall_mem_cons.mpr ⟨?_, nofun⟩)
      exact .value (by decide) (isValue_of_isPlainValue (by decide))
    · exact List.forall_mem_cons.mpr ⟨.word (by decide), nofun⟩
  have hnames (s : String) : (Item.list "rename" [.text "deserialize" s]).Ordinary IsValue :=
    .list (by decide) (List.cons_ne_nil _ _)
      (List.forall_mem_cons.mpr ⟨.text s (by decide), nofun⟩)
  have hboth : (Item.list "rename" [.text "deserialize" "in", .text "serialize" "out"]).Ordinary
      IsValue := by
    refine .list (by decide) (List.cons_ne_nil _ _) (List.forall_mem_cons.mpr ⟨?_, ?_⟩)
    · exact .text _ (by decide)
    · exact List.forall_mem_cons.mpr ⟨.text _ (by decide), nofun⟩
  have hrename : (Item.list "rename" [.text "deserialize" "in", .text "serialize" "out"]).Name
      IsValue := by
    refine .names (List.cons_ne_nil _ _) (List.forall_mem_cons.mpr ⟨?_, ?_⟩)
    · exact .other (by decide) (.text _ (by decide))
    · exact List.forall_mem_cons.mpr ⟨.text rfl rfl, nofun⟩
  have hlater : (Item.list "rename" [.text "deserialize" "later"]).Name IsValue :=
    .names (List.cons_ne_nil _ _)
      (List.forall_mem_cons.mpr ⟨.other (by decide) (.text _ (by decide)), nofun⟩)
  have hlisted : listed scattered = [.word "default", .int "count" (-1),
      .list "rename" [.text "deserialize" "in", .text "serialize" "out"], .expr "default" "a::b",
      .word "skip", .list "rename" [.text "deserialize" "later"], .text "rename_all" "camelCase",
      .list "nested::key" [.list "a" [.expr "b" "1.5"], .word "c"]] := rfl
  have hgatheredItems : listed gathered = [
      .list "rename" [.text "deserialize" "in", .text "serialize" "out"], .word "skip",
      .list "rename" [.text "deserialize" "later"]] := rfl
  have hfield : ∀ i ∈ listed scattered, SerializerField.keys.WellFormed IsValue i := by
    rw [hlisted]
    simp only [List.forall_mem_cons]
    exact ⟨.other rfl (by decide) rfl hdefault, .other rfl (by decide) rfl hcount,
      .name rfl (by decide) hrename, .other rfl (by decide) rfl hpath,
      .flag (by decide) ⟨by decide, rfl⟩, .name rfl (by decide) hlater,
      .other rfl (by decide) rfl hcamel, .other rfl (by decide) rfl hnested, nofun⟩
  have hvariant : ∀ i ∈ listed scattered, SerializerVariant.keys.WellFormed IsValue i := by
    rw [hlisted]
    simp only [List.forall_mem_cons]
    exact ⟨.other rfl (by decide) rfl hdefault, .other rfl (by decide) rfl hcount,
      .name rfl (by decide) hrename, .other rfl (by decide) rfl hpath,
      .other rfl (by decide) rfl hskip, .name rfl (by decide) hlater,
      .other rfl (by decide) rfl hcamel, .other rfl (by decide) rfl hnested, nofun⟩
  have hcontainer : ∀ i ∈ listed scattered, SerializerContainer.keys.WellFormed IsValue i := by
    rw [hlisted]
    simp only [List.forall_mem_cons]
    exact ⟨.other rfl (by decide) rfl hdefault, .other rfl (by decide) rfl hcount,
      .other rfl (by decide) rfl hboth, .other rfl (by decide) rfl hpath,
      .other rfl (by decide) rfl hskip, .other rfl (by decide) rfl (hnames "later"),
      .name rfl (by decide) (.text rfl), .other rfl (by decide) rfl hnested, nofun⟩
  have hgathered : ∀ i ∈ listed gathered, SerializerField.keys.WellFormed IsValue i := by
    rw [hgatheredItems]
    simp only [List.forall_mem_cons]
    exact ⟨.name rfl (by decide) hrename, .flag (by decide) ⟨by decide, rfl⟩,
      .name rfl (by decide) hlater, nofun⟩
  have hflag : SerializerField.keys.Malformed (.text "skip" "yes") :=
    .flag rfl (by decide) ⟨by decide, rfl⟩ nofun
  have hgood : ∀ i ∈ [Item.text "rename" "a"], SerializerField.keys.WellFormed IsValue i :=
    List.forall_mem_cons.mpr ⟨.name rfl (by decide) (.text rfl), nofun⟩
  have hempty : SerializerVariant.keys.Malformed (.expr "default" "") :=
    .other rfl (by decide) rfl (.value (by decide) noValue_empty)
  have hnumbers : SerializerVariant.keys.Malformed (.expr "default" "1 2") :=
    .other rfl (by decide) rfl (.value (by decide) noValue_numbers)
  have hlegible : (Item.list "rename" [.lone "a"]).Legible :=
    .list (by decide) (List.forall_mem_cons.mpr ⟨.lone "a", nofun⟩)
  have h := serializer_attributes_folded
  obtain ⟨-, hspread, -, -, hended⟩ := h.2.2.2 SerializerField.keys
  obtain ⟨-, -, -, htold, hhidden⟩ := h.2.2.2 SerializerVariant.keys
  refine ⟨⟨hfield, (h.1 scattered hfield).trans rfl⟩,
    ⟨hvariant, (h.2.1 scattered hvariant).trans rfl⟩,
    ⟨hcontainer, (h.2.2.1 scattered hcontainer).trans rfl⟩,
    ⟨hgathered, hspread _ scattered gathered hfield hgathered rfl⟩, ⟨hflag, ?_⟩,
    ⟨hempty, ?_⟩, ⟨hnumbers, ?_⟩, hlegible, htold _ hlegible⟩
  · exact (hended ⟨none, false, false⟩ [] [.text "rename" "a"] _ [.text "rename" "b"]
      [⟨"serde", .items [.word "skip_serializing"]⟩] hgood hflag).trans rfl
  · exact (hhidden ⟨none⟩ [] [] _ [.text "rename" "b"] [] nofun hempty).trans rfl
  · exact (hhidden ⟨none⟩ [] [] _ [.text "rename" "b"] [] nofun hnumbers).trans rfl

/-- A path is no literal, and yet it is passed over like one: the name behind it counts. -/
theorem behind_path_read :
    ¬ SerializerField.keys.WellFormed IsLiteral (.expr "default" "a::b") ∧
    SerializerField.read [⟨"serde", .items [.expr "default" "a::b", .text "rename" "x"]⟩] =
      ⟨some "x", false, false⟩ := by
  have hgood : ∀ i ∈ listed [⟨"serde", .items [.expr "default" "a::b", .text "rename" "x"]⟩],
      SerializerField.keys.WellFormed IsValue i := by
    refine List.forall_mem_cons.mpr ⟨?_, List.forall_mem_cons.mpr ⟨?_, nofun⟩⟩
    · exact .other rfl (by decide) rfl (.value (by decide) isValue_path)
    · exact .name rfl (by decide) (.text rfl)
  refine ⟨fun h => ?_, (SerializerKeys.read_of_wellFormed _ hgood _).trans rfl⟩
  cases h with
  | name hkey _ _ => exact absurd hkey (by decide)
  | other _ _ _ hordinary =>
    cases hordinary with
    | value _ hliteral =>
      obtain ⟨l, ts, hscan⟩ := hliteral
      cases hscan

end Abridge.Derive

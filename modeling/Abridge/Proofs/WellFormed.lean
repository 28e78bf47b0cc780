import Abridge.Proofs.Items
import Abridge.Proofs.Serializer

/-!
Which items of a serializer's attributes are as they should be, what they change, and which items
end their attribute. As an entry, an item of the first kind is taken with its effect, and one of the
second kind is not.
-/
namespace Abridge.Derive

/-! ### Texts -/

/-- A text that the value of an item begins with, and what follows it. -/
def Item.leadingText? : Item → Option (String × List Lexeme)
  | .text _ s => some (s, [])
  | .expr _ source => Derive.leadingText? (Lexeme.scan source)
  | _ => none

/-- The value of an item, if it is a text. -/
def Item.text? (i : Item) : Option String :=
  match i.leadingText? with
  | some (t, []) => some t
  | _ => none

/-- No comma stands behind the text that the value begins with; a value with one is read as two
items. -/
def Item.isClosed (i : Item) : Bool := i.leadingText?.all fun x => !Syntax.sees "," x.2

/-! ### Names -/

/-- The name for writing that an item of a list of names gives. -/
def Item.writtenName? (i : Item) : Option String :=
  if i.key? = some "serialize" then i.text? else none

/-- The name for writing that an item gives: its text, or the last one in its list. -/
def Item.givenName? : Item → Option String
  | .list _ items => (items.filterMap Item.writtenName?).getLast?
  | i => i.text?

section

variable (V : String → Prop)

/-- An item that can stand in a list of names. -/
inductive Item.NameEntry : Item → Prop
  | text {i : Item} {t : String} : i.key? = some "serialize" → i.text? = some t → NameEntry i
  | other {i : Item} : i.key? ≠ some "serialize" → i.Ordinary V → NameEntry i

/-- An item that gives its name as it should. -/
inductive Item.Name : Item → Prop
  | text {i : Item} {t : String} : i.text? = some t → Name i
  | names {key : String} {items : List Item} : items ≠ [] → (∀ i ∈ items, i.NameEntry V) →
    Name (.list key items)

end

/-- An item that cannot stand in a list of names. -/
inductive Item.RefusedName : Item → Prop
  | text {i : Item} : i.key? = some "serialize" → i.text? = none → i.isClosed = true → RefusedName i
  | other {i : Item} : i.key? ≠ some "serialize" → i.Refused → RefusedName i

theorem isKey_serialize : isKey "serialize" = true := by
  decide

theorem Item.NameEntry.isKey {V : String → Prop} {i : Item} (h : i.NameEntry V) {key : String}
    (hk : i.key? = some key) : Derive.isKey key = true := by
  cases h with
  | text hkey _ =>
    cases hkey.symm.trans hk
    exact isKey_serialize
  | other _ hordinary => exact hordinary.isKey hk

theorem Item.RefusedName.isKey {i : Item} (h : i.RefusedName) {key : String}
    (hk : i.key? = some key) : Derive.isKey key = true := by
  cases h with
  | text hkey _ _ =>
    cases hkey.symm.trans hk
    exact isKey_serialize
  | other _ hrefused => exact hrefused.isKey hk

section

variable {V W : String → Prop} (hVW : ∀ source, V source → W source)
include hVW

theorem Item.NameEntry.mono {i : Item} (h : i.NameEntry V) : i.NameEntry W := by
  cases h with
  | text hkey htext => exact .text hkey htext
  | other hkey hordinary => exact .other hkey (hordinary.mono hVW)

theorem Item.Name.mono {i : Item} (h : i.Name V) : i.Name W := by
  cases h with
  | text htext => exact .text htext
  | names hne hitems => exact .names hne fun i hi => (hitems i hi).mono hVW

end

/-- Of several values, the last one that is there. -/
theorem foldl_or {α β : Type} (f : β → Option α) (bs : List β) (a : Option α) :
    bs.foldl (fun a b => (f b).or a) a = (bs.filterMap f).getLast?.or a := by
  induction bs generalizing a with
  | nil => rfl
  | cons b bs ih =>
    rw [List.foldl_cons, ih]
    cases hb : f b with
    | none => rw [List.filterMap_cons_none hb, Option.none_or]
    | some x =>
      rw [List.filterMap_cons_some hb, List.getLast?_cons]
      cases (bs.filterMap f).getLast? <;> rfl

namespace SerializerKeys

variable {σ : Type} (k : SerializerKeys σ)

/-! ### Items as they should be, and others -/

/-- A name is given by a text or a list of names, a flag stands alone, and anything else is a key
alone, with a value or with a list; `V` holds for what counts as a value of source text. -/
inductive WellFormed (V : String → Prop) : Item → Prop
  | name {i : Item} : i.key? = some k.nameKey → isKey k.nameKey = true → i.Name V → WellFormed V i
  | flag {key : String} : isKey key = true → k.IsFlag key → WellFormed V (.word key)
  | other {i : Item} {key : String} : i.key? = some key → key ≠ k.nameKey → k.flag? key = none →
    i.Ordinary V → WellFormed V i

/-- What an item changes. -/
def effect (i : Item) : σ → σ :=
  if i.key? = some k.nameKey then i.givenName?.elim id k.setName
  else (i.key?.bind k.flag?).getD id

/-- An item that ends its attribute. -/
inductive Malformed : Item → Prop
  | lone (s : String) : Malformed (.lone s)
  | name {i : Item} : i.key? = some k.nameKey → isKey k.nameKey = true →
    (∀ items, i ≠ .list k.nameKey items) → i.text? = none → i.isClosed = true → Malformed i
  | noNames : isKey k.nameKey = true → Malformed (.list k.nameKey [])
  | names {before : List Item} {i : Item} {after : List Item} : isKey k.nameKey = true →
    (∀ j ∈ before, j.NameEntry IsValue) → i.RefusedName →
    Malformed (.list k.nameKey (before ++ i :: after))
  | flag {i : Item} {key : String} : i.key? = some key → isKey key = true → k.IsFlag key →
    i ≠ .word key → Malformed i
  | other {i : Item} {key : String} : i.key? = some key → key ≠ k.nameKey → k.flag? key = none →
    i.Refused → Malformed i

/-- What an item changes that ends its attribute: a flag is set nevertheless, and so is a name that
is a text with something behind it. -/
def remains (i : Item) : σ → σ :=
  if i.key? = some k.nameKey then i.leadingText?.elim id fun x => k.setName x.1
  else (i.key?.bind k.flag?).getD id

section

variable {k : SerializerKeys σ} {i : Item}

theorem effect_of_name (h : i.key? = some k.nameKey) :
    k.effect i = i.givenName?.elim id k.setName := if_pos h

theorem effect_of_other {key : String} (h : i.key? = some key) (hkey : key ≠ k.nameKey) :
    k.effect i = (k.flag? key).getD id := by
  rw [effect, if_neg (by simp [h, hkey]), h, Option.bind_some]

theorem remains_of_other {key : String} (h : i.key? = some key) (hkey : key ≠ k.nameKey) :
    k.remains i = (k.flag? key).getD id := by
  rw [remains, if_neg (by simp [h, hkey]), h, Option.bind_some]

end

theorem WellFormed.isKey {k : SerializerKeys σ} {V : String → Prop} {i : Item}
    (h : k.WellFormed V i) {key : String} (hk : i.key? = some key) : Derive.isKey key = true := by
  cases h with
  | name hkey hvalid _ => exact Option.some.inj (hkey.symm.trans hk) ▸ hvalid
  | flag hvalid _ => exact Option.some.inj hk ▸ hvalid
  | other _ _ _ hordinary => exact hordinary.isKey hk

theorem WellFormed.mono {k : SerializerKeys σ} {V W : String → Prop}
    (hVW : ∀ source, V source → W source) {i : Item} (h : k.WellFormed V i) :
    k.WellFormed W i := by
  cases h with
  | name hkey hvalid hname => exact .name hkey hvalid (hname.mono hVW)
  | flag hvalid hflag => exact .flag hvalid hflag
  | other hkey hne hnone hordinary => exact .other hkey hne hnone (hordinary.mono hVW)

theorem Malformed.isKey {k : SerializerKeys σ} {i : Item} (h : k.Malformed i) {key : String}
    (hk : i.key? = some key) : Derive.isKey key = true := by
  cases h with
  | lone s => cases hk
  | name hkey hvalid _ _ _ => exact Option.some.inj (hkey.symm.trans hk) ▸ hvalid
  | noNames hvalid => exact Option.some.inj hk ▸ hvalid
  | names hvalid _ _ => exact Option.some.inj hk ▸ hvalid
  | flag hkey hvalid _ _ => exact Option.some.inj (hkey.symm.trans hk) ▸ hvalid
  | other hkey _ _ hrefused => exact hrefused.isKey hk

/-! ### As entries -/

section Entries

variable {k : SerializerKeys σ} {i : Item} {e : Entry}

/-- An item gives a text exactly if its entry does. -/
theorem textEntry_iff (he : i.StandsFor e) (t : String) :
    i.text? = some t ↔ ∃ key, e = .value key (.literal (.text t)) := by
  cases he <;> simp [Item.text?, Item.leadingText?, eq_comm]

theorem writtenNameFrom_of_refused (hi : i.RefusedName) (he : i.StandsFor e) (es : List Entry)
    (name : Option String) : writtenNameFrom name (e :: es) = none := by
  rw [writtenNameFrom.eq_def]
  simp only [he.key?_eq]
  cases hi with
  | text hkey htext =>
    rw [if_pos hkey]
    split
    · rename_i t
      have hsome := (textEntry_iff he t).mpr ⟨_, rfl⟩
      rw [htext] at hsome
      cases hsome
    · rfl
  | other hkey hrefused =>
    rw [if_neg hkey, hrefused.skippable_eq_false he]
    rfl

theorem writtenNameFrom_of_nameEntry (hi : i.NameEntry IsValue) (he : i.StandsFor e)
    (es : List Entry) (name : Option String) :
    writtenNameFrom name (e :: es) = writtenNameFrom (i.writtenName?.or name) es := by
  rw [writtenNameFrom.eq_def, Item.writtenName?]
  simp only [he.key?_eq]
  cases hi with
  | text hkey htext =>
    obtain ⟨key, rfl⟩ := (textEntry_iff he _).mp htext
    rw [if_pos hkey, if_pos hkey, htext]
    rfl
  | other hkey hordinary =>
    rw [if_neg hkey, if_neg hkey, hordinary.skippable he]
    rfl

/-- Entries that can stand in a list of names are all taken. -/
theorem writtenNameFrom_append {before after : List Item}
    (h : ∀ i ∈ before, i.NameEntry IsValue) {es : List Entry}
    (hes : plainEntries? (before ++ after) = some es) (name : Option String) :
    ∃ es', plainEntries? after = some es' ∧ writtenNameFrom name es =
      writtenNameFrom (before.foldl (fun name i => i.writtenName?.or name) name) es' := by
  induction before generalizing es name with
  | nil => exact ⟨es, hes, rfl⟩
  | cons i is ih =>
    obtain ⟨e, es', he, hes', rfl⟩ := plainEntries?_cons hes
    rw [writtenNameFrom_of_nameEntry (h i List.mem_cons_self) he]
    exact ih (fun j hj => h j (List.mem_cons_of_mem _ hj)) hes' _

theorem writtenName_of_name (hi : i.Name IsValue) (he : i.StandsFor e) :
    e.writtenName = some i.givenName? := by
  cases hi with
  | @text i t htext =>
    have hgiven : i.givenName? = i.text? := by
      cases i with
      | list key items => cases htext
      | _ => rfl
    obtain ⟨key, rfl⟩ := (textEntry_iff he t).mp htext
    rw [hgiven, htext]
    rfl
  | @names key items hne hitems =>
    obtain - | - | - | - | - | ⟨_, hes⟩ := he
    obtain ⟨es', hnil, hfold⟩ := writtenNameFrom_append hitems ((List.append_nil items).symm ▸ hes)
      none
    cases hnil
    rw [foldl_or, Option.or_none] at hfold
    cases items with
    | nil => exact absurd rfl hne
    | cons i is =>
      obtain ⟨e, es, _, _, rfl⟩ := plainEntries?_cons hes
      exact hfold

theorem step_of_wellFormed (hi : k.WellFormed IsValue i) (he : i.StandsFor e) (s : σ) :
    k.step s e = ⟨k.effect i s, true⟩ := by
  cases hi with
  | name hkey _ hname =>
    rw [k.step_of_name (he.key?_eq.trans hkey), effect_of_name hkey, takeName,
      writtenName_of_name hname he]
    cases i.givenName? <;> rfl
  | @flag key _ hflag =>
    cases he
    obtain ⟨set, hset⟩ := Option.isSome_iff_exists.mp hflag.2
    have hne : some key ≠ some k.nameKey := fun h => hflag.1 (Option.some.inj h)
    rw [k.step_of_flag (e := .word key) hne hset, effect_of_other rfl hflag.1, hset]
    rfl
  | other hkey hne hnone hordinary =>
    have hentry := he.key?_eq.trans hkey
    rw [k.step_of_other (by simpa [hentry] using hne) (by rw [hentry]; exact hnone),
      effect_of_other hkey hne, hnone, hordinary.skippable he]
    rfl

theorem writtenName_of_malformed (hkey : i.key? = some k.nameKey) (hi : k.Malformed i)
    (he : i.StandsFor e) : e.writtenName = none := by
  cases hi with
  | lone s => cases hkey
  | name _ _ hlist htext _ =>
    cases he with
    | list key hes =>
      cases hkey
      exact absurd rfl (hlist _)
    | text key s => cases htext
    | lone s => rfl
    | word key => rfl
    | int key z => rfl
    | bool key b => rfl
  | noNames =>
    obtain - | - | - | - | - | ⟨_, hes⟩ := he
    cases hes
    rfl
  | @names before j after _ hbefore hj =>
    obtain - | - | - | - | - | @⟨_, _, es, hes⟩ := he
    obtain ⟨es', hes', hfold⟩ := writtenNameFrom_append hbefore hes none
    obtain ⟨e, es'', he, _, rfl⟩ := plainEntries?_cons hes'
    rw [writtenNameFrom_of_refused hj he] at hfold
    cases es with
    | nil => rfl
    | cons e es => exact hfold
  | flag hkey' _ hflag _ => exact absurd (Option.some.inj (hkey'.symm.trans hkey)) hflag.1
  | other hkey' hne _ _ => exact absurd (Option.some.inj (hkey'.symm.trans hkey)) hne

theorem step_of_malformed (hi : k.Malformed i) (he : i.StandsFor e) (s : σ) :
    k.step s e = ⟨k.remains i s, false⟩ := by
  by_cases hkey : i.key? = some k.nameKey
  · have hnone := writtenName_of_malformed hkey hi he
    have hleading : i.leadingText? = none := by
      cases he with
      | text key s => cases hnone
      | _ => rfl
    rw [k.step_of_name (he.key?_eq.trans hkey), takeName, hnone, remains, if_pos hkey, hleading]
    rfl
  · have hother (key : String) (hkey' : i.key? = some key) : key ≠ k.nameKey := by
      rintro rfl
      exact hkey hkey'
    have hne : e.key? ≠ some k.nameKey := by
      rw [he.key?_eq]
      exact hkey
    cases hi with
    | lone _ =>
      cases he
      exact k.step_of_other hne rfl s
    | name hname _ _ _ _ => exact absurd hname hkey
    | noNames => exact absurd rfl hkey
    | names _ _ _ => exact absurd rfl hkey
    | @flag _ key hkey' _ hflag hword =>
      obtain ⟨set, hset⟩ := Option.isSome_iff_exists.mp hflag.2
      have hbare : e.isWord = false := by
        cases he with
        | word key => exact absurd (congrArg Item.word (Option.some.inj hkey')) hword
        | _ => rfl
      rw [k.step_of_flag hne (by rw [he.key?_eq, hkey']; exact hset), hbare,
        remains_of_other hkey' hflag.1, hset]
      rfl
    | @other _ key hkey' hne' hnone hrefused =>
      rw [k.step_of_other hne (by rw [he.key?_eq, hkey']; exact hnone),
        hrefused.skippable_eq_false he, remains_of_other hkey' hne', hnone]
      rfl

end Entries

end SerializerKeys

end Abridge.Derive

import Abridge.Proofs.WellFormed

/-!
The attributes of a serializer are one list of items. Each item that is as it should be has its
effect, in the order in which the items stand, however they are spread over attributes; an item that
is not ends its own attribute and no other.
-/
namespace Abridge.Derive

/-! ### As source text -/

open Syntax

/-- An item has a value behind an equals sign, or there is no equals sign. -/
theorem Item.behindKey_cases (i : Item) : (∃ v, i.behindKey = .mark '=' false :: v ∧
    Derive.leadingText? v = i.leadingText?) ∨ (i.leadingText? = none ∧
      ∀ behind, Ends behind → sees "=" (i.behindKey ++ behind) = false) := by
  cases i with
  | lone s => exact Or.inr ⟨rfl, fun _ h => by cases h <;> rfl⟩
  | word key => exact Or.inr ⟨rfl, fun _ h => by cases h <;> rfl⟩
  | list key items => exact Or.inr ⟨rfl, fun _ _ => rfl⟩
  | text key s =>
    refine Or.inl ⟨_, rfl, ?_⟩
    simp only [quotedLexeme, Derive.leadingText?, Literal.ofSource_literalQuoted]
    rfl
  | int key z =>
    refine Or.inl ⟨_, rfl, ?_⟩
    obtain ⟨s, hs, hscan | hscan⟩ := Lexeme.scan_int z
    · rw [hscan, Derive.leadingText?]
      split
      · exact absurd ‹_› (Literal.ofSource_ne_text hs _)
      · rfl
    · rw [hscan]
      rfl
  | bool key b => exact Or.inl ⟨_, rfl, rfl⟩
  | expr key source => exact Or.inl ⟨_, rfl, rfl⟩

theorem leadingText?_eq_some_iff {ls rest : List Lexeme} {t : String} :
    leadingText? ls = some (t, rest) ↔
      ∃ s, ls = .literal s :: rest ∧ Literal.ofSource s = .text t := by
  constructor
  · intro h
    rw [leadingText?.eq_def] at h
    split at h
    · split at h <;> cases h
      exact ⟨_, rfl, ‹_›⟩
    · cases h
  · rintro ⟨s, rfl, hs⟩
    simp only [leadingText?, hs]

theorem leadingText?_append {ls rest : List Lexeme} {t : String}
    (h : leadingText? ls = some (t, rest)) (behind : List Lexeme) :
    leadingText? (ls ++ behind) = some (t, rest ++ behind) := by
  obtain ⟨s, rfl, hs⟩ := leadingText?_eq_some_iff.mp h
  exact leadingText?_eq_some_iff.mpr ⟨s, rfl, hs⟩

theorem leadingText?_append_of_none {ls : List Lexeme} (h : leadingText? ls = none)
    {behind : List Lexeme} (hends : Ends behind) : leadingText? (ls ++ behind) = none := by
  refine Option.eq_none_iff_forall_ne_some.mpr fun ⟨t, rest⟩ hx => ?_
  obtain ⟨s, hls, hs⟩ := leadingText?_eq_some_iff.mp hx
  cases ls with
  | nil => cases hends <;> cases hls
  | cons l ls =>
    rw [List.cons_append] at hls
    cases hls
    rw [leadingText?_eq_some_iff.mpr ⟨s, rfl, hs⟩] at h
    cases h

theorem Item.leadingText?_of_text? {i : Item} {t : String} (h : i.text? = some t) :
    i.leadingText? = some (t, []) := by
  rw [text?] at h
  split at h <;> cases h
  assumption

/-- What follows a text that is not all of a value. -/
theorem Item.followed_of_text? {i : Item} {t : String} {ls : List Lexeme}
    (h : i.leadingText? = some (t, ls)) (htext : i.text? = none) (hclosed : i.isClosed = true)
    (behind : List Lexeme) : ls ++ behind ≠ [] ∧ sees "," (ls ++ behind) = false := by
  cases ls with
  | nil =>
    rw [text?, h] at htext
    cases htext
  | cons l ls =>
    refine ⟨List.cons_ne_nil _ _, ?_⟩
    rw [isClosed, h, Option.all_some, Bool.not_eq_true'] at hclosed
    cases l <;> exact hclosed

namespace SerializerKeys

variable {σ : Type} (k : SerializerKeys σ)

theorem reads_assignedText {ls rest : List Lexeme} {t : String}
    (h : leadingText? ls = some (t, rest)) :
    Reads assignedText (.mark '=' false :: ls) t rest := by
  obtain ⟨s, rfl, hs⟩ := leadingText?_eq_some_iff.mp h
  have hmark : Reads (mark "=") (.mark '=' false :: .literal s :: rest) () (.literal s :: rest) :=
    reads_mark rfl
  refine hmark.bind ((reads_rest _).bind ?_)
  simp only [hs]
  exact (reads_skip 1 _).bind (Reads.pure t rest)

theorem refuses_assignedText {ls : List Lexeme} (h : leadingText? ls = none) :
    Refuses assignedText (.mark '=' false :: ls) := by
  refine .of_bind (reads_mark rfl) (.of_bind (reads_rest ls) ?_)
  split
  · split
    · rename_i hs
      rw [leadingText?_eq_some_iff.mpr ⟨_, rfl, hs⟩] at h
      cases h
    · exact refuses_missing _ _
  · exact refuses_missing _ _

/-- A text is read up to its end, and one with something behind it up to there. -/
theorem reads_text {i : Item} {t : String} {ls : List Lexeme} (h : i.leadingText? = some (t, ls))
    (behind : List Lexeme) : Reads assignedText (i.behindKey ++ behind) t (ls ++ behind) := by
  rcases i.behindKey_cases with ⟨v, hv, hleading⟩ | ⟨hnone, _⟩
  · rw [hv]
    exact reads_assignedText (leadingText?_append (hleading.trans h) behind)
  · rw [hnone] at h
    cases h

theorem refuses_text {i : Item} (h : i.leadingText? = none) {behind : List Lexeme}
    (hends : Ends behind) : Refuses assignedText (i.behindKey ++ behind) := by
  rcases i.behindKey_cases with ⟨v, hv, hleading⟩ | ⟨_, hmark⟩
  · rw [hv]
    exact refuses_assignedText (leadingText?_append_of_none (hleading.trans h) hends)
  · exact (refuses_mark (hmark behind hends)).bind _

/-! ### Names -/

variable {m : Nat}

/-- The step that reads a list of names. -/
def nameStep (g : Productions) (name : Option String) (key : String) : Parse (Option String) := do
  if key = "serialize" then return some (← assignedText)
  else
    pass g
    return name

theorem takes_nameEntry {i : Item} (h : i.NameEntry IsValue)
    (hm : Lexeme.sizeAll i.behindKey ≤ m) :
    Takes (nameStep (grammar (2 * m + 2))) i (fun name => i.writtenName?.or name) := by
  intro name behind hends
  cases h with
  | @text t hkey htext =>
    rw [Item.writtenName?, if_pos hkey, htext]
    refine reads_behindKey hkey isKey_serialize hends ?_
    exact (reads_text (Item.leadingText?_of_text? htext) behind).bind (Reads.pure (some t) behind)
  | other hkey hordinary =>
    obtain ⟨key, hk, hvalid⟩ := hordinary.exists_key
    rw [Item.writtenName?, if_neg hkey]
    refine reads_behindKey hk hvalid hends ?_
    rw [nameStep, if_neg (by rintro rfl; exact hkey hk)]
    exact (reads_pass hordinary hm hends).bind (Reads.pure name behind)

theorem stops_refusedName {i : Item} (h : i.RefusedName)
    (hm : Lexeme.sizeAll i.behindKey ≤ m) : Stops (nameStep (grammar (2 * m + 2))) i := by
  intro name behind hends
  refine stuck_item (fun key => h.isKey) hends fun key hk => ?_
  cases h with
  | text hkey htext hclosed =>
    cases hkey.symm.trans hk
    cases hleading : i.leadingText? with
    | none => exact .inl ((refuses_text hleading hends).bind _)
    | some x =>
      obtain ⟨t, ls⟩ := x
      refine .inr ⟨some t, ls ++ behind, ?_, Item.followed_of_text? hleading htext hclosed behind⟩
      exact (reads_text hleading behind).bind (Reads.pure (some t) _)
  | other hkey hrefused =>
    rw [nameStep, if_neg (by rintro rfl; exact hkey hk)]
    exact (stuck_pass hrefused hk hm hends).bind_pure name

theorem writtenName_eq (g : Productions) : writtenName g = (do
    if sees "=" (← rest) then return some (← assignedText)
    else within .round (itemwise (nameStep g) none)) := rfl

/-- A text behind an equals sign is read as a name. -/
theorem reads_writtenName_text (g : Productions) {i : Item} {t : String} {ls : List Lexeme}
    (h : i.leadingText? = some (t, ls)) (behind : List Lexeme) :
    Reads (writtenName g) (i.behindKey ++ behind) (some t) (ls ++ behind) := by
  have hmark : sees "=" (i.behindKey ++ behind) = true := by
    rcases i.behindKey_cases with ⟨v, hv, _⟩ | ⟨hnone, _⟩
    · rw [hv]
      rfl
    · rw [hnone] at h
      cases h
  rw [writtenName_eq]
  refine (reads_rest _).bind ?_
  rw [if_pos hmark]
  exact (reads_text h behind).bind (Reads.pure (some t) _)

/-- A name is read as it is given. -/
theorem reads_writtenName {i : Item} (h : i.Name IsValue) (hm : Lexeme.sizeAll i.behindKey ≤ m)
    (behind : List Lexeme) :
    Reads (writtenName (grammar (2 * m + 2))) (i.behindKey ++ behind) i.givenName? behind := by
  cases h with
  | @text i t htext =>
    have hgiven : i.givenName? = some t := by
      cases i with
      | list key items => cases htext
      | _ => exact htext
    rw [hgiven]
    exact reads_writtenName_text _ (Item.leadingText?_of_text? htext) behind
  | @names key items hne hitems =>
    have hinside := reads_itemwise (p := nameStep (grammar (2 * m + 2)))
      (f := fun i name => i.writtenName?.or name) hne (fun i hi key => (hitems i hi).isKey)
      (fun i hi => takes_nameEntry (hitems i hi)
        (Nat.le_trans (Nat.le_of_lt (sizeAll_behindKey_lt (k := key) hi)) hm)) none
    rw [foldl_or, Option.or_none] at hinside
    rw [writtenName_eq]
    exact (reads_rest _).bind (hinside.within behind)

/-- A name that is not given as it should be is not read, or has something behind it. -/
theorem stops_writtenName {i : Item} (h : k.Malformed i) (hkey : i.key? = some k.nameKey)
    (hm : Lexeme.sizeAll i.behindKey ≤ m) {behind : List Lexeme} (hends : Ends behind) :
    (Refuses (writtenName (grammar (2 * m + 2))) (i.behindKey ++ behind) ∧
        i.leadingText? = none) ∨
      ∃ t ls, i.leadingText? = some (t, ls) ∧ ls ++ behind ≠ [] ∧
        sees "," (ls ++ behind) = false := by
  have single (hleading : i.leadingText? = none)
      (hgroup : seesGroup .round (i.behindKey ++ behind) = false) :
      Refuses (writtenName (grammar (2 * m + 2))) (i.behindKey ++ behind) := by
    rw [writtenName_eq]
    refine .of_bind (reads_rest _) ?_
    split
    · exact (refuses_text hleading hends).bind _
    · exact refuses_within hgroup
  cases h with
  | lone _ => cases hkey
  | name _ _ hlist htext hclosed =>
    cases hleading : i.leadingText? with
    | some x => exact Or.inr ⟨x.1, x.2, rfl, Item.followed_of_text? hleading htext hclosed behind⟩
    | none =>
      refine Or.inl ⟨single hleading ?_, rfl⟩
      cases i with
      | list key items =>
        cases hkey
        exact absurd rfl (hlist items)
      | lone s => cases hkey
      | word key => cases hends <;> rfl
      | text key s => rfl
      | int key z => rfl
      | bool key b => rfl
      | expr key source => rfl
  | noNames _ =>
    refine Or.inl ⟨?_, rfl⟩
    rw [writtenName_eq]
    exact .of_bind (reads_rest _) ((refuses_itemwise_nil _ none).within behind)
  | @names before j after _ hbefore hj =>
    have hsize {i : Item} (hi : i ∈ before ++ j :: after) : Lexeme.sizeAll i.behindKey ≤ m :=
      Nat.le_trans (Nat.le_of_lt (sizeAll_behindKey_lt (k := k.nameKey) hi)) hm
    refine Or.inl ⟨?_, rfl⟩
    rw [writtenName_eq]
    refine .of_bind (reads_rest _) (Refuses.within ?_ behind)
    refine refuses_itemwise (fun i hi key hk => ?_)
      (fun i hi => takes_nameEntry (hbefore i hi) (hsize (List.mem_append_left _ hi)))
      (stops_refusedName hj (hsize (by simp))) after none
    rcases List.mem_append.mp hi with hi | hi
    · exact (hbefore i hi).isKey hk
    · exact (List.mem_singleton.mp hi ▸ hj).isKey hk
  | flag hkey' _ hflag _ => exact absurd (Option.some.inj (hkey'.symm.trans hkey)) hflag.1
  | other hkey' hne _ _ => exact absurd (Option.some.inj (hkey'.symm.trans hkey)) hne

variable {k : SerializerKeys σ} {i : Item} {behind : List Lexeme}

theorem reads_change (h : k.WellFormed IsValue i) (hm : Lexeme.sizeAll i.behindKey ≤ m)
    (hends : Ends behind) :
    Reads (k.change (grammar (2 * m + 2))) (i.lexemes ++ behind) (k.effect i) behind := by
  cases h with
  | name hkey hvalid hname =>
    refine reads_behindKey hkey hvalid hends ?_
    rw [if_pos rfl, effect_of_name hkey]
    refine (reads_writtenName hname hm behind).bind ?_
    cases i.givenName? <;> exact Reads.pure _ behind
  | @flag key hvalid hflag =>
    obtain ⟨set, hset⟩ := Option.isSome_iff_exists.mp hflag.2
    refine reads_behindKey rfl hvalid hends ?_
    rw [if_neg hflag.1, effect_of_other rfl hflag.1, hset]
    exact Reads.pure set behind
  | other hkey hne hnone hordinary =>
    refine reads_behindKey hkey (hordinary.isKey hkey) hends ?_
    rw [if_neg hne, effect_of_other hkey hne, hnone]
    exact (reads_pass hordinary hm hends).bind (Reads.pure id behind)

/-- An item that ends its attribute is not read, or no comma follows what is read of it. -/
theorem stops_change (h : k.Malformed i) (hm : Lexeme.sizeAll i.behindKey ≤ m)
    (hends : Ends behind) :
    (Refuses (k.change (grammar (2 * m + 2))) (i.lexemes ++ behind) ∧ k.remains i = id) ∨
      ∃ ls, Reads (k.change (grammar (2 * m + 2))) (i.lexemes ++ behind) (k.remains i) ls ∧
        ls ≠ [] ∧ sees "," ls = false := by
  by_cases hkey : i.key? = some k.nameKey
  · have hvalid := h.isKey hkey
    rcases stops_writtenName k h hkey hm hends with ⟨hrefuses, hleading⟩ | ⟨t, ls, hleading, hls⟩
    · refine Or.inl ⟨?_, ?_⟩
      · rw [Item.lexemes_eq hkey, List.append_assoc]
        refine .of_bind (reads_key hvalid (i.sees_behindKey hends)) ?_
        rw [if_pos rfl]
        exact hrefuses.bind _
      · rw [remains, if_pos hkey, hleading]
        rfl
    · refine Or.inr ⟨ls ++ behind, reads_behindKey hkey hvalid hends ?_, hls⟩
      rw [if_pos rfl, remains, if_pos hkey, hleading]
      exact (reads_writtenName_text _ hleading behind).bind (Reads.pure (k.setName t) _)
  · cases h with
    | lone s => exact Or.inl ⟨(refuses_key rfl rfl).bind _, rfl⟩
    | name hname _ _ _ _ => exact absurd hname hkey
    | noNames => exact absurd rfl hkey
    | names _ _ _ => exact absurd rfl hkey
    | @flag _ key hkey' hvalid hflag hword =>
      obtain ⟨set, hset⟩ := Option.isSome_iff_exists.mp hflag.2
      refine Or.inr ⟨i.behindKey ++ behind, reads_behindKey hkey' hvalid hends ?_, ?_⟩
      · rw [if_neg hflag.1, remains_of_other hkey' hflag.1, hset]
        exact Reads.pure set _
      · cases i with
        | word key' => exact absurd (congrArg Item.word (Option.some.inj hkey')) hword
        | lone s => cases hkey'
        | list key items => exact ⟨List.cons_ne_nil _ _, rfl⟩
        | text key s => exact ⟨List.cons_ne_nil _ _, rfl⟩
        | int key z => exact ⟨List.cons_ne_nil _ _, rfl⟩
        | bool key b => exact ⟨List.cons_ne_nil _ _, rfl⟩
        | expr key source => exact ⟨List.cons_ne_nil _ _, rfl⟩
    | @other _ key hkey' hne hnone hrefused =>
      have hremains : k.remains i = id := by
        rw [remains_of_other hkey' hne, hnone]
        rfl
      rw [hremains, Item.lexemes_eq hkey', List.append_assoc]
      have hread := reads_key (hrefused.isKey hkey') (i.sees_behindKey hends)
      rcases stuck_pass hrefused hkey' hm hends with hrefuses | ⟨_, ls, hpass, hls⟩
      · refine Or.inl ⟨.of_bind hread ?_, rfl⟩
        rw [if_neg hne, hnone]
        exact hrefuses.bind _
      · refine Or.inr ⟨ls, hread.bind ?_, hls⟩
        rw [if_neg hne, hnone]
        exact hpass.bind (Reads.pure id ls)

/-! ### Lists of items -/

theorem readFrom_of_refuses {g : Productions} {ls : List Lexeme} (h : Refuses (k.change g) ls)
    (n : Nat) (s : σ) (written : List Token) (leftover : Option Delimiter) :
    k.readFrom g n s ⟨ls, written, leftover⟩ = s := by
  cases n with
  | zero => rfl
  | succ n =>
    obtain ⟨fault, hfault⟩ := h written leftover
    rw [readFrom, k.item_run, hfault]
    rfl

theorem readFrom_of_stops {g : Productions} {ls rest : List Lexeme} {f : σ → σ}
    (h : Reads (k.change g) ls f rest) (hcomma : sees "," rest = false) (n : Nat) (s : σ)
    (written : List Token) (leftover : Option Delimiter) :
    k.readFrom g (n + 1) s ⟨ls, written, leftover⟩ = f s := by
  obtain ⟨ts, hf⟩ := h
  obtain ⟨fault, hfault⟩ := refuses_mark hcomma (ts.reverse ++ written) leftover
  rw [readFrom, k.item_run, hf]
  simp only [Except.map, hfault]

/-- An item as it should be has its effect, and reading goes on behind it. -/
theorem readFrom_cons (h : k.WellFormed IsValue i) (hm : Lexeme.sizeAll i.behindKey ≤ m)
    (is : List Item) (n : Nat) (s : σ) (written : List Token) (leftover : Option Delimiter) :
    ∃ written', k.readFrom (grammar (2 * m + 2)) (n + 1) s
        ⟨itemLexemes (i :: is), written, leftover⟩ =
      k.readFrom (grammar (2 * m + 2)) n (k.effect i s) ⟨itemLexemes is, written', leftover⟩ := by
  have hread := reads_change h hm (ends_onward is)
  rw [itemLexemes_cons]
  cases is with
  | nil =>
    refine ⟨[], ?_⟩
    rw [readFrom_of_stops hread rfl]
    exact (readFrom_of_refuses ((refuses_key rfl rfl).bind _) n _ _ _).symm
  | cons j is =>
    obtain ⟨ts, hf⟩ := hread
    have hsees : sees "," (onward (j :: is)) = true := rfl
    have hmark := writes_mark hsees (ts.reverse ++ written) leftover
    refine ⟨.mark "," :: (ts.reverse ++ written), ?_⟩
    rw [readFrom, k.item_run, hf]
    simp only [Except.map, hmark]
    rfl

theorem readFrom_append {good : List Item} (h : ∀ i ∈ good, k.WellFormed IsValue i)
    (hm : ∀ i ∈ good, Lexeme.sizeAll i.behindKey ≤ m) (rest : List Item) (n : Nat) (s : σ)
    (written : List Token) (leftover : Option Delimiter) :
    ∃ written', k.readFrom (grammar (2 * m + 2)) (good.length + n) s
        ⟨itemLexemes (good ++ rest), written, leftover⟩ =
      k.readFrom (grammar (2 * m + 2)) n (good.foldl (fun s i => k.effect i s) s)
        ⟨itemLexemes rest, written', leftover⟩ := by
  induction good generalizing s written with
  | nil => exact ⟨written, by rw [List.length_nil, Nat.zero_add]; rfl⟩
  | cons i is ih =>
    obtain ⟨written₁, hi⟩ := readFrom_cons (h i List.mem_cons_self) (hm i List.mem_cons_self)
      (is ++ rest) (is.length + n) s written leftover
    obtain ⟨written₂, his⟩ := ih (fun j hj => h j (List.mem_cons_of_mem _ hj))
      (fun j hj => hm j (List.mem_cons_of_mem _ hj)) (k.effect i s) written₁
    refine ⟨written₂, ?_⟩
    rw [List.length_cons, Nat.add_right_comm, List.cons_append, hi, his, List.foldl_cons]

theorem readEntries_append {good : List Item} (h : ∀ i ∈ good, k.WellFormed IsValue i)
    {rest : List Item} {es : List Entry} (hes : plainEntries? (good ++ rest) = some es) (s : σ) :
    ∃ es', plainEntries? rest = some es' ∧
      k.readEntries s es = k.readEntries (good.foldl (fun s i => k.effect i s) s) es' := by
  induction good generalizing es s with
  | nil => exact ⟨es, hes, rfl⟩
  | cons i is ih =>
    obtain ⟨e, es', he, hes', rfl⟩ := plainEntries?_cons hes
    rw [readEntries, step_of_wellFormed (h i List.mem_cons_self) he]
    exact ih (fun j hj => h j (List.mem_cons_of_mem _ hj)) hes' _

theorem length_le_sizeAll (ls : List Lexeme) : ls.length ≤ Lexeme.sizeAll ls := by
  induction ls with
  | nil => exact Nat.zero_le _
  | cons l ls ih =>
    have hpos : 0 < l.size := by cases l <;> simp [Lexeme.size]
    rw [List.length_cons, Lexeme.sizeAll]
    omega

/-- What stands behind the key of one of several items is no larger than all of them. -/
theorem sizeAll_behindKey_le {items : List Item} (hi : i ∈ items) :
    Lexeme.sizeAll i.behindKey ≤ Lexeme.sizeAll (itemLexemes items) :=
  Nat.le_trans (Lexeme.sizeAll_behindKey_le i) (Lexeme.sizeAll_lexemes_le hi)

/-- Items as they should be have their effects one after the other. -/
theorem readItems_of_wellFormed {items : List Item} (h : ∀ i ∈ items, k.WellFormed IsValue i)
    (s : σ) : k.readItems s items = items.foldl (fun s i => k.effect i s) s := by
  have hitems := (List.append_nil items).symm
  simp only [readItems]
  cases hes : plainEntries? items with
  | some es =>
    rw [hitems] at hes
    obtain ⟨es', hnil, hread⟩ := readEntries_append h hes s
    cases hnil
    exact hread
  | none =>
    have hlength := length_le_length_itemLexemes (fun i hi _ => (h i hi).isKey) []
    rw [List.append_nil] at hlength
    have hsize := length_le_sizeAll (itemLexemes items)
    obtain ⟨n, hn⟩ := Nat.exists_eq_add_of_le (Nat.le_trans hlength hsize)
    obtain ⟨written, hread⟩ :=
      readFrom_append h (fun i hi => sizeAll_behindKey_le hi) [] n s [] none
    rw [← hn, List.append_nil] at hread
    exact hread.trans (readFrom_of_refuses ((refuses_key rfl rfl).bind _) n _ _ _)

/-- What stands behind an item that ends its attribute is not seen. -/
theorem readItems_of_malformed {good : List Item} (h : ∀ i ∈ good, k.WellFormed IsValue i)
    {bad : Item} (hbad : k.Malformed bad) (after : List Item) (s : σ) :
    k.readItems s (good ++ bad :: after) =
      k.remains bad (good.foldl (fun s i => k.effect i s) s) := by
  simp only [readItems]
  cases hes : plainEntries? (good ++ bad :: after) with
  | some es =>
    obtain ⟨es', hrest, hread⟩ := readEntries_append h hes s
    obtain ⟨e, es'', he, _, rfl⟩ := plainEntries?_cons hrest
    rw [readEntries, step_of_malformed hbad he] at hread
    exact hread
  | none =>
    have hkey : ∀ i ∈ good ++ [bad], ∀ key, i.key? = some key → isKey key = true := by
      intro i hi key hk
      rcases List.mem_append.mp hi with hi | hi
      · exact (h i hi).isKey hk
      · exact (List.mem_singleton.mp hi ▸ hbad).isKey hk
    have hlength := length_le_length_itemLexemes hkey after
    rw [List.append_assoc, List.singleton_append, List.length_append, List.length_singleton]
      at hlength
    have hsize := length_le_sizeAll (itemLexemes (good ++ bad :: after))
    obtain ⟨n, hn⟩ := Nat.exists_eq_add_of_le (Nat.le_trans hlength hsize)
    obtain ⟨written, hread⟩ := readFrom_append h
      (fun i hi => sizeAll_behindKey_le (List.mem_append_left (bad :: after) hi)) (bad :: after)
      (1 + n) s [] none
    rw [← Nat.add_assoc, ← hn, itemLexemes_cons bad, Nat.add_comm 1 n] at hread
    refine hread.trans ?_
    have hmem : bad ∈ good ++ bad :: after := List.mem_append_right good List.mem_cons_self
    rcases stops_change hbad (sizeAll_behindKey_le hmem) (ends_onward after) with
      ⟨hrefuses, hid⟩ | ⟨ls, hreads, _, hcomma⟩
    · rw [readFrom_of_refuses hrefuses, hid]
      rfl
    · exact readFrom_of_stops hreads hcomma n _ _ _

end SerializerKeys

end Abridge.Derive

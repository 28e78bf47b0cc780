import Abridge.Entries

/-!
Bindings after an insertion, and after a log of insertions. A log is played on top of what is bound
already; each write replaces an earlier one of the same key, so nothing is bound that was not
written, and no key that was written is lost: a key is bound by its last write. Entries in the order
of their keys stay in order, and a log in that order is its own outcome.
-/
namespace Abridge.Entries

variable {α β : Type}

/-- The entries after the writes of a log, in order. -/
def play (out : Entries α) (log : List (String × α)) : Entries α :=
  log.foldl (fun acc w => insert w.1 w.2 acc) out

@[simp] theorem play_nil (out : Entries α) : play out [] = out := rfl

@[simp] theorem play_cons (out : Entries α) (w : String × α) (log : List (String × α)) :
    play out (w :: log) = play (insert w.1 w.2 out) log := rfl

theorem play_append (out : Entries α) (as bs : List (String × α)) :
    play out (as ++ bs) = play (play out as) bs := List.foldl_append

/-! ### One insertion -/

theorem mem_insert_self (k : String) (x : α) : ∀ es : Entries α, (k, x) ∈ insert k x es
  | [] => by simp [insert]
  | (j, y) :: rest => by
    rw [insert]
    split
    · exact List.mem_cons_self
    · split
      · exact List.mem_cons_self
      · exact List.mem_cons_of_mem _ (mem_insert_self k x rest)

/-- What is bound after an insertion is the new binding or was bound before. -/
theorem mem_insert {k : String} {x : α} {w : String × α} : ∀ {es : Entries α},
    w ∈ insert k x es → w = (k, x) ∨ w ∈ es
  | [], h => Or.inl (by simpa [insert] using h)
  | (j, y) :: rest, h => by
    rw [insert] at h
    split at h
    · exact List.mem_cons.mp h
    · split at h
      · rcases List.mem_cons.mp h with h | h
        · exact Or.inl h
        · exact Or.inr (List.mem_cons_of_mem _ h)
      · rcases List.mem_cons.mp h with h | h
        · exact Or.inr (h ▸ List.mem_cons_self)
        · exact (mem_insert h).imp id (List.mem_cons_of_mem _)

/-- An insertion keeps the bindings of other keys. -/
theorem mem_insert_of_ne {k : String} {x : α} {w : String × α} (hk : w.1 ≠ k) :
    ∀ {es : Entries α}, w ∈ es → w ∈ insert k x es
  | (j, y) :: rest, h => by
    rw [insert]
    split
    · exact List.mem_cons_of_mem _ h
    · split
      · rename_i hj
        rcases List.mem_cons.mp h with rfl | h
        · exact absurd hj.symm hk
        · exact List.mem_cons_of_mem _ h
      · rcases List.mem_cons.mp h with rfl | h
        · exact List.mem_cons_self
        · exact List.mem_cons_of_mem _ (mem_insert_of_ne hk h)

theorem mem_keys_insert_self (k : String) (x : α) (es : Entries α) : k ∈ keys (insert k x es) :=
  List.mem_map_of_mem (mem_insert_self k x es)

/-- A key stays when another one, or the same one, is bound. -/
theorem mem_keys_insert {j k : String} {x : α} {es : Entries α} (h : j ∈ keys es) :
    j ∈ keys (insert k x es) := by
  by_cases hk : j = k
  · exact hk ▸ mem_keys_insert_self k x es
  · obtain ⟨w, hw, rfl⟩ := List.mem_map.mp h
    exact List.mem_map_of_mem (mem_insert_of_ne hk hw)

theorem find?_insert_self (k : String) (x : α) : ∀ es : Entries α, find? k (insert k x es) = some x
  | [] => by simp [insert, find?]
  | (j, y) :: rest => by
    rw [insert]
    split
    · simp [find?]
    · split
      · simp [find?]
      · rename_i hj
        rw [find?, if_neg (fun h => hj h.symm), find?_insert_self k x rest]

/-- An insertion changes what its own key is bound to, and no other. -/
theorem find?_insert_of_ne {j k : String} (h : j ≠ k) (x : α) :
    ∀ es : Entries α, find? j (insert k x es) = find? j es
  | [] => by simp [insert, find?, h.symm]
  | (i, y) :: rest => by
    rw [insert]
    split
    · rw [find?, if_neg h.symm]
    · split
      · rename_i hi
        rw [find?, if_neg h.symm, find?, if_neg (hi ▸ h.symm)]
      · rw [find?, find?, find?_insert_of_ne h x rest]

/-! ### A log of insertions -/

/-- Nothing is bound that was neither written nor bound before. -/
theorem mem_play {w : String × α} : ∀ (log : List (String × α)) {out : Entries α},
    w ∈ play out log → w ∈ log ∨ w ∈ out
  | [], _, h => Or.inr h
  | u :: log, out, h => by
    rcases mem_play log h with h | h
    · exact Or.inl (List.mem_cons_of_mem _ h)
    · rcases mem_insert h with rfl | h
      · exact Or.inl List.mem_cons_self
      · exact Or.inr h

theorem mem_of_mem_play_nil {w : String × α} {log : List (String × α)} (h : w ∈ play [] log) :
    w ∈ log :=
  (mem_play log h).resolve_right (by simp)

theorem mem_keys_play_of_mem_keys {k : String} : ∀ (log : List (String × α)) {out : Entries α},
    k ∈ keys out → k ∈ keys (play out log)
  | [], _, h => h
  | _ :: log, _, h => mem_keys_play_of_mem_keys log (mem_keys_insert h)

/-- A key that was written stays bound. -/
theorem mem_keys_play {w : String × α} : ∀ (log : List (String × α)) {out : Entries α},
    w ∈ log → w.1 ∈ keys (play out log)
  | u :: log, out, h => by
    rcases List.mem_cons.mp h with rfl | h
    · exact mem_keys_play_of_mem_keys log (mem_keys_insert_self ..)
    · exact mem_keys_play log h

/-- The keys after a log are those that were written and those that were there. -/
theorem mem_keys_play_iff {k : String} {log : List (String × α)} {out : Entries α} :
    k ∈ keys (play out log) ↔ k ∈ keys log ∨ k ∈ keys out := by
  constructor
  · intro h
    obtain ⟨w, hw, rfl⟩ := List.mem_map.mp h
    exact (mem_play log hw).imp List.mem_map_of_mem List.mem_map_of_mem
  · rintro (h | h)
    · obtain ⟨w, hw, rfl⟩ := List.mem_map.mp h
      exact mem_keys_play log hw
    · exact mem_keys_play_of_mem_keys log h

theorem mem_keys_play_nil_iff {k : String} {log : List (String × α)} :
    k ∈ keys (play [] log) ↔ k ∈ keys log :=
  mem_keys_play_iff.trans (or_iff_left List.not_mem_nil)

/-- A key that is not written keeps what it is bound to. -/
theorem find?_play_of_forall_ne {k : String} : ∀ (log : List (String × α)) {out : Entries α},
    (∀ w ∈ log, w.1 ≠ k) → find? k (play out log) = find? k out
  | [], _, _ => rfl
  | w :: log, out, h => by
    rw [play_cons, find?_play_of_forall_ne log fun u hu => h u (List.mem_cons_of_mem _ hu),
      find?_insert_of_ne (h w List.mem_cons_self).symm]

theorem find?_append (k : String) (as bs : List (String × α)) :
    find? k (as ++ bs) = (find? k as).or (find? k bs) := by
  induction as with
  | nil => rfl
  | cons w as ih =>
    rw [List.cons_append, find?, find?, ih]
    split <;> rfl

theorem find?_eq_none_iff {k : String} {es : Entries α} : find? k es = none ↔ k ∉ keys es := by
  induction es with
  | nil => simp [find?, keys]
  | cons w rest ih =>
    rw [find?, keys, List.map_cons, List.mem_cons, not_or]
    split
    · rename_i hk
      simp [hk]
    · rename_i hk
      rw [ih, keys]
      exact ⟨fun h => ⟨Ne.symm hk, h⟩, fun h => h.2⟩

/-- A key is bound to what was written last, and to what it was bound to if nothing was. -/
theorem find?_play (k : String) (log : List (String × α)) (out : Entries α) :
    find? k (play out log) = (find? k log.reverse).or (find? k out) := by
  induction log generalizing out with
  | nil => rfl
  | cons w log ih =>
    rw [play_cons, ih, List.reverse_cons, find?_append, Option.or_assoc]
    congr 1
    by_cases hk : w.1 = k
    · rw [← hk, find?_insert_self, find?, if_pos rfl]
      rfl
    · rw [find?_insert_of_ne (Ne.symm hk), find?, if_neg hk]
      rfl

/-- What a key is bound to, seen from one write of a log. -/
theorem find?_play_split (k : String) (as : List (String × α)) (w : String × α)
    (bs : List (String × α)) (out : Entries α) : find? k (play out (as ++ w :: bs)) =
      (find? k bs.reverse).or (if w.1 = k then some w.2 else find? k (play out as)) := by
  rw [play_append, play_cons, find?_play]
  congr 1
  split
  · rename_i hk
    rw [← hk, find?_insert_self]
  · rename_i hk
    exact find?_insert_of_ne (Ne.symm hk) w.2 _

theorem mem_play_of_forall_ne {w : String × α} : ∀ (log : List (String × α)) {out : Entries α},
    (∀ u ∈ log, u.1 ≠ w.1) → w ∈ out → w ∈ play out log
  | [], _, _, h => h
  | u :: log, _, hne, h =>
    mem_play_of_forall_ne log (fun u hu => hne u (List.mem_cons_of_mem _ hu))
      (mem_insert_of_ne (hne u List.mem_cons_self).symm h)

/-- If no key is written twice, no write is lost. -/
theorem mem_play_of_mem {w : String × α} : ∀ (log : List (String × α)) {out : Entries α},
    (log.map Prod.fst).Nodup → w ∈ log → w ∈ play out log
  | u :: log, out, h, hw => by
    obtain ⟨hu, hlog⟩ := List.nodup_cons.mp h
    rcases List.mem_cons.mp hw with rfl | hw
    · refine mem_play_of_forall_ne log (fun v hv hvw => hu ?_) (mem_insert_self w.1 w.2 out)
      exact hvw ▸ List.mem_map_of_mem hv
    · exact mem_play_of_mem log hlog hw

/-! ### Entries in order -/

/-- The smallest key first, each key once. -/
def Ordered (es : Entries α) : Prop := es.Pairwise fun a b => a.1 < b.1

instance (es : Entries α) : Decidable (Ordered es) :=
  inferInstanceAs (Decidable (es.Pairwise fun a b => a.1 < b.1))

theorem Ordered.nodup {es : Entries α} (h : Ordered es) : es.Nodup :=
  h.imp fun {a b} hlt (heq : a = b) => String.lt_irrefl b.1 (heq ▸ hlt)

/-- Entries in order are told by what is bound. -/
theorem Ordered.eq_of_mem_iff {as bs : Entries α} (ha : Ordered as) (hb : Ordered bs)
    (h : ∀ w, w ∈ as ↔ w ∈ bs) : as = bs := by
  have hperm : as.Perm bs := (List.perm_ext_iff_of_nodup ha.nodup hb.nodup).mpr h
  exact hperm.eq_of_pairwise (fun _ _ _ _ hab hba => absurd hba (String.lt_asymm hab)) ha hb

theorem Ordered.find?_eq_some_iff {es : Entries α} (h : Ordered es) {k : String} {x : α} :
    find? k es = some x ↔ (k, x) ∈ es := by
  induction es with
  | nil => simp [find?]
  | cons w rest ih =>
    obtain ⟨hw, hrest⟩ := List.pairwise_cons.mp h
    rw [find?, List.mem_cons]
    split
    · rename_i hk
      subst hk
      have hnot : (w.1, x) ∉ rest := fun hm => String.lt_irrefl w.1 (hw (w.1, x) hm)
      rw [Option.some_inj, or_iff_left hnot, Prod.ext_iff, eq_self, true_and, eq_comm]
    · rename_i hk
      rw [ih hrest, or_iff_right fun heq => hk (Prod.ext_iff.mp heq).1.symm]

/-- Entries in order are told by what is found in them. -/
theorem Ordered.eq_of_find?_eq {as bs : Entries α} (ha : Ordered as) (hb : Ordered bs)
    (h : ∀ k, find? k as = find? k bs) : as = bs :=
  ha.eq_of_mem_iff hb fun w => by
    rw [← ha.find?_eq_some_iff, ← hb.find?_eq_some_iff, h]

theorem ordered_insert (k : String) (x : α) {es : Entries α} (h : Ordered es) :
    Ordered (insert k x es) := by
  induction es with
  | nil => exact List.pairwise_singleton ..
  | cons w rest ih =>
    obtain ⟨hw, hrest⟩ := List.pairwise_cons.mp h
    rw [insert]
    split
    · rename_i hk
      refine List.pairwise_cons.mpr ⟨fun u hu => ?_, h⟩
      rcases List.mem_cons.mp hu with rfl | hu
      · exact hk
      · exact String.lt_trans hk (hw u hu)
    · split
      · rename_i hk
        exact List.pairwise_cons.mpr ⟨fun u hu => hk ▸ hw u hu, hrest⟩
      · rename_i hlt hne
        refine List.pairwise_cons.mpr ⟨fun u hu => ?_, ih hrest⟩
        rcases mem_insert hu with rfl | hu
        · exact String.not_le.mp fun hle => hne (String.le_antisymm hle (String.not_lt.mp hlt))
        · exact hw u hu

theorem ordered_play {log : List (String × α)} {out : Entries α} (h : Ordered out) :
    Ordered (play out log) := by
  induction log generalizing out with
  | nil => exact h
  | cons w log ih => exact ih (ordered_insert w.1 w.2 h)

theorem insert_of_forall_lt {k : String} {es : Entries α} (h : ∀ w ∈ es, w.1 < k) (x : α) :
    insert k x es = es ++ [(k, x)] := by
  induction es with
  | nil => rfl
  | cons w rest ih =>
    have hw := h w List.mem_cons_self
    rw [insert, if_neg (String.lt_asymm hw), if_neg (String.ne_of_lt hw).symm,
      ih fun u hu => h u (List.mem_cons_of_mem _ hu)]
    rfl

/-- Writes in the order of their keys go behind what is there. -/
theorem play_of_ordered {log : List (String × α)} {out : Entries α} (h : Ordered (out ++ log)) :
    play out log = out ++ log := by
  induction log generalizing out with
  | nil => exact (List.append_nil out).symm
  | cons w log ih =>
    have hlt : ∀ u ∈ out, u.1 < w.1 := fun u hu =>
      (List.pairwise_append.mp h).2.2 u hu w List.mem_cons_self
    rw [List.append_cons] at h ⊢
    rw [play_cons, insert_of_forall_lt hlt, ih h]

theorem ofList_eq_play (es : List (String × α)) : ofList es = play [] es := rfl

theorem ordered_ofList (es : List (String × α)) : Ordered (ofList es) :=
  ordered_play List.Pairwise.nil

theorem mem_of_mem_ofList {w : String × α} {es : List (String × α)} (h : w ∈ ofList es) : w ∈ es :=
  mem_of_mem_play_nil h

theorem ofList_eq_self {es : Entries α} (h : Ordered es) : ofList es = es := by
  change play [] es = [] ++ es
  exact play_of_ordered h

/-! ### The last write of a key -/

/-- `LastWrite log k x`: the last write of the key `k` in the log binds it to `x`. -/
def LastWrite (log : List (String × α)) (k : String) (x : α) : Prop :=
  ∃ as bs, log = as ++ (k, x) :: bs ∧ ∀ w ∈ bs, w.1 ≠ k

theorem find?_of_forall_ne {k : String} {es : Entries α} (h : ∀ w ∈ es, w.1 ≠ k) :
    find? k es = none := by
  refine find?_eq_none_iff.mpr fun hk => ?_
  obtain ⟨w, hw, rfl⟩ := List.mem_map.mp hk
  exact h w hw rfl

/-- What is found is bound by the first write of the key. -/
theorem find?_eq_some_split {k : String} {x : α} {es : Entries α} (h : find? k es = some x) :
    ∃ as bs, es = as ++ (k, x) :: bs ∧ ∀ w ∈ as, w.1 ≠ k := by
  induction es with
  | nil => cases h
  | cons w rest ih =>
    rw [find?] at h
    split at h
    · rename_i hk
      cases h
      exact ⟨[], rest, by rw [← hk]; rfl, by simp⟩
    · rename_i hk
      obtain ⟨as, bs, rfl, has⟩ := ih h
      exact ⟨w :: as, bs, rfl, List.forall_mem_cons.mpr ⟨hk, has⟩⟩

/-- The last write of two logs, one after the other, stands in the second one, or in the first one
if the second one does not write the key. -/
theorem LastWrite.of_append {as bs : List (String × α)} {k : String} {x : α}
    (h : LastWrite (as ++ bs) k x) :
    LastWrite bs k x ∨ k ∉ keys bs ∧ (k, x) ∈ as := by
  obtain ⟨cs, ds, heq, hds⟩ := h
  rcases List.append_eq_append_iff.mp heq with ⟨es, rfl, rfl⟩ | ⟨es, rfl, htail⟩
  · exact Or.inl ⟨es, ds, rfl, hds⟩
  · cases es with
    | nil => exact Or.inl ⟨[], ds, htail.symm, hds⟩
    | cons w es =>
      obtain ⟨rfl, rfl⟩ := List.cons.inj htail
      refine Or.inr ⟨fun hk => ?_, by simp⟩
      obtain ⟨u, hu, rfl⟩ := List.mem_map.mp hk
      exact hds u (List.mem_append_right _ hu) rfl

/-- What is bound after a log is what was written last. -/
theorem mem_play_nil_iff {log : List (String × α)} {k : String} {x : α} :
    (k, x) ∈ play [] log ↔ LastWrite log k x := by
  have hordered : Ordered (play [] log) := ordered_play List.Pairwise.nil
  rw [← hordered.find?_eq_some_iff]
  constructor
  · intro h
    rw [find?_play, find?, Option.or_none] at h
    obtain ⟨as, bs, heq, has⟩ := find?_eq_some_split h
    refine ⟨bs.reverse, as.reverse, ?_, fun w hw => has w (List.mem_reverse.mp hw)⟩
    rw [← List.reverse_inj, heq]
    simp
  · rintro ⟨as, bs, rfl, hbs⟩
    have hlater : find? k bs.reverse = none :=
      find?_of_forall_ne fun w hw => hbs w (List.mem_reverse.mp hw)
    rw [find?_play_split, hlater, if_pos rfl, Option.none_or]

/-! ### Values of entries -/

/-- The same keys, with a function applied to what they are bound to. -/
def mapValues (f : α → β) (es : Entries α) : Entries β := es.map fun w => (w.1, f w.2)

@[simp] theorem keys_mapValues (f : α → β) (es : Entries α) : keys (mapValues f es) = keys es := by
  rw [keys, mapValues, List.map_map]
  rfl

theorem mapValues_reverse (f : α → β) (es : Entries α) :
    mapValues f es.reverse = (mapValues f es).reverse := List.map_reverse

theorem find?_mapValues (f : α → β) (k : String) (es : Entries α) :
    find? k (mapValues f es) = (find? k es).map f := by
  induction es with
  | nil => rfl
  | cons w rest ih =>
    change find? k ((w.1, f w.2) :: mapValues f rest) = _
    rw [find?, find?, ih]
    split <;> rfl

theorem mapValues_insert (f : α → β) (k : String) (x : α) (es : Entries α) :
    mapValues f (insert k x es) = insert k (f x) (mapValues f es) := by
  induction es with
  | nil => rfl
  | cons w rest ih =>
    change mapValues f (insert k x (w :: rest)) = insert k (f x) ((w.1, f w.2) :: mapValues f rest)
    rw [insert, insert]
    split
    · rfl
    · split
      · rfl
      · exact congrArg _ ih

theorem mapValues_play (f : α → β) (log : List (String × α)) (out : Entries α) :
    mapValues f (play out log) = play (mapValues f out) (mapValues f log) := by
  induction log generalizing out with
  | nil => rfl
  | cons w log ih => rw [play_cons, ih, mapValues_insert]; rfl

end Abridge.Entries

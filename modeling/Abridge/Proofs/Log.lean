import Abridge.Proofs.Entries
import Abridge.Proofs.Outcome
import Abridge.Trim

/-!
What containers write. A record plays a log of writes, one field after the other, and so does a map
with its entries; a sequence strings together what its items leave. Every write of a log goes back
to one field or entry that is visible, and to one look at it.
-/
namespace Abridge

/-! ### What is written -/

namespace Seen

/-- What a field of that name writes into its record. -/
def fieldWrites (name : String) : Seen → List (String × Tree)
  | .nothing => []
  | .leaf t => [(name, t)]
  | .table es => if es.isEmpty then [] else [(name, .map es)]
  | .list n ts =>
    if ts.isEmpty then []
    else [(name, .seq ts), (sizeKey name, .int (min n Word.maxSigned : Nat))]
  | .boxed t => if t.isNull then [] else [(name, t)]

/-- What an entry of that key writes into its map. -/
def entryWrites (key : String) : Seen → List (String × Tree)
  | .nothing => []
  | s => [(key, s.tree)]

theorem asField_eq_play (name : String) (out : Entries Tree) (s : Seen) :
    s.asField name out = Entries.play out (s.fieldWrites name) := by
  cases s with
  | nothing | leaf => rfl
  | table | list | boxed => rw [asField, fieldWrites]; split <;> rfl

theorem asEntry_eq_play (key : String) (out : Entries Tree) (s : Seen) :
    s.asEntry key out = Entries.play out (s.entryWrites key) := by
  cases s <;> rfl

/-- A field writes its tree under its name, and the size of a sequence beside it. -/
theorem mem_fieldWrites {name : String} {s : Seen} {w : String × Tree}
    (h : w ∈ s.fieldWrites name) : w = (name, s.tree) ∨ ∃ n ts, s = .list n ts ∧ ts ≠ [] ∧
      w = (sizeKey name, .int (min n Word.maxSigned : Nat)) := by
  cases s with
  | nothing => cases h
  | leaf t => exact Or.inl (List.mem_singleton.mp h)
  | table es =>
    rw [fieldWrites] at h
    split at h
    · cases h
    · exact Or.inl (List.mem_singleton.mp h)
  | list n ts =>
    rw [fieldWrites] at h
    split at h
    · cases h
    · rename_i hts
      rcases List.mem_cons.mp h with h | h
      · exact Or.inl h
      · exact Or.inr ⟨n, ts, rfl, by simpa using hts, List.mem_singleton.mp h⟩
  | boxed t =>
    rw [fieldWrites] at h
    split at h
    · cases h
    · exact Or.inl (List.mem_singleton.mp h)

theorem mem_entryWrites {key : String} {s : Seen} {w : String × Tree}
    (h : w ∈ s.entryWrites key) : w = (key, s.tree) := by
  cases s with
  | nothing => cases h
  | _ => exact List.mem_singleton.mp h

/-- An item leaves its own tree, and that is no sequence that it held itself. -/
theorem mem_asItem {s : Seen} {t : Tree} (h : t ∈ s.asItem) :
    t = s.tree ∧ ∀ n ts, s ≠ .list n ts := by
  cases s with
  | nothing | list => cases h
  | leaf | table | boxed => exact ⟨List.mem_singleton.mp h, fun _ _ => by simp⟩

end Seen

/-! ### Logs -/

/-- The writes of the fields of a record. -/
def fieldLog (p : Policy) (depth : Int) :
    List (Descriptor × Value) → Except Fault (List (String × Tree))
  | [] => .ok []
  | (d, v) :: rest =>
    match d.emitted? with
    | none => fieldLog p depth rest
    | some name =>
      if p.isVisible name then do
        let s ← look p .field false depth v
        let log ← fieldLog p depth rest
        return s.fieldWrites name ++ log
      else fieldLog p depth rest

/-- The writes of the entries of a map. -/
def entryLog (p : Policy) (depth : Int) :
    List (String × Value) → Except Fault (List (String × Tree))
  | [] => .ok []
  | (k, v) :: rest =>
    if p.isVisible k then do
      let s ← look p .entry false depth v
      let log ← entryLog p depth rest
      return s.entryWrites k ++ log
    else entryLog p depth rest

/-- A record plays the log of its fields. -/
theorem fields_eq_play (p : Policy) (depth : Int) (fs : List (Descriptor × Value))
    (out : Entries Tree) :
    fields p depth out fs = (fieldLog p depth fs).map (Entries.play out) := by
  induction fs generalizing out with
  | nil => rfl
  | cons f rest ih =>
    obtain ⟨d, v⟩ := f
    rw [fields, fieldLog]
    cases d.emitted? with
    | none => exact ih out
    | some name =>
      simp only
      split
      · cases look p .field false depth v with
        | error f => rfl
        | ok s =>
          change fields p depth (s.asField name out) rest = _
          rw [ih, Seen.asField_eq_play]
          cases fieldLog p depth rest with
          | error f => rfl
          | ok log => exact congrArg Except.ok (Entries.play_append ..).symm
      · exact ih out

/-- A map plays the log of its entries. -/
theorem entries_eq_play (p : Policy) (depth : Int) (es : List (String × Value))
    (out : Entries Tree) :
    entries p depth out es = (entryLog p depth es).map (Entries.play out) := by
  induction es generalizing out with
  | nil => rfl
  | cons e rest ih =>
    obtain ⟨k, v⟩ := e
    rw [entries, entryLog]
    split
    · cases look p .entry false depth v with
      | error f => rfl
      | ok s =>
        change entries p depth (s.asEntry k out) rest = _
        rw [ih, Seen.asEntry_eq_play]
        cases entryLog p depth rest with
        | error f => rfl
        | ok log => exact congrArg Except.ok (Entries.play_append ..).symm
    · exact ih out

/-- A visible field, seen as `S` says, writes `w`, and all that it writes is in the log. -/
def FieldWrites (p : Policy) (S : Value → Seen → Prop) (fs : List (Descriptor × Value))
    (log : List (String × Tree)) (w : String × Tree) : Prop :=
  ∃ d v name s, (d, v) ∈ fs ∧ d.emitted? = some name ∧ p.isVisible name = true ∧ S v s ∧
    w ∈ s.fieldWrites name ∧ ∀ u ∈ s.fieldWrites name, u ∈ log

/-- A visible entry, seen as `S` says, writes `w`. -/
def EntryWrites (p : Policy) (S : Value → Seen → Prop) (es : List (String × Value))
    (w : String × Tree) : Prop :=
  ∃ k v s, (k, v) ∈ es ∧ p.isVisible k = true ∧ S v s ∧ w ∈ s.entryWrites k

/-- An item, seen as `S` says, leaves `t`. -/
def ItemLeaves (S : Value → Seen → Prop) (vs : List Value) (t : Tree) : Prop :=
  ∃ v s, v ∈ vs ∧ S v s ∧ t ∈ s.asItem

/-- A write of the fields that follow is a write of all of them. -/
theorem FieldWrites.cons {p : Policy} {S : Value → Seen → Prop} {f : Descriptor × Value}
    {fs : List (Descriptor × Value)} {log log' : List (String × Tree)} {w : String × Tree}
    (h : FieldWrites p S fs log' w) (hsub : ∀ u ∈ log', u ∈ log) :
    FieldWrites p S (f :: fs) log w := by
  obtain ⟨d, v, name, s, hm, hn, hp, hs, hw, hall⟩ := h
  exact ⟨d, v, name, s, List.mem_cons_of_mem _ hm, hn, hp, hs, hw, fun u hu => hsub u (hall u hu)⟩

theorem EntryWrites.cons {p : Policy} {S : Value → Seen → Prop} {e : String × Value}
    {es : List (String × Value)} {w : String × Tree} (h : EntryWrites p S es w) :
    EntryWrites p S (e :: es) w := by
  obtain ⟨k, v, s, hm, hp, hs, hw⟩ := h
  exact ⟨k, v, s, List.mem_cons_of_mem _ hm, hp, hs, hw⟩

theorem ItemLeaves.cons {S : Value → Seen → Prop} {v : Value} {vs : List Value} {t : Tree}
    (h : ItemLeaves S vs t) : ItemLeaves S (v :: vs) t := by
  obtain ⟨u, s, hm, hs, ht⟩ := h
  exact ⟨u, s, List.mem_cons_of_mem _ hm, hs, ht⟩

theorem fieldWrites_of_mem {p : Policy} {depth : Int} {w : String × Tree} :
    ∀ {fs : List (Descriptor × Value)} {log : List (String × Tree)},
    fieldLog p depth fs = .ok log → w ∈ log →
      FieldWrites p (fun v s => look p .field false depth v = .ok s) fs log w
  | [], _, h, hw => by cases h; cases hw
  | (d, v) :: rest, log, h, hw => by
    rw [fieldLog] at h
    cases hd : d.emitted? with
    | none => rw [hd] at h; exact (fieldWrites_of_mem h hw).cons fun _ hu => hu
    | some name =>
      rw [hd] at h
      simp only at h
      split at h
      · rename_i hp
        obtain ⟨s, hs, h⟩ := bind_eq_ok h
        obtain ⟨log', hlog', h⟩ := bind_eq_ok h
        cases h
        rcases List.mem_append.mp hw with hw | hw
        · exact ⟨d, v, name, s, List.mem_cons_self, hd, hp, hs, hw,
            fun _ hu => List.mem_append_left _ hu⟩
        · exact (fieldWrites_of_mem hlog' hw).cons fun _ hu => List.mem_append_right _ hu
      · exact (fieldWrites_of_mem h hw).cons fun _ hu => hu

theorem entryWrites_of_mem {p : Policy} {depth : Int} {w : String × Tree} :
    ∀ {es : List (String × Value)} {log : List (String × Tree)},
    entryLog p depth es = .ok log → w ∈ log →
      EntryWrites p (fun v s => look p .entry false depth v = .ok s) es w
  | [], _, h, hw => by cases h; cases hw
  | (k, v) :: rest, log, h, hw => by
    rw [entryLog] at h
    split at h
    · rename_i hp
      obtain ⟨s, hs, h⟩ := bind_eq_ok h
      obtain ⟨log', hlog', h⟩ := bind_eq_ok h
      cases h
      rcases List.mem_append.mp hw with hw | hw
      · exact ⟨k, v, s, List.mem_cons_self, hp, hs, hw⟩
      · exact (entryWrites_of_mem hlog' hw).cons
    · exact (entryWrites_of_mem h hw).cons

theorem items_nil (p : Policy) (depth : Int) : ∀ n : Nat, items p depth n [] = .ok []
  | 0 => rfl
  | _ + 1 => rfl

theorem itemLeaves_of_mem {p : Policy} {depth : Int} {t : Tree} :
    ∀ {n : Nat} {vs : List Value} {ts : List Tree}, items p depth n vs = .ok ts → t ∈ ts →
      ItemLeaves (fun v s => look p .item false depth v = .ok s) vs t
  | 0, _, _, h, ht => by rw [items] at h; cases h; cases ht
  | _ + 1, [], _, h, ht => by rw [items_nil] at h; cases h; cases ht
  | n + 1, v :: rest, ts, h, ht => by
    rw [items] at h
    obtain ⟨s, hs, h⟩ := bind_eq_ok h
    obtain ⟨ts', hts', h⟩ := bind_eq_ok h
    cases h
    rcases List.mem_append.mp ht with ht | ht
    · exact ⟨v, s, List.mem_cons_self, hs, ht⟩
    · exact (itemLeaves_of_mem hts' ht).cons

theorem length_items_le {p : Policy} {depth : Int} :
    ∀ {n : Nat} {vs : List Value} {ts : List Tree}, items p depth n vs = .ok ts → ts.length ≤ n
  | 0, _, _, h => by rw [items] at h; cases h; simp
  | _ + 1, [], _, h => by rw [items_nil] at h; cases h; simp
  | n + 1, v :: rest, ts, h => by
    rw [items] at h
    obtain ⟨s, _, h⟩ := bind_eq_ok h
    obtain ⟨ts', hts', h⟩ := bind_eq_ok h
    cases h
    have hrest := length_items_le hts'
    have hone : s.asItem.length ≤ 1 := by cases s <;> simp [Seen.asItem]
    rw [List.length_append]
    omega

/-- A sequence of one item shows that item, if the policy has room for it. -/
theorem look_list_one {p : Policy} (ha : 0 < p.arrayLimit) {place : Place} (hp : place ≠ .item)
    (opened : Bool) (depth : Int) (v : Value) : look p place opened depth (.list [v]) =
      (look p .item false depth v).map fun s => .list 1 s.asItem := by
  obtain ⟨m, hm⟩ : ∃ m, p.arrayLimit.toNat = m + 1 := ⟨p.arrayLimit.toNat - 1, by omega⟩
  have hroom : ¬ maxRoom < min (m + 1) 1 := by simp only [maxRoom, Word.maxSigned]; omega
  rw [Value.list, look, if_neg hp, if_neg (by simp; omega), hm, List.length_singleton,
    if_neg hroom, items, items_nil]
  cases look p .item false depth v with
  | error f => rfl
  | ok s => exact congrArg (fun ts => Except.ok (Seen.list 1 ts)) (List.append_nil s.asItem)

end Abridge

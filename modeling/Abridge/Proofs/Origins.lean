import Mathlib.Data.List.Induction
import Abridge.Proofs.Bindings
import Abridge.Proofs.Kept
import Abridge.Proofs.LastWrites
import Abridge.Proofs.Replaced

/-!
Where the nodes of a tree come from. A node stands at a path of keys and indices; a part of a value
supplies a child of a node if it is the field or entry that writes the key last, or the item that
leaves the tree at the index. Along such steps every part gives the node at its path, and every node
comes from a part, but for the lengths that stand beside sequences.
-/
namespace Abridge

/-! ### Paths -/

namespace Tree

/-- A step into a tree: to what a key is bound to, or to an item. -/
inductive Step where | key (k : String) | index (i : Nat)

def child? (t : Tree) : Step → Option Tree
  | .key k => t.get? k
  | .index i => t.seq?.bind (·[i]?)

/-- The node at the end of a path. -/
def at? (t : Tree) : List Step → Option Tree
  | [] => some t
  | step :: path => (t.child? step).bind (·.at? path)

theorem at?_append (t : Tree) (path other : List Step) :
    t.at? (path ++ other) = (t.at? path).bind (·.at? other) := by
  induction path generalizing t with
  | nil => rfl
  | cons step path ih =>
    rw [List.cons_append, at?, at?]
    cases t.child? step with
    | none => rfl
    | some u => exact ih u

theorem at?_single (t : Tree) (step : Step) : t.at? [step] = t.child? step := by
  rw [at?]
  cases t.child? step <;> rfl

theorem child?_of_isLeaf {t : Tree} (h : t.isLeaf = true) (step : Step) : t.child? step = none := by
  cases t with
  | seq | map => cases h
  | _ => cases step <;> rfl

theorem child?_map {es : Entries Tree} {step : Step} {t : Tree}
    (h : (Tree.map es).child? step = some t) :
    ∃ k, step = .key k ∧ Entries.find? k es = some t := by
  cases step with
  | key k => exact ⟨k, rfl, h⟩
  | index i => cases h

theorem child?_seq {ts : List Tree} {step : Step} {t : Tree}
    (h : (Tree.seq ts).child? step = some t) : ∃ i, step = .index i ∧ ts[i]? = some t := by
  cases step with
  | key k => cases h
  | index i => exact ⟨i, rfl, h⟩

end Tree

/-! ### Who wrote it -/

section Log

variable {p : Policy} {depth : Int} {k : String} {t : Tree}

/-- The last write of a key goes back to one field; none of those after it writes the key. -/
theorem fieldLog_lastWrite {fs : List (Descriptor × Value)} {log : List (String × Tree)}
    (h : fieldLog p depth fs = .ok log) (hlast : Entries.LastWrite log k t) :
    ∃ as d u bs name s later, fs = as ++ (d, u) :: bs ∧ d.emitted? = some name ∧
      p.isVisible name = true ∧ look p .field false depth u = .ok s ∧
      (k, t) ∈ s.fieldWrites name ∧ fieldLog p depth bs = .ok later ∧ k ∉ Entries.keys later := by
  induction fs generalizing log with
  | nil =>
    cases h
    obtain ⟨as, bs, heq, _⟩ := hlast
    simp at heq
  | cons f rest ih =>
    obtain ⟨d, u⟩ := f
    rcases fieldLog_cons_eq_ok h with ⟨_, hrest⟩ | ⟨name, s, later, hd, hp, hs, hlater, rfl⟩
    · obtain ⟨as, d', u', bs, name, s, later, rfl, hfield⟩ := ih hrest hlast
      exact ⟨_ :: as, d', u', bs, name, s, later, rfl, hfield⟩
    · rcases hlast.of_append with hlast | ⟨hk, hw⟩
      · obtain ⟨as, d', u', bs, name', s', later', rfl, hfield⟩ := ih hlater hlast
        exact ⟨_ :: as, d', u', bs, name', s', later', rfl, hfield⟩
      · exact ⟨[], d, u, rest, name, s, later, rfl, hd, hp, hs, hw, hlater, hk⟩

theorem entryLog_lastWrite {es : List (String × Value)} {log : List (String × Tree)}
    (h : entryLog p depth es = .ok log) (hlast : Entries.LastWrite log k t) :
    ∃ as u bs s later, es = as ++ (k, u) :: bs ∧ p.isVisible k = true ∧
      look p .entry false depth u = .ok s ∧ (k, t) ∈ s.entryWrites k ∧
      entryLog p depth bs = .ok later ∧ k ∉ Entries.keys later := by
  induction es generalizing log with
  | nil =>
    cases h
    obtain ⟨as, bs, heq, _⟩ := hlast
    simp at heq
  | cons e rest ih =>
    obtain ⟨j, u⟩ := e
    rcases entryLog_cons_eq_ok h with ⟨_, hrest⟩ | ⟨hj, s, later, hs, hlater, rfl⟩
    · obtain ⟨as, u, bs, s, later, rfl, hentry⟩ := ih hrest hlast
      exact ⟨_ :: as, u, bs, s, later, rfl, hentry⟩
    · rcases hlast.of_append with hlast | ⟨hk, hw⟩
      · obtain ⟨as, u, bs, s, later, rfl, hentry⟩ := ih hlater hlast
        exact ⟨_ :: as, u, bs, s, later, rfl, hentry⟩
      · cases Seen.mem_entryWrites hw
        exact ⟨[], u, rest, s, later, rfl, hj, hs, hw, hlater, hk⟩

/-- An item that is kept goes back to one value, and those before it to the values before. -/
theorem items_getElem {n i : Nat} {vs : List Value} {ts : List Tree}
    (h : items p depth n vs = .ok ts) (hi : ts[i]? = some t) :
    ∃ as u bs s before, vs = as ++ u :: bs ∧ as.length < n ∧ items p depth n as = .ok before ∧
      before.length = i ∧ look p .item false depth u = .ok s ∧ t ∈ s.asItem := by
  induction vs generalizing n i ts with
  | nil =>
    rw [items_nil] at h
    cases h
    cases hi
  | cons v rest ih =>
    cases n with
    | zero =>
      rw [items] at h
      cases h
      cases hi
    | succ n =>
      rw [items] at h
      obtain ⟨s, hs, h⟩ := bind_eq_ok h
      obtain ⟨ts', hts', h⟩ := bind_eq_ok h
      cases h
      rw [List.getElem?_append] at hi
      split at hi
      · rename_i hlt
        have hone : s.asItem.length ≤ 1 := by cases s <;> simp [Seen.asItem]
        refine ⟨[], v, rest, s, [], rfl, by simp, items_nil .., ?_, hs, List.mem_of_getElem? hi⟩
        simp
        omega
      · rename_i hlt
        obtain ⟨as, u, bs, s', before, rfl, hlen, hbefore, hcount, hu, ht⟩ := ih hts' hi
        refine ⟨v :: as, u, bs, s', s.asItem ++ before, rfl, by simpa using hlen, ?_, ?_, hu, ht⟩
        · rw [items, hs, hbefore]
          rfl
        · rw [List.length_append]
          omega

end Log

/-! ### Where a node comes from -/

/-- `a.Supplies p v step b u`: looked at from `a`, the value `v` has for a child of its tree what is
seen of its part `u` from `b`. -/
inductive Spot.Supplies (p : Policy) (a : Spot) : Value → Tree.Step → Spot → Value → Prop
  /-- The last field that writes the key, if the key is its name. -/
  | field {as d u bs name s later} : 0 < spend a.depth → d.emitted? = some name →
    p.isVisible name = true → look p .field false (spend a.depth) u = .ok s →
    s.fieldWrites name ≠ [] → fields p (spend a.depth) [] bs = .ok later →
    name ∉ Entries.keys later → Supplies p a (.record (as ++ (d, u) :: bs)) (.key name)
      ⟨.field, false, spend a.depth⟩ u
  /-- The last entry that writes the key. -/
  | entry {as k u bs s later} : 0 < spend a.depth → p.isVisible k = true →
    look p .entry false (spend a.depth) u = .ok s → s ≠ .nothing →
    entries p (spend a.depth) [] bs = .ok later → k ∉ Entries.keys later →
    Supplies p a (.map (as ++ (k, u) :: bs)) (.key k) ⟨.entry, false, spend a.depth⟩ u
  /-- The item behind those that leave as many trees. -/
  | item {n as u bs s before} : a.place ≠ .item → n ≠ 0 → as.length < p.arrayLimit.toNat →
    items p a.depth p.arrayLimit.toNat as = .ok before → look p .item false a.depth u = .ok s →
    s.asItem ≠ [] → Supplies p a (.seq n (as ++ u :: bs)) (.index before.length)
      ⟨.item, false, a.depth⟩ u

/-- `Origin p a v path b w`: in the tree of what is seen of `v` from `a`, the node at the path comes
from the part `w` of `v`, looked at from `b`. Options and trait objects add no node of their own. -/
inductive Origin (p : Policy) : Spot → Value → List Tree.Step → Spot → Value → Prop
  | here {a v} : Origin p a v [] a v
  | optional {a v path b w} : a.opened = false → Origin p ⟨a.place, true, a.depth⟩ v path b w →
    Origin p a (.optional v) path b w
  | dynamic {a v path b w} : Origin p ⟨.root, false, a.place.dynamicDepth a.depth⟩ v path b w →
    Origin p a (.dynamic v) path b w
  | child {a v step b u path c w} : a.Supplies p v step b u → Origin p b u path c w →
    Origin p a v (step :: path) c w

theorem Origin.trans {p : Policy} {a b c : Spot} {v w x : Value} {path other : List Tree.Step}
    (h : Origin p a v path b w) (hother : Origin p b w other c x) :
    Origin p a v (path ++ other) c x := by
  induction h with
  | here => exact hother
  | optional ho _ ih => exact .optional ho (ih hother)
  | dynamic _ ih => exact .dynamic (ih hother)
  | child hstep _ ih => exact .child hstep (ih hother)

/-! ### A part gives the node that comes from it -/

/-- A log that writes no such key leaves what stands under it. -/
theorem Entries.find?_play_of_fresh {α : Type} {key : String} (log : List (String × α))
    {es : Entries α} (h : key ∉ Entries.keys (Entries.play [] log)) :
    Entries.find? key (Entries.play es log) = Entries.find? key es := by
  refine Entries.find?_play_of_forall_ne log fun w hw heq => h ?_
  rw [← heq]
  exact Entries.mem_keys_play log hw

theorem items_append_cons {p : Policy} {depth : Int} {as bs : List Value} {u : Value} {s : Seen}
    {n : Nat} {before ts : List Tree} (hlen : as.length < n)
    (hbefore : items p depth n as = .ok before) (hs : look p .item false depth u = .ok s)
    (h : items p depth n (as ++ u :: bs) = .ok ts) : ∃ after, ts = before ++ s.asItem ++ after := by
  induction as generalizing n before ts with
  | nil =>
    obtain ⟨m, rfl⟩ := Nat.exists_eq_succ_of_ne_zero (Nat.ne_zero_of_lt hlen)
    rw [items_nil] at hbefore
    rw [List.nil_append, items] at h
    obtain ⟨r, hr, h⟩ := bind_eq_ok h
    obtain ⟨after, _, h⟩ := bind_eq_ok h
    cases hs.symm.trans hr
    cases hbefore
    cases h
    exact ⟨after, rfl⟩
  | cons v as ih =>
    obtain ⟨m, rfl⟩ := Nat.exists_eq_succ_of_ne_zero (Nat.ne_zero_of_lt hlen)
    rw [items] at hbefore
    rw [List.cons_append, items] at h
    obtain ⟨r, hr, hbefore⟩ := bind_eq_ok hbefore
    obtain ⟨before', hbefore', hbefore⟩ := bind_eq_ok hbefore
    obtain ⟨r', hr', h⟩ := bind_eq_ok h
    obtain ⟨ts', hts', h⟩ := bind_eq_ok h
    cases hr.symm.trans hr'
    cases hbefore
    cases h
    obtain ⟨after, rfl⟩ := ih (by simpa using hlen) hbefore' hts'
    exact ⟨after, by simp⟩

theorem find?_asEntry {s : Seen} (h : s ≠ .nothing) (key : String) (out : Entries Tree) :
    Entries.find? key (s.asEntry key out) = some s.tree := by
  cases s with
  | nothing => exact absurd rfl h
  | _ => exact Entries.find?_insert_self ..

theorem Seen.asItem_eq_singleton {s : Seen} (h : s.asItem ≠ []) : s.asItem = [s.tree] := by
  cases s with
  | nothing | list => exact absurd rfl h
  | _ => rfl

theorem Spot.Supplies.child {p : Policy} {a b : Spot} {v u : Value} {step : Tree.Step} {s : Seen}
    (h : a.Supplies p v step b u) (hs : look p a.place a.opened a.depth v = .ok s) :
    ∃ r, look p b.place b.opened b.depth u = .ok r ∧ s.tree.child? step = some r.tree := by
  cases h with
  | @field as d u bs name r later hdepth hd hp hr hkept hlater hname =>
    rw [look, if_neg (by omega), fields_append] at hs
    obtain ⟨out, hout, rfl⟩ := map_eq_ok hs
    obtain ⟨mid, _, hout⟩ := bind_eq_ok hout
    rw [fields_cons_of_shown hd hp, hr] at hout
    change fields p (spend a.depth) (r.asField name mid) bs = .ok out at hout
    rw [fields_eq_play] at hout hlater
    obtain ⟨log, hlog, rfl⟩ := map_eq_ok hout
    rw [hlog] at hlater
    cases hlater
    refine ⟨r, hr, ?_⟩
    change Entries.find? name _ = _
    rw [Entries.find?_play_of_fresh log hname, find?_asField hkept]
  | @entry as k u bs r later hdepth hp hr hkept hlater hkey =>
    rw [look, if_neg (by omega), entries_append] at hs
    obtain ⟨out, hout, rfl⟩ := map_eq_ok hs
    obtain ⟨mid, _, hout⟩ := bind_eq_ok hout
    rw [entries_cons_of_shown hp, hr] at hout
    change entries p (spend a.depth) (r.asEntry k mid) bs = .ok out at hout
    rw [entries_eq_play] at hout hlater
    obtain ⟨log, hlog, rfl⟩ := map_eq_ok hout
    rw [hlog] at hlater
    cases hlater
    refine ⟨r, hr, ?_⟩
    change Entries.find? k _ = _
    rw [Entries.find?_play_of_fresh log hkey, find?_asEntry hkept k]
  | @item n as u bs r before hplace hn hlen hbefore hr hkept =>
    rw [look, if_neg hplace, if_neg (by omega)] at hs
    split at hs
    · cases hs
    · obtain ⟨ts, hts, rfl⟩ := map_eq_ok hs
      obtain ⟨after, rfl⟩ := items_append_cons hlen hbefore hr hts
      refine ⟨r, hr, ?_⟩
      rw [Seen.asItem_eq_singleton hkept]
      change (before ++ [r.tree] ++ after)[before.length]? = _
      simp

theorem Origin.node {p : Policy} {a b : Spot} {v w : Value} {path : List Tree.Step}
    (h : Origin p a v path b w) {s : Seen} (hs : look p a.place a.opened a.depth v = .ok s) :
    ∃ r, look p b.place b.opened b.depth w = .ok r ∧ s.tree.at? path = some r.tree := by
  induction h generalizing s with
  | here => exact ⟨s, hs, rfl⟩
  | optional ho _ ih =>
    rw [look, ho, if_neg (by decide)] at hs
    exact ih hs
  | dynamic _ ih =>
    rw [look] at hs
    obtain ⟨r, hr, rfl⟩ := map_eq_ok hs
    exact @ih r hr
  | child hstep _ ih =>
    obtain ⟨r, hr, hchild⟩ := hstep.child hs
    obtain ⟨r', hr', hnode⟩ := ih hr
    exact ⟨r', hr', by rw [Tree.at?, hchild]; exact hnode⟩

/-! ### What is seen, by kind -/

section Kinds

variable {p : Policy} {place : Place} {opened : Bool} {depth : Int} {v : Value} {s : Seen}

/-- What is seen is seen of a value before which no option is opened any more. -/
theorem exists_bare (h : look p place opened depth v = .ok s) : ∃ b u,
    look p place b depth u = .ok s ∧ (u = v ∨ v = .optional u ∧ opened = false) ∧
      ∀ w, u = .optional w → b = true := by
  cases v with
  | optional u =>
    cases opened with
    | true => exact ⟨true, _, h, Or.inl rfl, fun _ _ => rfl⟩
    | false =>
      rw [look, if_neg (by decide)] at h
      exact ⟨true, u, h, Or.inr ⟨rfl, rfl⟩, fun _ _ => rfl⟩
  | _ => exact ⟨opened, _, h, Or.inl rfl, by simp⟩

/-- Of such a value nothing is seen, or plain data other than null, or what its kind shows. -/
theorem look_cases (h : look p place opened depth v = .ok s)
    (hbare : ∀ u, v = .optional u → opened = true) :
    s = .nothing ∨ (∃ t, s = .leaf t ∧ t.isLeaf = true ∧ t ≠ .null) ∨
    (∃ u r, v = .dynamic u ∧ look p .root false (place.dynamicDepth depth) u = .ok r ∧
      s = .boxed r.tree) ∨
    ((v.container? = some .record ∨ v.container? = some .map) ∧ ∃ es, s = .table es) ∨
    (v.container? = some .seq ∧ ∃ n ts, s = .list n ts ∧ (ts ≠ [] → ∃ vs, v = .seq n vs)) := by
  have table (hkind : v.container? = some .record ∨ v.container? = some .map) :
      ∃ es, s = .table es := look_table hkind h
  have list (hkind : v.container? = some .seq) : s = .nothing ∨
      ∃ n ts, s = .list n ts ∧ (ts ≠ [] → ∃ vs, v = .seq n vs) := by
    by_cases hplace : place = .item
    · rw [hplace, look_nested hkind] at h
      exact Or.inl (Except.ok.inj h).symm
    · exact Or.inr (look_list hplace hkind h)
  cases v with
  | absent | unsupported =>
    cases h
    exact Or.inl rfl
  | faulty f => cases h
  | scalar a =>
    cases h
    exact Or.inr (Or.inl ⟨_, rfl, Scalar.isLeaf_trim p a, by cases a <;> simp [Scalar.trim]⟩)
  | special a =>
    cases h
    exact Or.inr (Or.inl ⟨_, rfl, Special.isLeaf_trim p a, by cases a <;> simp [Special.trim]⟩)
  | optional u =>
    rw [look, hbare u rfl, if_pos rfl] at h
    exact Or.inl (Except.ok.inj h).symm
  | dynamic u =>
    obtain ⟨r, hr, rfl⟩ := map_eq_ok h
    exact Or.inr (Or.inr (Or.inl ⟨u, r, rfl, hr, rfl⟩))
  | record => exact Or.inr (Or.inr (Or.inr (Or.inl ⟨Or.inl rfl, table (Or.inl rfl)⟩)))
  | map => exact Or.inr (Or.inr (Or.inr (Or.inl ⟨Or.inr rfl, table (Or.inr rfl)⟩)))
  | seq => exact (list rfl).imp_right fun hlist => Or.inr (Or.inr (Or.inr ⟨rfl, hlist⟩))
  | broken kind f =>
    cases kind with
    | record => exact Or.inr (Or.inr (Or.inr (Or.inl ⟨Or.inl rfl, table (Or.inl rfl)⟩)))
    | map => exact Or.inr (Or.inr (Or.inr (Or.inl ⟨Or.inr rfl, table (Or.inr rfl)⟩)))
    | seq => exact (list rfl).imp_right fun hlist => Or.inr (Or.inr (Or.inr ⟨rfl, hlist⟩))

end Kinds

/-! ### Every node comes from a part -/

/-- Below options and trait objects stands what the tree is made of. -/
theorem exists_content {p : Policy} {v : Value} : ∀ {a : Spot} {s : Seen},
    look p a.place a.opened a.depth v = .ok s → ∃ b w r, Origin p a v [] b w ∧
      look p b.place b.opened b.depth w = .ok r ∧ r.tree = s.tree ∧ (∀ u, w ≠ .dynamic u) ∧
        ∀ u, w = .optional u → b.opened = true := by
  induction v with
  | optional u ih =>
    intro a s hs
    cases ho : a.opened with
    | true => exact ⟨a, _, s, .here, hs, rfl, by simp, fun _ _ => ho⟩
    | false =>
      rw [look, ho, if_neg (by decide)] at hs
      obtain ⟨b, w, r, hw, hr⟩ := @ih ⟨a.place, true, a.depth⟩ s hs
      exact ⟨b, w, r, .optional ho hw, hr⟩
  | dynamic u ih =>
    intro a s hs
    rw [look] at hs
    obtain ⟨s', hs', rfl⟩ := map_eq_ok hs
    obtain ⟨b, w, r, hw, hr⟩ := @ih ⟨.root, false, a.place.dynamicDepth a.depth⟩ s' hs'
    exact ⟨b, w, r, .dynamic hw, hr⟩
  | _ => exact fun hs => ⟨_, _, _, .here, hs, rfl, by simp, by simp⟩

/-- What a part comes to, or the length of a sequence beside it. -/
def Spot.Accounts (p : Policy) (a : Spot) (v : Value) (step : Tree.Step) (t : Tree) : Prop :=
  (∃ b u r, a.Supplies p v step b u ∧ look p b.place b.opened b.depth u = .ok r ∧ r.tree = t) ∨
    ∃ name z, step = .key (Seen.sizeKey name) ∧ t = .int z

section Supplies

variable {p : Policy} {a : Spot} {step : Tree.Step} {t : Tree}

theorem accounts_field {fs : List (Descriptor × Value)} {out : Entries Tree} {key : String}
    (hdepth : 0 < spend a.depth) (hout : fields p (spend a.depth) [] fs = .ok out)
    (ht : Entries.find? key out = some t) : a.Accounts p (.record fs) (.key key) t := by
  rw [fields_eq_play] at hout
  obtain ⟨log, hlog, rfl⟩ := map_eq_ok hout
  have hordered : (Entries.play [] log).Ordered := Entries.ordered_play .nil
  rw [hordered.find?_eq_some_iff, Entries.mem_play_nil_iff] at ht
  obtain ⟨as, d, u, bs, name, s, later, rfl, hd, hp, hs, hw, hlater, hkey⟩ :=
    fieldLog_lastWrite hlog ht
  rcases Seen.mem_fieldWrites hw with heq | ⟨n, ts, _, _, heq⟩
  · cases heq
    have hfields : fields p (spend a.depth) [] bs = .ok (Entries.play [] later) := by
      rw [fields_eq_play, hlater]
      rfl
    have hfresh : key ∉ Entries.keys (Entries.play [] later) := by
      rwa [Entries.mem_keys_play_nil_iff]
    exact Or.inl ⟨_, u, s,
      .field hdepth hd hp hs (List.ne_nil_of_mem hw) hfields hfresh, hs, rfl⟩
  · cases heq
    exact Or.inr ⟨name, _, rfl, rfl⟩

theorem accounts_entry {es : List (String × Value)} {out : Entries Tree} {key : String}
    (hdepth : 0 < spend a.depth) (hout : entries p (spend a.depth) [] es = .ok out)
    (ht : Entries.find? key out = some t) : a.Accounts p (.map es) (.key key) t := by
  rw [entries_eq_play] at hout
  obtain ⟨log, hlog, rfl⟩ := map_eq_ok hout
  have hordered : (Entries.play [] log).Ordered := Entries.ordered_play .nil
  rw [hordered.find?_eq_some_iff, Entries.mem_play_nil_iff] at ht
  obtain ⟨as, u, bs, s, later, rfl, hp, hs, hw, hlater, hkey⟩ := entryLog_lastWrite hlog ht
  cases Seen.mem_entryWrites hw
  have hentries : entries p (spend a.depth) [] bs = .ok (Entries.play [] later) := by
    rw [entries_eq_play, hlater]
    rfl
  have hfresh : key ∉ Entries.keys (Entries.play [] later) := by
    rwa [Entries.mem_keys_play_nil_iff]
  have hkept : s ≠ .nothing := by
    rintro rfl
    cases hw
  exact Or.inl ⟨_, u, s, .entry hdepth hp hs hkept hentries hfresh, hs, rfl⟩

theorem accounts_item {n i : Nat} {vs : List Value} {ts : List Tree} (hplace : a.place ≠ .item)
    (hn : n ≠ 0) (hts : items p a.depth p.arrayLimit.toNat vs = .ok ts) (ht : ts[i]? = some t) :
    a.Accounts p (.seq n vs) (.index i) t := by
  obtain ⟨as, u, bs, s, before, rfl, hlen, hbefore, rfl, hs, hmem⟩ := items_getElem hts ht
  obtain ⟨rfl, _⟩ := Seen.mem_asItem hmem
  exact Or.inl ⟨_, u, s, .item hplace hn hlen hbefore hs (List.ne_nil_of_mem hmem), hs, rfl⟩

/-- A child of a tree is what a part comes to, or the length of a sequence beside it. -/
theorem accounts_child {v : Value} {s : Seen}
    (hs : look p a.place a.opened a.depth v = .ok s) (hdynamic : ∀ u, v ≠ .dynamic u)
    (hoptional : ∀ u, v = .optional u → a.opened = true) (ht : s.tree.child? step = some t) :
    a.Accounts p v step t := by
  have leafless {u : Tree} (hleaf : u.isLeaf = true) (hu : u.child? step = some t) :
      a.Accounts p v step t := by
    rw [Tree.child?_of_isLeaf hleaf] at hu
    cases hu
  rcases look_cases hs hoptional with rfl | ⟨u, rfl, hleaf, _⟩ | ⟨u, _, rfl, _⟩ |
    ⟨hkind, es, rfl⟩ | ⟨hkind, n, ts, rfl, hseq⟩
  · exact leafless rfl ht
  · exact leafless hleaf ht
  · exact absurd rfl (hdynamic u)
  · obtain ⟨k, rfl, hk⟩ := Tree.child?_map ht
    -- The table has a key, so there was a level left to ask for the content.
    have hdepth : 0 < spend a.depth := by
      by_contra hspent
      rw [look_spent (by omega) hkind] at hs
      cases hs
      cases hk
    cases v with
    | record fs =>
      rw [look, if_neg (by omega)] at hs
      obtain ⟨out, hout, heq⟩ := map_eq_ok hs
      cases heq
      exact accounts_field hdepth hout hk
    | map vs =>
      rw [look, if_neg (by omega)] at hs
      obtain ⟨out, hout, heq⟩ := map_eq_ok hs
      cases heq
      exact accounts_entry hdepth hout hk
    | broken kind f =>
      cases kind with
      | record | map =>
        rw [look, if_neg (by omega)] at hs
        · cases hs
        · simp
      | seq => rcases hkind with h | h <;> cases h
    | _ => rcases hkind with h | h <;> cases h
  · obtain ⟨i, rfl, hi⟩ := Tree.child?_seq ht
    have hne : ts ≠ [] := by
      rintro rfl
      cases hi
    obtain ⟨vs, rfl⟩ := hseq hne
    have hplace : a.place ≠ .item := by
      intro hitem
      rw [hitem, look_nested hkind] at hs
      cases hs
    rw [look, if_neg hplace] at hs
    split at hs
    · cases hs
      exact absurd rfl hne
    · split at hs
      · cases hs
      · obtain ⟨us, hus, heq⟩ := map_eq_ok hs
        cases heq
        exact accounts_item hplace (by omega) hus hi

end Supplies

/-- What a part comes to in its place in a tree, or the length of a sequence. -/
def Grown (p : Policy) (a : Spot) (v : Value) (path : List Tree.Step) (t : Tree) : Prop :=
  (∃ b w r, Origin p a v path b w ∧ look p b.place b.opened b.depth w = .ok r ∧ r.tree = t) ∨
    ∃ above name z, path = above ++ [.key (Seen.sizeKey name)] ∧ t = .int z

section Nodes

variable {p : Policy} {a : Spot} {v : Value} {path : List Tree.Step} {t : Tree}

/-- A child of a node is supplied by the part that the node comes from. -/
theorem Grown.child {step : Tree.Step} {u : Tree} (h : Grown p a v path t)
    (hu : t.child? step = some u) :
    ∃ b w, Origin p a v path b w ∧ b.Accounts p w step u := by
  rcases h with ⟨c, x, q, hx, hq, rfl⟩ | ⟨_, _, z, _, rfl⟩
  · obtain ⟨b, w, r, hw, hr, htree, hdynamic, hoptional⟩ := exists_content hq
    rw [← htree] at hu
    have hpath : Origin p a v path b w := List.append_nil path ▸ hx.trans hw
    exact ⟨b, w, hpath, accounts_child hr hdynamic hoptional hu⟩
  · rw [Tree.child?_of_isLeaf rfl] at hu
    cases hu

/-- Every node comes from a part, or is the length of a sequence. -/
theorem grown_of_at? {s : Seen} (hs : look p a.place a.opened a.depth v = .ok s)
    (ht : s.tree.at? path = some t) : Grown p a v path t := by
  induction path using List.reverseRecOn generalizing t with
  | nil =>
    cases ht
    exact Or.inl ⟨a, v, s, .here, hs, rfl⟩
  | append_singleton path step ih =>
    rw [Tree.at?_append] at ht
    obtain ⟨u, hu, ht⟩ := Option.bind_eq_some_iff.mp ht
    rw [Tree.at?_single] at ht
    obtain ⟨b, w, hw, hchild⟩ := (ih hu).child ht
    rcases hchild with ⟨c, x, r, hx, hr, rfl⟩ | ⟨name, z, rfl, rfl⟩
    · exact Or.inl ⟨c, x, r, hw.trans (.child hx .here), hr, rfl⟩
    · exact Or.inr ⟨path, name, z, rfl, rfl⟩

end Nodes

end Abridge

import Abridge.Proofs.CutOff
import Abridge.Proofs.Limits

/-!
A record as the log of what its fields write. Each field in its turn writes nothing, one binding, or
for a sequence the binding and the length beside it; which of these depends on what the value of the
field comes to by itself. The record binds every key to what was written for it last, whatever the
names of its fields are, so a field that writes nothing leaves what an earlier one wrote.
-/
namespace Abridge

/-! ### What a field writes -/

/-- `Attached p depth name v ws`: with `depth` levels left to a record, a field `name` of value `v`
writes `ws` into it. -/
inductive Attached (p : Policy) (depth : Int) (name : String) :
    Value → List (String × Tree) → Prop
  | absent : Attached p depth name .absent []
  | unsupported : Attached p depth name .unsupported []
  | scalar {s} : Attached p depth name (.scalar s) [(name, s.trim p)]
  | special {s} : Attached p depth name (.special s) [(name, s.trim p)]
  /-- A record or map spends one level of its own. -/
  | table {v es} : v.container? = some .record ∨ v.container? = some .map →
    v.trim { p with depthLimit := depth } = .ok (.map es) → es ≠ [] →
    Attached p depth name v [(name, .map es)]
  | emptyTable {v} : v.container? = some .record ∨ v.container? = some .map →
    v.trim { p with depthLimit := depth } = .ok (.map []) → Attached p depth name v []
  /-- The length is the one that the sequence claims, however many items are kept. -/
  | list {n vs ts} : (Value.seq n vs).trim { p with depthLimit := depth } = .ok (.seq ts) →
    ts ≠ [] → Attached p depth name (.seq n vs)
      [(name, .seq ts), ("_size__" ++ name, .int (min n Word.maxSigned : Nat))]
  | emptyList {v} : v.container? = some .seq →
    v.trim { p with depthLimit := depth } = .ok (.seq []) → Attached p depth name v []
  | boxed {v t} : v.trim { p with depthLimit := depth - 1 } = .ok t → t ≠ .null →
    Attached p depth name (.dynamic v) [(name, t)]
  | boxedNull {v} : v.trim { p with depthLimit := depth - 1 } = .ok .null →
    Attached p depth name (.dynamic v) []
  | optional {v ws} : (∀ u, v ≠ .optional u) → Attached p depth name v ws →
    Attached p depth name (.optional v) ws
  | twice {v} : Attached p depth name (.optional (.optional v)) []

/-- `Writes p depth fs log`: the fields write the log into their record, one after the other. -/
inductive Writes (p : Policy) (depth : Int) :
    List (Descriptor × Value) → List (String × Tree) → Prop
  | nil : Writes p depth [] []
  | excluded {d v fs log} : d.emitted? = none → Writes p depth fs log →
    Writes p depth ((d, v) :: fs) log
  | hidden {d v fs name log} : d.emitted? = some name → p.isVisible name = false →
    Writes p depth fs log → Writes p depth ((d, v) :: fs) log
  | shown {d v fs name ws log} : d.emitted? = some name → p.isVisible name = true →
    Attached p depth name v ws → Writes p depth fs log → Writes p depth ((d, v) :: fs) (ws ++ log)

/-! ### One field -/

/-- A container that is no item is seen alike everywhere. -/
theorem look_container {v : Value} (h : v.container?.isSome = true) {place : Place}
    (hplace : place ≠ .item) (opened : Bool) (p : Policy) (depth : Int) :
    look p place opened depth v = look p .root false depth v := by
  have hroot : Place.root ≠ .item := by decide
  cases v with
  | record | map => rfl
  | seq n vs => rw [look, look, if_neg hplace, if_neg hroot]
  | broken kind f =>
    cases kind with
    | record | map => rfl
    | seq => rw [look, look, if_neg hplace, if_neg hroot]
  | _ => cases h

theorem Tree.isNull_iff {t : Tree} : t.isNull = true ↔ t = .null := by
  cases t <;> simp [Tree.isNull]

theorem spend_of_left {depth : Int} (h : 0 < depth) : spend depth = depth - 1 := by
  simp only [spend, Word.minSigned]
  omega

section Container

variable {p : Policy} {place : Place} {opened : Bool} {depth : Int} {v : Value} {s : Seen}

theorem look_table (h : v.container? = some .record ∨ v.container? = some .map)
    (hs : look p place opened depth v = .ok s) : ∃ es, s = .table es := by
  by_cases hdepth : spend depth ≤ 0
  · rw [look_spent hdepth h] at hs
    exact ⟨[], (Except.ok.inj hs).symm⟩
  · cases v with
    | record | map =>
      rw [look, if_neg hdepth] at hs
      obtain ⟨es, _, rfl⟩ := map_eq_ok hs
      exact ⟨es, rfl⟩
    | broken kind f =>
      cases kind with
      | record | map =>
        rw [look, if_neg hdepth] at hs
        · cases hs
        · simp
      | seq => rcases h with h | h <;> cases h
    | _ => rcases h with h | h <;> cases h

/-- Only a sequence that answers shows items, and the length that it claims. -/
theorem look_list (hplace : place ≠ .item) (h : v.container? = some .seq)
    (hs : look p place opened depth v = .ok s) :
    ∃ n ts, s = .list n ts ∧ (ts ≠ [] → ∃ vs, v = .seq n vs) := by
  cases v with
  | seq n vs =>
    rw [look, if_neg hplace] at hs
    split at hs
    · exact ⟨n, [], (Except.ok.inj hs).symm, fun _ => ⟨vs, rfl⟩⟩
    · split at hs
      · cases hs
      · obtain ⟨ts, _, rfl⟩ := map_eq_ok hs
        exact ⟨n, ts, rfl, fun _ => ⟨vs, rfl⟩⟩
  | broken kind f =>
    cases h
    rw [look, if_neg hplace] at hs
    split at hs
    · exact ⟨0, [], (Except.ok.inj hs).symm, fun hts => absurd rfl hts⟩
    · cases hs
  | _ => cases h

end Container

section Field

variable {p : Policy} {depth : Int} {name : String} {v : Value}

/-- What a container shows as a field is what it trims to alone. -/
theorem trim_container (h : v.container?.isSome = true) (opened : Bool) :
    v.trim { p with depthLimit := depth } = (look p .field opened depth v).map Seen.tree := by
  have hplace : Place.field ≠ .item := by decide
  rw [trim_depthLimit, look_container h hplace]

/-- What a field writes, it writes because a look has seen it. -/
theorem Attached.look_eq {ws : List (String × Tree)} (h : Attached p depth name v ws)
    (hdepth : 0 < depth) {opened : Bool} (ho : opened = true → ∀ u, v ≠ .optional u) :
    ∃ s, look p .field opened depth v = .ok s ∧ s.fieldWrites name = ws := by
  induction h generalizing opened with
  | absent | unsupported | scalar | special => exact ⟨_, rfl, rfl⟩
  | table hkind ht hes =>
    rw [trim_container (by rcases hkind with h | h <;> simp [h]) opened] at ht
    obtain ⟨s, hs, htree⟩ := map_eq_ok ht
    obtain ⟨es, rfl⟩ := look_table hkind hs
    cases htree
    exact ⟨_, hs, by simp [Seen.fieldWrites, hes]⟩
  | emptyTable hkind ht =>
    rw [trim_container (by rcases hkind with h | h <;> simp [h]) opened] at ht
    obtain ⟨s, hs, htree⟩ := map_eq_ok ht
    obtain ⟨es, rfl⟩ := look_table hkind hs
    cases htree
    exact ⟨_, hs, rfl⟩
  | list ht hts =>
    rw [trim_container rfl opened] at ht
    obtain ⟨s, hs, htree⟩ := map_eq_ok ht
    obtain ⟨m, us, rfl, hv⟩ := look_list (by decide) rfl hs
    cases htree
    obtain ⟨_, heq⟩ := hv hts
    cases heq
    exact ⟨_, hs, by simp [Seen.fieldWrites, Seen.sizeKey, hts]⟩
  | emptyList hkind ht =>
    rw [trim_container (by simp [hkind]) opened] at ht
    obtain ⟨s, hs, htree⟩ := map_eq_ok ht
    obtain ⟨m, us, rfl, _⟩ := look_list (by decide) hkind hs
    cases htree
    exact ⟨_, hs, rfl⟩
  | boxed ht hnull =>
    rw [trim_depthLimit, ← spend_of_left hdepth] at ht
    obtain ⟨s, hs, rfl⟩ := map_eq_ok ht
    refine ⟨.boxed s.tree, ?_, ?_⟩
    · rw [look, Place.dynamicDepth, if_neg (by decide), hs]
      rfl
    · rw [Seen.fieldWrites, if_neg (mt Tree.isNull_iff.mp hnull)]
  | boxedNull ht =>
    rw [trim_depthLimit, ← spend_of_left hdepth] at ht
    obtain ⟨s, hs, htree⟩ := map_eq_ok ht
    refine ⟨.boxed s.tree, ?_, ?_⟩
    · rw [look, Place.dynamicDepth, if_neg (by decide), hs]
      rfl
    · rw [← htree]
      rfl
  | optional hbare _ ih =>
    have hclosed : opened = false := by
      cases opened with
      | false => rfl
      | true => exact absurd rfl (ho rfl _)
    obtain ⟨s, hs, hws⟩ := @ih true fun _ => hbare
    exact ⟨s, by rw [look, hclosed, if_neg (by decide), hs], hws⟩
  | twice =>
    have hclosed : opened = false := by
      cases opened with
      | false => rfl
      | true => exact absurd rfl (ho rfl _)
    exact ⟨.nothing, by rw [look, hclosed, if_neg (by decide), look, if_pos rfl], rfl⟩

theorem attached_of_table {opened : Bool} {s : Seen}
    (h : v.container? = some .record ∨ v.container? = some .map)
    (hs : look p .field opened depth v = .ok s) : Attached p depth name v (s.fieldWrites name) := by
  obtain ⟨es, rfl⟩ := look_table h hs
  have ht : v.trim { p with depthLimit := depth } = .ok (.map es) := by
    rw [trim_container (by rcases h with h | h <;> simp [h]) opened, hs]
    rfl
  rw [Seen.fieldWrites]
  split
  · rename_i hes
    obtain rfl := List.isEmpty_iff.mp hes
    exact .emptyTable h ht
  · rename_i hes
    exact .table h ht (mt List.isEmpty_iff.mpr hes)

theorem attached_of_list {opened : Bool} {s : Seen} (h : v.container? = some .seq)
    (hs : look p .field opened depth v = .ok s) : Attached p depth name v (s.fieldWrites name) := by
  obtain ⟨n, ts, rfl, hv⟩ := look_list (by decide) h hs
  have ht : v.trim { p with depthLimit := depth } = .ok (.seq ts) := by
    rw [trim_container (by simp [h]) opened, hs]
    rfl
  rw [Seen.fieldWrites]
  split
  · rename_i hts
    obtain rfl := List.isEmpty_iff.mp hts
    exact .emptyList h ht
  · rename_i hts
    have hne : ts ≠ [] := mt List.isEmpty_iff.mpr hts
    obtain ⟨vs, rfl⟩ := hv hne
    exact .list ht hne

/-- What is seen of a field that is no option, it writes. -/
theorem attached_of_bare (hdepth : 0 < depth) (hbare : ∀ u, v ≠ .optional u) {opened : Bool}
    {s : Seen} (hs : look p .field opened depth v = .ok s) :
    Attached p depth name v (s.fieldWrites name) := by
  cases v with
  | absent => cases hs; exact .absent
  | unsupported => cases hs; exact .unsupported
  | scalar a => cases hs; exact .scalar
  | special a => cases hs; exact .special
  | faulty f => cases hs
  | optional u => exact absurd rfl (hbare u)
  | dynamic u =>
    obtain ⟨r, hr, rfl⟩ := map_eq_ok hs
    have ht : u.trim { p with depthLimit := depth - 1 } = .ok r.tree := by
      rw [trim_depthLimit, ← spend_of_left hdepth]
      exact congrArg (Except.map Seen.tree) hr
    rw [Seen.fieldWrites]
    split
    · rename_i hnull
      exact .boxedNull (Tree.isNull_iff.mp hnull ▸ ht)
    · rename_i hnull
      exact .boxed ht (mt Tree.isNull_iff.mpr hnull)
  | record => exact attached_of_table (Or.inl rfl) hs
  | map => exact attached_of_table (Or.inr rfl) hs
  | seq => exact attached_of_list rfl hs
  | broken kind f =>
    cases kind with
    | record => exact attached_of_table (Or.inl rfl) hs
    | map => exact attached_of_table (Or.inr rfl) hs
    | seq => exact attached_of_list rfl hs

theorem attached_iff (hdepth : 0 < depth) {ws : List (String × Tree)} :
    Attached p depth name v ws ↔
      ∃ s, look p .field false depth v = .ok s ∧ s.fieldWrites name = ws := by
  refine ⟨fun h => h.look_eq hdepth (by simp), ?_⟩
  rintro ⟨s, hs, rfl⟩
  cases v with
  | optional u =>
    rw [look, if_neg (by decide)] at hs
    cases u with
    | optional => cases hs; exact .twice
    | _ => exact .optional (by simp) (attached_of_bare hdepth (by simp) hs)
  | _ => exact attached_of_bare hdepth (by simp) hs

end Field

/-! ### The fields of a record -/

section Fields

variable {p : Policy} {depth : Int} {fs : List (Descriptor × Value)}
  {log : List (String × Tree)}

theorem fieldLog_cons_eq_ok {d : Descriptor} {u : Value} {rest : List (Descriptor × Value)}
    {log : List (String × Tree)} (h : fieldLog p depth ((d, u) :: rest) = .ok log) :
    (p.shows d = false ∧ fieldLog p depth rest = .ok log) ∨
    ∃ name s log', d.emitted? = some name ∧ p.isVisible name = true ∧
      look p .field false depth u = .ok s ∧ fieldLog p depth rest = .ok log' ∧
      log = s.fieldWrites name ++ log' := by
  rw [fieldLog] at h
  cases hd : d.emitted? with
  | none =>
    rw [hd] at h
    exact Or.inl ⟨by rw [Policy.shows, hd]; rfl, h⟩
  | some name =>
    rw [hd] at h
    simp only at h
    split at h
    · rename_i hp
      obtain ⟨s, hs, h⟩ := bind_eq_ok h
      obtain ⟨log', hlog', h⟩ := bind_eq_ok h
      exact Or.inr ⟨name, s, log', rfl, hp, hs, hlog', (Except.ok.inj h).symm⟩
    · rename_i hp
      exact Or.inl ⟨by simpa [Policy.shows, hd] using hp, h⟩

theorem Writes.passed {d : Descriptor} {v : Value} (hd : p.shows d = false)
    (h : Writes p depth fs log) : Writes p depth ((d, v) :: fs) log := by
  cases hname : d.emitted? with
  | none => exact .excluded hname h
  | some name => exact .hidden hname (by simpa [Policy.shows, hname] using hd) h

theorem writes_iff (hdepth : 0 < depth) :
    Writes p depth fs log ↔ fieldLog p depth fs = .ok log := by
  constructor
  · intro h
    induction h with
    | nil => rfl
    | excluded hd _ ih => rw [fieldLog, hd]; exact ih
    | hidden hd hp _ ih =>
      rw [fieldLog, hd]
      simp only [hp]
      exact ih
    | shown hd hp hv _ ih =>
      obtain ⟨s, hs, rfl⟩ := (attached_iff hdepth).mp hv
      rw [fieldLog, hd]
      simp only [hp, if_true, hs, ih]
      rfl
  · intro h
    induction fs generalizing log with
    | nil => cases h; exact .nil
    | cons f rest ih =>
      obtain ⟨d, v⟩ := f
      rcases fieldLog_cons_eq_ok h with ⟨hd, hrest⟩ | ⟨name, s, log', hd, hp, hs, hlog, rfl⟩
      · exact (ih hrest).passed hd
      · exact .shown hd hp ((attached_iff hdepth).mpr ⟨s, hs, rfl⟩) (ih hlog)

end Fields

/-- A record binds what its fields wrote last. -/
theorem record_binds_last_writes {p : Policy} {place : Place} {opened : Bool} {depth : Int}
    {v : Value} (hv : v.container? = some .record) :
    (spend depth ≤ 0 → look p place opened depth v = .ok (.table [])) ∧
    (0 < spend depth → ∀ s, look p place opened depth v = .ok s ↔ ∃ fs log out,
      v = .record fs ∧ Writes p (spend depth) fs log ∧ s = .table out ∧ out.Ordered ∧
        ∀ key t, (key, t) ∈ out ↔ Entries.LastWrite log key t) := by
  refine ⟨fun hd => look_spent hd (Or.inl hv), fun hd s => ?_⟩
  cases v with
  | record fs =>
    rw [look, if_neg (by omega), fields_eq_play]
    constructor
    · intro hs
      obtain ⟨out, hout, rfl⟩ := map_eq_ok hs
      obtain ⟨log, hlog, rfl⟩ := map_eq_ok hout
      exact ⟨fs, log, _, rfl, (writes_iff hd).mpr hlog, rfl, Entries.ordered_play .nil,
        fun _ _ => Entries.mem_play_nil_iff⟩
    · rintro ⟨_, log, out, hfs, hlog, rfl, hordered, hout⟩
      cases hfs
      have heq : out = Entries.play [] log :=
        hordered.eq_of_mem_iff (Entries.ordered_play .nil) fun w =>
          (hout w.1 w.2).trans Entries.mem_play_nil_iff.symm
      rw [(writes_iff hd).mp hlog, heq]
      rfl
  | broken kind f =>
    cases hv
    rw [look, if_neg (by omega)]
    · simp
    · simp
  | _ => cases hv

/-- Of two fields of one name the second is empty and leaves the first in place; of two writes for
the length of a sequence the second one stays. -/
theorem record_binds_last_writes_twice :
    let v : Value := .record [(⟨"a", none⟩, .text "x"), (⟨"a", none⟩, .optional (.record [])),
      (⟨"xs", none⟩, .list [.scalar (.bool true), .absent]),
      (⟨"_size__xs", none⟩, .dynamic (.scalar (.int 7))), (⟨"a", some "-"⟩, .text "y")]
    let out : Entries Tree := [("_size__xs", .int 7), ("a", .text "x"), ("xs", .seq [.bool true])]
    v.container? = some .record ∧ look .standard .root false 10 v = .ok (.table out) ∧
      ∃ fs log, v = .record fs ∧ Writes .standard (spend 10) fs log ∧
        ∀ key t, (key, t) ∈ out ↔ Entries.LastWrite log key t := by
  intro v out
  have hv : v.container? = some .record := rfl
  have hleft : 0 < spend 10 := by decide
  have hlook : look .standard .root false 10 v = .ok (.table out) := rfl
  obtain ⟨fs, log, _, hfs, hlog, hout, _, hlast⟩ :=
    ((record_binds_last_writes hv).2 hleft _).mp hlook
  cases hout
  exact ⟨hv, hlook, fs, log, hfs, hlog, hlast⟩

end Abridge

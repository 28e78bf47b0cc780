import Mathlib.Data.List.Nodup
import Abridge.Proofs.Limits
import Abridge.Proofs.Room

/-!
What a map binds: each visible key whose value is there, and no other, to what the value alone trims
to within the levels that are left for it. If the keys are apart this tells the result, whatever the
order of the entries, and there is a result unless something panics.
-/
namespace Abridge

/-! ### What an entry comes to -/

/-- Is there a value? One level of option is opened to see, and no second one. -/
def Value.isThere : Value → Bool
  | .absent | .unsupported => false
  | .optional .absent | .optional .unsupported | .optional (.optional _) => false
  | _ => true

/-- The levels left for a value of a map that has `depth` left: a dynamic one spends another. -/
def Value.levels (depth : Int) : Value → Int
  | .dynamic _ | .optional (.dynamic _) => spend depth
  | _ => depth

/-- A look at an entry sees what a look at the value alone sees, within the levels left for it. -/
theorem look_entry (p : Policy) (depth : Int) (v : Value) :
    look p .entry false depth v = look p .root false (v.levels depth) v := by
  have opened : ∀ u : Value, (∀ w, u ≠ .optional w) → ∀ b,
      look p .entry b depth u = look p .root b (u.levels depth) u := by
    intro u hu b
    cases u with
    | optional w => exact absurd rfl (hu w)
    | broken kind f => cases kind <;> rfl
    | _ => rfl
  cases v with
  | optional u =>
    rw [look, look]
    cases u with
    | optional => rfl
    | _ => exact opened _ (fun _ => by simp) true
  | _ => exact opened _ (fun _ => by simp) false

theorem look_entry_of_not_there {v : Value} (h : v.isThere = false) (p : Policy) (depth : Int) :
    look p .entry false depth v = .ok .nothing := by
  cases v with
  | absent | unsupported => rfl
  | optional u =>
    cases u with
    | absent | unsupported | optional => rfl
    | _ => cases h
  | _ => cases h

/-- Of a value that is there and no option, a look at an entry sees something. -/
theorem ne_nothing_of_bare {p : Policy} {opened : Bool} {depth : Int} {v : Value} {s : Seen}
    (hv : v.isThere = true) (hbare : ∀ u, v ≠ .optional u)
    (h : look p .entry opened depth v = .ok s) : s ≠ .nothing := by
  cases v with
  | absent | unsupported => cases hv
  | optional u => exact absurd rfl (hbare u)
  | faulty f => cases h
  | scalar | special =>
    cases h
    simp
  | dynamic u =>
    obtain ⟨r, _, rfl⟩ := map_eq_ok h
    simp
  | record | map =>
    rw [look] at h
    split at h
    · cases h
      simp
    · obtain ⟨es, _, rfl⟩ := map_eq_ok h
      simp
  | seq n vs =>
    rw [look, if_neg (by decide)] at h
    split at h
    · cases h
      simp
    · split at h
      · cases h
      · obtain ⟨ts, _, rfl⟩ := map_eq_ok h
        simp
  | broken kind f =>
    cases kind with
    | seq =>
      rw [look, if_neg (by decide)] at h
      split at h <;> cases h
      simp
    | record | map =>
      rw [look] at h
      · split at h <;> cases h
        simp
      · simp

theorem ne_nothing_of_there {p : Policy} {depth : Int} {v : Value} {s : Seen}
    (hv : v.isThere = true) (h : look p .entry false depth v = .ok s) : s ≠ .nothing := by
  cases v with
  | optional u =>
    rw [look] at h
    cases u with
    | absent | unsupported | optional => cases hv
    | _ => exact ne_nothing_of_bare rfl (fun _ => by simp) h
  | _ => exact ne_nothing_of_bare hv (fun _ => by simp) h

/-- What an entry shows is what its value alone trims to, within the levels left for it. -/
theorem trim_levels (p : Policy) (depth : Int) (v : Value) :
    v.trim { p with depthLimit := v.levels depth } =
      (look p .entry false depth v).map Seen.tree := by
  rw [trim_depthLimit, ← look_entry]

/-! ### What a map comes to -/

section Log

variable {p : Policy} {depth : Int}

theorem entryLog_cons_eq_ok {k : String} {v : Value} {rest : List (String × Value)}
    {log : List (String × Tree)} (h : entryLog p depth ((k, v) :: rest) = .ok log) :
    (p.isVisible k = false ∧ entryLog p depth rest = .ok log) ∨
    (p.isVisible k = true ∧ ∃ s log', look p .entry false depth v = .ok s ∧
      entryLog p depth rest = .ok log' ∧ log = s.entryWrites k ++ log') := by
  rw [entryLog] at h
  split at h
  · rename_i hk
    obtain ⟨s, hs, h⟩ := bind_eq_ok h
    obtain ⟨log', hlog', h⟩ := bind_eq_ok h
    exact Or.inr ⟨hk, s, log', hs, hlog', (Except.ok.inj h).symm⟩
  · rename_i hk
    exact Or.inl ⟨by simpa using hk, h⟩

/-- A visible entry is looked at, and what it writes is in the log. -/
theorem entryLog_writes {es : List (String × Value)} {log : List (String × Tree)}
    (h : entryLog p depth es = .ok log) {k : String} {v : Value} (hm : (k, v) ∈ es)
    (hk : p.isVisible k = true) :
    ∃ s, look p .entry false depth v = .ok s ∧ ∀ w ∈ s.entryWrites k, w ∈ log := by
  induction es generalizing log with
  | nil => cases hm
  | cons e rest ih =>
    obtain ⟨j, u⟩ := e
    rcases entryLog_cons_eq_ok h with ⟨hj, hrest⟩ | ⟨hj, r, log', hr, hrest, rfl⟩
    · rcases List.mem_cons.mp hm with heq | hm
      · cases heq
        rw [hj] at hk
        cases hk
      · exact ih hrest hm
    · rcases List.mem_cons.mp hm with heq | hm
      · cases heq
        exact ⟨r, hr, fun w hw => List.mem_append_left _ hw⟩
      · obtain ⟨s, hs, hw⟩ := ih hrest hm
        exact ⟨s, hs, fun w h => List.mem_append_right _ (hw w h)⟩

/-- Every entry writes its own key, at most once. -/
theorem keys_entryLog_sublist {es : List (String × Value)} {log : List (String × Tree)}
    (h : entryLog p depth es = .ok log) : (log.map Prod.fst).Sublist (es.map Prod.fst) := by
  induction es generalizing log with
  | nil => cases h; exact List.Sublist.slnil
  | cons e rest ih =>
    obtain ⟨k, v⟩ := e
    rcases entryLog_cons_eq_ok h with ⟨_, hrest⟩ | ⟨_, s, log', _, hrest, rfl⟩
    · exact (ih hrest).cons k
    · cases s with
      | nothing => exact (ih hrest).cons k
      | _ => exact (ih hrest).cons_cons k

theorem entryLog_eq_ok {es : List (String × Value)}
    (h : ∀ k v, (k, v) ∈ es → p.isVisible k = true → ∃ s, look p .entry false depth v = .ok s) :
    ∃ log, entryLog p depth es = .ok log := by
  induction es with
  | nil => exact ⟨[], rfl⟩
  | cons e rest ih =>
    obtain ⟨k, v⟩ := e
    obtain ⟨log, hlog⟩ := ih fun j u hm => h j u (List.mem_cons_of_mem _ hm)
    rw [entryLog]
    split
    · rename_i hk
      obtain ⟨s, hs⟩ := h k v List.mem_cons_self hk
      exact ⟨_, by rw [hs, hlog]; rfl⟩
    · exact ⟨log, hlog⟩

end Log

/-- `Binds p depth es out`: a map with the entries `es` and `depth` levels left comes to `out`. -/
structure Binds (p : Policy) (depth : Int) (es : List (String × Value)) (out : Entries Tree) :
    Prop where
  ordered : out.Ordered
  keys : ∀ k, k ∈ out.keys ↔ ∃ v, (k, v) ∈ es ∧ p.isVisible k = true ∧ v.isThere = true
  trims : ∀ k v t, (k, v) ∈ es → (k, t) ∈ out →
    v.trim { p with depthLimit := v.levels depth } = .ok t

section Map

variable {p : Policy} {depth : Int} {es fs : List (String × Value)} {out : Entries Tree}

theorem Binds.subset {other : Entries Tree} (h : Binds p depth es out)
    (hother : Binds p depth es other) {w : String × Tree} (hw : w ∈ out) : w ∈ other := by
  obtain ⟨k, t⟩ := w
  have hk : k ∈ out.keys := List.mem_map_of_mem hw
  obtain ⟨v, hm, hvisible, hthere⟩ := (h.keys k).mp hk
  obtain ⟨⟨_, u⟩, hu, rfl⟩ := List.mem_map.mp ((hother.keys k).mpr ⟨v, hm, hvisible, hthere⟩)
  cases (h.trims _ v t hm hw).symm.trans (hother.trims _ v u hm hu)
  exact hu

theorem Binds.unique {other : Entries Tree} (h : Binds p depth es out)
    (hother : Binds p depth es other) : out = other :=
  h.ordered.eq_of_mem_iff hother.ordered fun _ => ⟨h.subset hother, hother.subset h⟩

theorem Binds.of_perm (h : Binds p depth es out) (hperm : es.Perm fs) : Binds p depth fs out where
  ordered := h.ordered
  keys k := (h.keys k).trans (exists_congr fun _ => and_congr_left' hperm.mem_iff)
  trims k v t hm := h.trims k v t (hperm.mem_iff.mpr hm)

/-- A map with keys apart binds what its log writes. -/
theorem binds_of_entries (hkeys : (es.map Prod.fst).Nodup) (h : entries p depth [] es = .ok out) :
    Binds p depth es out := by
  rw [entries_eq_play] at h
  obtain ⟨log, hlog, rfl⟩ := map_eq_ok h
  have hnodup : (log.map Prod.fst).Nodup := hkeys.sublist (keys_entryLog_sublist hlog)
  refine ⟨Entries.ordered_play List.Pairwise.nil, fun k => ⟨fun hk => ?_, ?_⟩, ?_⟩
  · obtain ⟨w, hw, rfl⟩ := List.mem_map.mp hk
    obtain ⟨k, v, s, hm, hvisible, hs, hw⟩ :=
      entryWrites_of_mem hlog (Entries.mem_of_mem_play_nil hw)
    obtain rfl := Seen.mem_entryWrites hw
    refine ⟨v, hm, hvisible, ?_⟩
    cases hthere : v.isThere with
    | true => rfl
    | false =>
      rw [look_entry_of_not_there hthere] at hs
      cases hs
      cases hw
  · rintro ⟨v, hm, hvisible, hthere⟩
    obtain ⟨s, hs, hwrites⟩ := entryLog_writes hlog hm hvisible
    have hw : (k, s.tree) ∈ s.entryWrites k := by
      cases s with
      | nothing => exact absurd rfl (ne_nothing_of_there hthere hs)
      | _ => exact List.mem_singleton_self _
    exact List.mem_map_of_mem (Entries.mem_play_of_mem log hnodup (hwrites _ hw))
  · intro k v t hm ht
    obtain ⟨k, u, s, hu, _, hs, hw⟩ := entryWrites_of_mem hlog (Entries.mem_of_mem_play_nil ht)
    cases Seen.mem_entryWrites hw
    cases List.inj_on_of_nodup_map hkeys hm hu rfl
    rw [trim_levels, hs]
    rfl

/-- A map with keys apart has a result exactly if it comes to one by its entries. -/
theorem entries_eq_ok_iff (hkeys : (es.map Prod.fst).Nodup) :
    entries p depth [] es = .ok out ↔ Binds p depth es out := by
  refine ⟨binds_of_entries hkeys, fun h => ?_⟩
  obtain ⟨log, hlog⟩ : ∃ log, entryLog p depth es = .ok log := by
    refine entryLog_eq_ok fun k v hm hvisible => ?_
    cases hthere : v.isThere with
    | false => exact ⟨_, look_entry_of_not_there hthere p depth⟩
    | true =>
      obtain ⟨⟨_, t⟩, ht, rfl⟩ := List.mem_map.mp ((h.keys k).mpr ⟨v, hm, hvisible, hthere⟩)
      have htrim := h.trims _ v t hm ht
      rw [trim_levels] at htrim
      obtain ⟨s, hs, _⟩ := map_eq_ok htrim
      exact ⟨s, hs⟩
  have hentries : entries p depth [] es = .ok (Entries.play [] log) := by
    rw [entries_eq_play, hlog]
    rfl
  rw [hentries, (binds_of_entries hkeys hentries).unique h]

/-- Entries with keys apart may come in any order, if those that panic all panic alike. -/
theorem entries_perm (hkeys : (es.map Prod.fst).Nodup) (hperm : es.Perm fs) {f : Fault}
    (hf : ∀ k v g, (k, v) ∈ es → look p .entry false depth v = .error g → g = f) :
    entries p depth [] es = entries p depth [] fs := by
  have hkeys' : (fs.map Prod.fst).Nodup := (hperm.map _).nodup_iff.mp hkeys
  cases hes : entries p depth [] es with
  | ok out =>
    exact ((entries_eq_ok_iff hkeys').mpr (((entries_eq_ok_iff hkeys).mp hes).of_perm hperm)).symm
  | error g =>
    cases hfs : entries p depth [] fs with
    | ok out =>
      have hbinds := ((entries_eq_ok_iff hkeys').mp hfs).of_perm hperm.symm
      have hok := (entries_eq_ok_iff hkeys).mpr hbinds
      rw [hes] at hok
      cases hok
    | error g' =>
      obtain ⟨k, v, hm, hg⟩ := entries_error hes
      obtain ⟨k', v', hm', hg'⟩ := entries_error hfs
      rw [hf k v g hm hg, hf k' v' g' (hperm.mem_iff.mpr hm') hg']

/-- With a level left, a map with keys apart comes to what it binds, exactly if there is room for
the items of the sequences in it. -/
theorem look_map {place : Place} {opened : Bool} (hkeys : (es.map Prod.fst).Nodup)
    (hdepth : 0 < spend depth) (hv : (Value.map es).Calm) :
    (∃ out, look p place opened depth (.map es) = .ok (.table out) ∧
      Binds p (spend depth) es out) ↔ Spot.HasRoom p ⟨place, opened, depth⟩ (.map es) := by
  rw [← hv.look_eq_ok_iff]
  constructor
  · rintro ⟨out, hout, _⟩
    exact ⟨_, hout⟩
  · rintro ⟨s, hs⟩
    rw [look, if_neg (by omega)] at hs ⊢
    obtain ⟨out, hout, rfl⟩ := map_eq_ok hs
    exact ⟨out, hs, binds_of_entries hkeys hout⟩

end Map

end Abridge

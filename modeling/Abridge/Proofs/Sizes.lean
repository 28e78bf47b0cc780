import Abridge.Proofs.Kept

/-!
Bounds on the nodes of a tree. No sequence in a tree, however it came there, has more items than
the policy keeps. A text is cut to the limit of the policy wherever it comes from, except that
errors, points in time and lengths of time keep theirs: a text that is longer than a limit and its
ellipsis is one of these.
-/
namespace Abridge

/-! ### Texts -/

/-- Within a limit: at most `n` characters, or `n` of them and the ellipsis. -/
def Text.Bounded (n : Nat) (s : String) : Prop :=
  s.length ≤ n ∨ ∃ cs : List Char, cs.length = n ∧ s.toList = cs ++ Text.ellipsis

theorem Text.bounded_limited {limit : Int} (h : 0 < limit) (s : String) :
    Text.Bounded limit.toNat (Text.limited limit s) := by
  rw [Text.limited_eq_cut h, Text.cut]
  split
  · rename_i hlt
    refine Or.inr ⟨s.toList.take limit.toNat, ?_, String.toList_ofList⟩
    rw [List.length_take]
    omega
  · rename_i hle
    refine Or.inl ?_
    rw [String.ofList_toList, ← String.length_toList]
    omega

/-- At most the limit and the ellipsis, and all of both if there is more than the limit. -/
theorem Text.Bounded.length_le {n : Nat} {s : String} (h : Text.Bounded n s) :
    s.length ≤ n + 3 ∧
      (n < s.length → ∃ cs : List Char, cs.length = n ∧ s.toList = cs ++ Text.ellipsis) := by
  rcases h with hle | ⟨cs, hcs, hs⟩
  · exact ⟨by omega, fun hlt => by omega⟩
  · have hlen : s.length = n + 3 := by
      rw [← String.length_toList, hs, List.length_append, hcs]
      rfl
    exact ⟨by omega, fun _ => ⟨cs, hcs, hs⟩⟩

/-- Is the text cut to the limit, like plain ones? -/
def Special.isCut : Special → Bool
  | .text _ => true
  | _ => false

/-- The text `s` is that of a special value in `v` which is never cut. -/
def Uncut (p : Policy) (v : Value) (s : String) : Prop :=
  ∃ a : Special, Inside v (.special a) ∧ a.isCut = false ∧ a.trim p = .text s

theorem Uncut.mono {p : Policy} {v w : Value} {s : String} (h : Uncut p w s)
    (hvw : ∀ {u}, Inside w u → Inside v u) : Uncut p v s := by
  obtain ⟨a, ha, hcut, hs⟩ := h
  exact ⟨a, hvw ha, hcut, hs⟩

/-- Every text of the tree is within the limit, or belongs to a value that is never cut. -/
def TextsBounded (p : Policy) (v : Value) (t : Tree) : Prop :=
  ∀ n s, Below t n (.text s) → Text.Bounded p.stringLimit.toNat s ∨ Uncut p v s

theorem TextsBounded.mono {p : Policy} {v w : Value} {t : Tree} (h : TextsBounded p w t)
    (hvw : ∀ {u}, Inside w u → Inside v u) : TextsBounded p v t :=
  fun n s hn => (h n s hn).imp id fun hs => hs.mono hvw

theorem TextsBounded.of_no_text {p : Policy} {v : Value} {t : Tree} (ht : t.isLeaf = true)
    (h : ∀ s, t ≠ .text s) : TextsBounded p v t := by
  intro n s hn
  obtain ⟨_, rfl⟩ := hn.of_leaf ht
  exact absurd rfl (h s)

theorem TextsBounded.map {p : Policy} {v : Value} {es : List (String × Tree)}
    (h : ∀ w ∈ es, TextsBounded p v w.2) : TextsBounded p v (.map es) := by
  intro n s hn
  rcases hn.of_map with ⟨_, hs⟩ | ⟨w, hw, m, _, hm⟩
  · cases hs
  · exact h w hw m s hm

theorem TextsBounded.seq {p : Policy} {v : Value} {ts : List Tree}
    (h : ∀ t ∈ ts, TextsBounded p v t) : TextsBounded p v (.seq ts) := by
  intro n s hn
  obtain ⟨t, ht, hm⟩ := hn.of_seq (by simp)
  exact h t ht n s hm

theorem Scalar.textsBounded {p : Policy} (hp : 0 < p.stringLimit) (v : Value) (a : Scalar) :
    TextsBounded p v (a.trim p) := by
  cases a with
  | text str =>
    intro n s hn
    obtain ⟨_, hs⟩ := hn.of_leaf rfl
    cases hs
    exact Or.inl (Text.bounded_limited hp str)
  | _ => exact .of_no_text rfl fun _ => by simp [Scalar.trim]

theorem Special.textsBounded {p : Policy} (hp : 0 < p.stringLimit) (a : Special) :
    TextsBounded p (.special a) (a.trim p) := by
  intro n s hn
  obtain ⟨_, hs⟩ := hn.of_leaf (Special.isLeaf_trim p a)
  cases a with
  | text str =>
    cases hs
    exact Or.inl (Text.bounded_limited hp str)
  | error | stamp | span => exact Or.inr ⟨_, .here, rfl, hs.symm⟩

theorem textsBounded_kept {p : Policy} (hp : 0 < p.stringLimit) :
    Kept p fun _ _ v s => TextsBounded p v s.tree where
  nothing := .of_no_text rfl (by simp [Seen.tree])
  scalar := Scalar.textsBounded hp _ _
  special := Special.textsBounded hp _
  optional h := h.mono .optional
  dynamic h := h.mono .dynamic
  spent := .map (by simp)
  record := by
    intro _ _ fs log _ hlog
    refine .map fun w hw => ?_
    rcases (hlog w (Entries.mem_of_mem_play_nil hw)).tree with ⟨z, hz⟩ | ⟨d, v, s, hm, hs, hws⟩
    · rw [hz]
      exact .of_no_text rfl (by simp)
    · rw [hws]
      exact hs.2.mono (.field hm)
  map := by
    intro _ _ es log _ hlog
    refine .map fun w hw => ?_
    obtain ⟨k, v, s, hm, hs, hws⟩ := (hlog w (Entries.mem_of_mem_play_nil hw)).tree
    rw [hws]
    exact hs.2.mono (.entry hm)
  empty := .seq (by simp)
  seq := by
    intro _ _ n vs ts _ _ hts
    refine .seq fun t ht => ?_
    obtain ⟨v, s, hm, hs, hst⟩ := hts t ht
    obtain ⟨rfl, _⟩ := Seen.mem_asItem hst
    exact hs.2.mono (.item hm)

/-! ### Sequences -/

theorem length_le_of_trim {p : Policy} {v : Value} {t : Tree} (h : v.trim p = .ok t) {n : Nat}
    {ts : List Tree} (hn : Below t n (.seq ts)) : ts.length ≤ p.arrayLimit.toNat := by
  have kept : KeptTree p fun _ t => ∀ n s, Below t n s →
      ∀ ts, s = .seq ts → ts.length ≤ p.arrayLimit.toNat :=
    .nodes (fun ht _ hts => by rw [hts] at ht; cases ht) (fun _ _ hts => by cases hts)
      (fun hlen _ hts => by cases hts; exact hlen)
  exact kept.of_trim h n _ hn ts rfl

/-! ### All nodes -/

/-- No sequence of a tree has more items than the policy keeps; and if the policy limits texts and
the value holds none that are never cut, every text has at most the limit and an ellipsis, and
exactly these if it is longer than the limit. -/
theorem node_sizes_le {p : Policy} {v : Value} {t : Tree} (h : v.trim p = .ok t) :
    (∀ n ts, Below t n (.seq ts) → (ts.length : Int) ≤ max 0 p.arrayLimit) ∧
    (0 < p.stringLimit → (∀ a, Inside v (.special a) → a.isCut = true) →
      ∀ n s, Below t n (.text s) → (s.length : Int) ≤ p.stringLimit + 3 ∧
        (p.stringLimit < s.length →
          ∃ cs : List Char, (cs.length : Int) = p.stringLimit ∧
            s.toList = cs ++ ['.', '.', '.'])) := by
  refine ⟨fun n ts hn => ?_, fun hp hcut n s hn => ?_⟩
  · have := length_le_of_trim h hn
    omega
  · obtain ⟨r, rfl, hr⟩ := (textsBounded_kept hp).of_trim h
    have hs : Text.Bounded p.stringLimit.toNat s := by
      rcases hr n s hn with hs | ⟨a, ha, hwhole, _⟩
      · exact hs
      · rw [hcut a ha] at hwhole
        cases hwhole
    obtain ⟨hle, hlong⟩ := hs.length_le
    refine ⟨by omega, fun hlt => ?_⟩
    obtain ⟨cs, hcs, htext⟩ := hlong (by omega)
    have hlen : (cs.length : Int) = p.stringLimit := by
      rw [hcs, Int.toNat_of_nonneg (Int.le_of_lt hp)]
    exact ⟨cs, hlen, htext⟩

/-- A title and a path under a limit of two characters, in a sequence under a limit of one item. -/
theorem node_sizes_le_note : ∃ t,
    (Value.list [.record [(⟨"path", none⟩, .special (.text "/")), (⟨"title", none⟩, .text "long")],
      .absent]).trim ⟨1, 2, 9, 0, []⟩ = .ok t ∧ Below t 1 (.text "lo...") ∧
    (∀ n ts, Below t n (.seq ts) → (ts.length : Int) ≤ max 0 1) ∧
    ∀ n s, Below t n (.text s) → (s.length : Int) ≤ 2 + 3 ∧ (2 < (s.length : Int) →
      ∃ cs : List Char, (cs.length : Int) = 2 ∧ s.toList = cs ++ ['.', '.', '.']) := by
  have ht : (Value.list [.record [(⟨"path", none⟩, .special (.text "/")),
      (⟨"title", none⟩, .text "long")], .absent]).trim ⟨1, 2, 9, 0, []⟩ =
      .ok (.seq [.map [("path", .text "/"), ("title", .text "lo...")]]) := rfl
  obtain ⟨hseq, htext⟩ := node_sizes_le ht
  refine ⟨_, ht,
    .item List.mem_cons_self (.entry (List.mem_cons_of_mem _ List.mem_cons_self) .here),
    hseq, htext (by decide) fun a ha => ?_⟩
  cases ha with
  | item hu ha =>
    simp only [List.mem_cons, List.not_mem_nil, or_false] at hu
    rcases hu with rfl | rfl
    · cases ha with
      | field hm ha =>
        simp only [List.mem_cons, Prod.mk.injEq, List.not_mem_nil, or_false] at hm
        rcases hm with ⟨_, rfl⟩ | ⟨_, rfl⟩
        · cases ha
          rfl
        · cases ha
    · cases ha

end Abridge

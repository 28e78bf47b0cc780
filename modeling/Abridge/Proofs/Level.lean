import Abridge.Proofs.Kept

/-!
The depth limit bounds the levels of maps. A map stands at level one if no map is above it; every
step from a container to a map in it spends one level of what is left, and a trait object may spend
one more, so no map with content reaches the limit. Sequences spend nothing and are not counted.
-/
namespace Abridge

/-- With `d` levels left: every map stands at level `d` or above, at level one if there is none
left, and a map with content stands above level `d`. -/
def Within (d : Int) (t : Tree) : Prop :=
  ∀ n es, Below t n (.map es) → (n : Int) + 1 ≤ max 1 d ∧ (es ≠ [] → (n : Int) + 1 < d)

theorem Within.mono {a b : Int} {t : Tree} (hab : max 1 a ≤ max 1 b) (h : Within a t) :
    Within b t := by
  intro n es hn
  obtain ⟨hle, hlt⟩ := h n es hn
  refine ⟨by omega, fun hes => ?_⟩
  have := hlt hes
  omega

/-- A level spent is at most a level less, and none once there is none left. -/
theorem spend_le (d : Int) : max 1 (spend d) ≤ max 1 d := by
  simp only [spend, Word.minSigned]
  omega

theorem spend_of_pos {d : Int} (h : 0 < spend d) : spend d = d - 1 := by
  simp only [spend, Word.minSigned] at h ⊢
  omega

/-- Every step keeps maps within the levels that are left. -/
theorem within_kept (p : Policy) : KeptTree p Within where
  leaf := by
    intro d t ht n es hn
    obtain ⟨_, rfl⟩ := hn.of_leaf ht
    cases ht
  dynamic h := h.mono (spend_le _)
  spent := by
    intro d n es hn
    rcases hn.of_map with ⟨rfl, h⟩ | ⟨w, hw, _⟩
    · cases h
      exact ⟨by omega, fun h => absurd rfl h⟩
    · cases hw
  map := by
    intro d es hd _ hes n es' hn
    have hs := spend_of_pos hd
    rcases hn.of_map with ⟨rfl, _⟩ | ⟨w, hw, m, rfl, hm⟩
    · exact ⟨by omega, fun _ => by omega⟩
    · obtain ⟨hle, hlt⟩ := hes w hw m es' hm
      refine ⟨by omega, fun h => ?_⟩
      have := hlt h
      omega
  seq := by
    intro d ts _ hts n es hn
    obtain ⟨t, ht, hm⟩ := hn.of_seq (by simp)
    exact hts t ht n es hm

/-- Every map stands at or above the depth limit, and above it if it has any content. -/
theorem map_level_le {p : Policy} {v : Value} {t : Tree} (h : v.trim p = .ok t) {n : Nat}
    {es : List (String × Tree)} (hn : Below t n (.map es)) :
    (n : Int) + 1 ≤ max 1 p.depthLimit ∧ (es ≠ [] → (n : Int) + 1 < p.depthLimit) ∧
      (p.depthLimit ≤ 1 → es = []) := by
  obtain ⟨hle, hlt⟩ := (within_kept p).of_trim h n es hn
  refine ⟨hle, hlt, fun hd => ?_⟩
  by_cases hes : es = []
  · exact hes
  · have := hlt hes
    omega

/-- A record in a sequence in a map stands at level two, above a limit of three. -/
theorem map_level_le_nested :
    let p : Policy := ⟨1, 0, 3, 0, []⟩
    let v : Value := .map [("a", .list [.record [(⟨"b", none⟩, .scalar (.bool true))]])]
    let es : List (String × Tree) := [("b", .bool true)]
    ∃ t, v.trim p = .ok t ∧ Below t 1 (.map es) ∧ ((1 : Nat) : Int) + 1 ≤ max 1 p.depthLimit ∧
      (es ≠ [] → ((1 : Nat) : Int) + 1 < p.depthLimit) ∧ (p.depthLimit ≤ 1 → es = []) := by
  intro p v es
  have hn : Below (.map [("a", .seq [.map es])]) 1 (.map es) :=
    .entry List.mem_cons_self (.item List.mem_cons_self .here)
  have ht : v.trim p = .ok (.map [("a", .seq [.map es])]) := rfl
  exact ⟨_, ht, hn, map_level_le ht hn⟩

end Abridge

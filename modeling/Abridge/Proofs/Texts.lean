import Abridge.Proofs.Bytes
import Abridge.Proofs.Kept
import Abridge.Proofs.Limits
import Abridge.Report

/-!
JSON texts of values. The text that is reported is that of the reported tree, and it is empty
exactly if a complex number stands in the tree; asked for with its reason, the text is refused for
the first of them in the order of writing. The limit of the whole text has a say in one event only.
-/
namespace Abridge

/-! ### Complex numbers -/

mutual

/-- The complex numbers of a tree in the order of writing. -/
def Tree.complexes : Tree → List Complex
  | .complex z => [z]
  | .seq ts => itemComplexes ts
  | .map es => entryComplexes es
  | _ => []

def itemComplexes : List Tree → List Complex
  | [] => []
  | t :: ts => t.complexes ++ itemComplexes ts

def entryComplexes : List (String × Tree) → List Complex
  | [] => []
  | (_, t) :: es => t.complexes ++ entryComplexes es

end

theorem mem_itemComplexes {z : Complex} {ts : List Tree} :
    z ∈ itemComplexes ts ↔ ∃ t ∈ ts, z ∈ t.complexes := by
  induction ts with
  | nil => simp [itemComplexes]
  | cons t ts ih => simp [itemComplexes, ih]

theorem mem_entryComplexes {z : Complex} {es : List (String × Tree)} :
    z ∈ entryComplexes es ↔ ∃ w ∈ es, z ∈ w.2.complexes := by
  induction es with
  | nil => simp [entryComplexes]
  | cons w es ih => simp [entryComplexes, ih]

theorem Below.mem_complexes {t s : Tree} {n : Nat} {z : Complex} (h : Below t n s)
    (hs : s = .complex z) : z ∈ t.complexes := by
  induction h with
  | here =>
    rw [hs, Tree.complexes]
    exact List.mem_singleton_self z
  | item hm _ ih => exact mem_itemComplexes.mpr ⟨_, hm, ih hs⟩
  | entry hm _ ih => exact mem_entryComplexes.mpr ⟨_, hm, ih hs⟩

mutual

theorem below_of_mem_complexes {z : Complex} : ∀ {t : Tree}, z ∈ t.complexes →
    ∃ n, Below t n (.complex z)
  | .complex y, h => by
    obtain rfl := List.mem_singleton.mp h
    exact ⟨0, .here⟩
  | .seq ts, h => by
    obtain ⟨t, hm, n, hn⟩ := below_of_mem_itemComplexes h
    exact ⟨n, .item hm hn⟩
  | .map es, h => by
    obtain ⟨w, hm, n, hn⟩ := below_of_mem_entryComplexes h
    exact ⟨n + 1, .entry hm hn⟩

theorem below_of_mem_itemComplexes {z : Complex} : ∀ {ts : List Tree}, z ∈ itemComplexes ts →
    ∃ t ∈ ts, ∃ n, Below t n (.complex z)
  | t :: ts, h => by
    rcases List.mem_append.mp h with h | h
    · exact ⟨t, List.mem_cons_self, below_of_mem_complexes h⟩
    · obtain ⟨u, hm, hu⟩ := below_of_mem_itemComplexes h
      exact ⟨u, List.mem_cons_of_mem _ hm, hu⟩

theorem below_of_mem_entryComplexes {z : Complex} : ∀ {es : List (String × Tree)},
    z ∈ entryComplexes es → ∃ w ∈ es, ∃ n, Below w.2 n (.complex z)
  | (k, t) :: es, h => by
    rcases List.mem_append.mp h with h | h
    · exact ⟨(k, t), List.mem_cons_self, below_of_mem_complexes h⟩
    · obtain ⟨w, hm, hw⟩ := below_of_mem_entryComplexes h
      exact ⟨w, List.mem_cons_of_mem _ hm, hw⟩

end

theorem mem_complexes_iff {t : Tree} {z : Complex} :
    z ∈ t.complexes ↔ ∃ n, Below t n (.complex z) :=
  ⟨below_of_mem_complexes, fun ⟨_, hn⟩ => hn.mem_complexes rfl⟩

/-! ### Trees with and without a document -/

/-- A step that fails with the first of the numbers, and succeeds if there is none. -/
def FailsFirst {α : Type} (zs : List Complex) : Except Complex α → Prop
  | .ok _ => zs = []
  | .error z => zs.head? = some z

theorem FailsFirst.map {α β : Type} {zs : List Complex} {x : Except Complex α} (g : α → β)
    (h : FailsFirst zs x) : FailsFirst zs (x.map g) := by
  cases x <;> exact h

/-- Of two steps the first one fails first. -/
theorem FailsFirst.bind {α β : Type} {zs ws : List Complex} {x : Except Complex α}
    {next : α → Except Complex β} (h : FailsFirst zs x) (hnext : ∀ a, FailsFirst ws (next a)) :
    FailsFirst (zs ++ ws) (x >>= next) := by
  cases x with
  | error z =>
    have hz : zs.head? = some z := h
    change (zs ++ ws).head? = some z
    rw [List.head?_append, hz, Option.some_or]
  | ok a =>
    obtain rfl : zs = [] := h
    exact hnext a

theorem FailsFirst.eq_error_iff {α : Type} {zs : List Complex} {x : Except Complex α}
    (h : FailsFirst zs x) {z : Complex} : x = .error z ↔ zs.head? = some z := by
  cases x with
  | error y =>
    have hy : zs.head? = some y := h
    rw [hy, Except.error.injEq, Option.some_inj]
  | ok a =>
    obtain rfl : zs = [] := h
    simp

theorem FailsFirst.eq_ok_iff {α : Type} {zs : List Complex} {x : Except Complex α}
    (h : FailsFirst zs x) : (∃ a, x = .ok a) ↔ zs = [] := by
  cases x with
  | error y =>
    have hy : zs.head? = some y := h
    cases zs with
    | nil => cases hy
    | cons => simp
  | ok a => exact ⟨fun _ => h, fun _ => ⟨a, rfl⟩⟩

mutual

/-- A tree has a document unless a complex number stands in it, and the first one is to blame. -/
theorem failsFirst_document : ∀ t : Tree, FailsFirst t.complexes t.document
  | .null | .bool _ | .int _ | .uint _ | .float _ | .complex _ | .text _ => rfl
  | .seq ts => (failsFirst_itemDocuments ts).map Json.array
  | .map es => (failsFirst_entryDocuments es).map Json.object

theorem failsFirst_itemDocuments : ∀ ts : List Tree,
    FailsFirst (itemComplexes ts) (Tree.itemDocuments ts)
  | [] => rfl
  | t :: ts => (failsFirst_document t).bind fun d =>
    (failsFirst_itemDocuments ts).map (d :: ·)

theorem failsFirst_entryDocuments : ∀ es : List (String × Tree),
    FailsFirst (entryComplexes es) (Tree.entryDocuments es)
  | [] => rfl
  | (k, t) :: es => (failsFirst_document t).bind fun d =>
    (failsFirst_entryDocuments es).map ((k, d) :: ·)

end

theorem failsFirst_json (t : Tree) : FailsFirst t.complexes t.json :=
  (failsFirst_document t).map Json.render

/-! ### No text is empty -/

namespace Binary64

theorem layPositional_ne_nil (f : Format) {ds : List Char} (hds : ds ≠ [])
    (exp : Int) : layPositional f ds exp ≠ [] := by
  rw [layPositional]
  split
  · simp [hds]
  · split <;> simp

theorem layExponent_ne_nil (f : Format) (ds : List Char) (e : Int) :
    layExponent f ds e ≠ [] := by
  simp [layExponent]

theorem sizeText_ne_nil (f : Format) (x : Binary64) :
    sizeText f x ≠ [] := by
  have laid : ∀ ds : List Char, ds ≠ [] → ∀ exp e : Int,
      (if f.positional e then layPositional f ds exp else layExponent f ds e) ≠ [] := by
    intro ds hds exp e
    split
    · exact layPositional_ne_nil f hds exp
    · exact layExponent_ne_nil f ds e
  rw [sizeText]
  split
  · exact layPositional_ne_nil f (by simp) 0
  · exact laid _ Nat.toDigits_ne_nil _ _

theorem text_ne_nil (f : Format) (x : Binary64) : x.text f ≠ [] := by
  have hsize := sizeText_ne_nil f x
  rw [text]
  split
  · simp
  · refine List.append_ne_nil_of_right_ne_nil _ ?_
    split
    · simp
    · exact hsize

end Binary64

namespace Json

theorem integerText_ne_nil (z : Int) : integerText z ≠ [] := by
  rw [integerText]
  split <;> simp

theorem floatText_ne_nil (x : Binary64) : floatText x ≠ [] := by
  rw [floatText]
  split
  · exact Binary64.text_ne_nil _ x
  · simp

theorem chars_ne_nil (d : Json) : d.chars ≠ [] := by
  cases d with
  | bool b => cases b <;> simp [chars]
  | integer z => exact integerText_ne_nil z
  | float x => exact floatText_ne_nil x
  | _ => simp [chars, Text.jsonQuoted]

theorem render_ne_empty (d : Json) : d.render ≠ "" := by
  rw [render, ne_eq, ← String.toList_eq_nil_iff, String.toList_ofList]
  exact chars_ne_nil d

end Json

namespace Tree

theorem display_of_json {t : Tree} {s : String} (h : t.json = .ok s) : t.display = s := by
  rw [display, h]

/-- A tree is displayed as nothing exactly if a complex number stands in it. -/
theorem display_eq_empty_iff {t : Tree} : t.display = "" ↔ ∃ n z, Below t n (.complex z) := by
  cases hj : t.json with
  | error z =>
    have hz : z ∈ t.complexes := List.mem_of_mem_head? ((failsFirst_json t).eq_error_iff.mp hj)
    obtain ⟨n, hn⟩ := mem_complexes_iff.mp hz
    rw [display, hj]
    exact ⟨fun _ => ⟨n, z, hn⟩, fun _ => rfl⟩
  | ok s =>
    obtain ⟨d, _, rfl⟩ := map_eq_ok hj
    have hnil : t.complexes = [] := (failsFirst_json t).eq_ok_iff.mp ⟨_, hj⟩
    rw [display_of_json hj]
    refine ⟨fun h => absurd h d.render_ne_empty, fun ⟨n, z, hn⟩ => ?_⟩
    have hz : z ∈ t.complexes := mem_complexes_iff.mpr ⟨n, hn⟩
    rw [hnil] at hz
    cases hz

end Tree

/-! ### Entries in order -/

/-- In every map of the tree the entries stand in the order of their keys. -/
def Tree.InOrder (t : Tree) : Prop := ∀ n es, Below t n (.map es) → Entries.Ordered es

theorem Tree.InOrder.leaf {t : Tree} (ht : t.isLeaf = true) : t.InOrder := by
  intro n es hn
  obtain ⟨_, rfl⟩ := hn.of_leaf ht
  cases ht

theorem Tree.InOrder.seq {ts : List Tree} (h : ∀ t ∈ ts, t.InOrder) : (Tree.seq ts).InOrder := by
  intro n es hn
  obtain ⟨t, ht, hm⟩ := hn.of_seq (by simp)
  exact h t ht n es hm

theorem Tree.InOrder.map {es : Entries Tree} (hes : es.Ordered) (h : ∀ w ∈ es, w.2.InOrder) :
    (Tree.map es).InOrder := by
  intro n fs hn
  rcases hn.of_map with ⟨_, heq⟩ | ⟨w, hw, m, _, hm⟩
  · cases heq
    exact hes
  · exact h w hw m fs hm

theorem inOrder_kept (p : Policy) : Kept p fun _ _ _ s => s.tree.InOrder where
  nothing := .leaf rfl
  scalar := .leaf (Scalar.isLeaf_trim p _)
  special := .leaf (Special.isLeaf_trim p _)
  optional h := h
  dynamic h := h
  spent := .map List.Pairwise.nil (by simp)
  record := by
    intro _ _ fs log _ hlog
    refine .map (Entries.ordered_play List.Pairwise.nil) fun w hw => ?_
    rcases (hlog w (Entries.mem_of_mem_play_nil hw)).tree with ⟨z, hz⟩ | ⟨_, _, s, _, hs, hws⟩
    · rw [hz]
      exact .leaf rfl
    · rw [hws]
      exact hs.2
  map := by
    intro _ _ es log _ hlog
    refine .map (Entries.ordered_play List.Pairwise.nil) fun w hw => ?_
    obtain ⟨_, _, s, _, hs, hws⟩ := (hlog w (Entries.mem_of_mem_play_nil hw)).tree
    rw [hws]
    exact hs.2
  empty := .seq (by simp)
  seq := by
    intro _ _ _ vs ts _ _ hts
    refine .seq fun t ht => ?_
    obtain ⟨v, s, _, hs, hst⟩ := hts t ht
    obtain ⟨rfl, _⟩ := Seen.mem_asItem hst
    exact hs.2

/-! ### What is reported -/

/-- A report of a text that is too long. -/
def Event.isTooLong (e : Event) : Bool :=
  decide (e.level = .debug) && e.message == "Trimmed payload exceeds whole-payload limit"

theorem Policy.value_checkWhole (p : Policy) (s : String) : (p.checkWhole s).value = s := by
  rw [checkWhole]
  split <;> rfl

theorem Policy.tooLong_checkWhole (p : Policy) (s : String) :
    (∃ e ∈ (p.checkWhole s).events, e.isTooLong = true) ↔
      0 < p.wholeLimit ∧ p.wholeLimit < s.utf8ByteSize := by
  rw [checkWhole]
  split
  · rename_i h
    exact ⟨fun _ => h, fun _ => ⟨_, List.mem_singleton_self _, rfl⟩⟩
  · rename_i h
    exact ⟨fun ⟨_, he, _⟩ => (nomatch he), fun h' => absurd h' h⟩

namespace Value

/-- No report of a tree is one of a text that is too long. -/
theorem isTooLong_of_report {p : Policy} {v : Value} {e : Event} (he : e ∈ (v.report p).events) :
    e.isTooLong = false := by
  cases h : v.trim p with
  | ok t =>
    rw [report_of_ok h] at he
    cases he
  | error f =>
    rw [report_of_error h] at he
    obtain rfl := List.mem_singleton.mp he
    rfl

theorem inOrder_report (p : Policy) (v : Value) : (v.report p).value.InOrder := by
  cases h : v.trim p with
  | ok t =>
    rw [report_of_ok h]
    obtain ⟨s, rfl, hs⟩ := (inOrder_kept p).of_trim h
    exact hs
  | error f =>
    rw [report_of_error h]
    exact .leaf rfl

end Value

/-- The text of a tree, and the event that goes with it. -/
def Policy.written (p : Policy) (t : Tree) : Logged String :=
  match t.json with
  | .ok s => p.checkWhole s
  | .error z => ⟨"", [Event.noText z]⟩

theorem Policy.value_written (p : Policy) (t : Tree) : (p.written t).value = t.display := by
  rw [written, Tree.display]
  cases t.json with
  | error z => rfl
  | ok s => exact p.value_checkWhole s

theorem Policy.tooLong_written (p : Policy) (t : Tree) :
    (∃ e ∈ (p.written t).events, e.isTooLong = true) ↔
      ∃ s, t.json = .ok s ∧ 0 < p.wholeLimit ∧ p.wholeLimit < s.utf8ByteSize := by
  rw [written]
  cases t.json with
  | error z => simp [Event.noText, Event.isTooLong]
  | ok s => simpa using p.tooLong_checkWhole s

namespace Value

/-- A report is made first, and then the text of its tree. -/
theorem reportText_eq (p : Policy) (v : Value) :
    v.reportText p = (v.report p).bind p.written := rfl

/-- A text that is too long is reported, and nothing else is reported so. -/
theorem tooLong_reportText (p : Policy) (v : Value) :
    (∃ e ∈ (v.reportText p).events, e.isTooLong = true) ↔ ∃ s, (v.report p).value.json = .ok s ∧
      0 < p.wholeLimit ∧ p.wholeLimit < s.utf8ByteSize := by
  rw [← p.tooLong_written, reportText_eq]
  constructor
  · rintro ⟨e, he, hlong⟩
    rcases List.mem_append.mp he with he | he
    · rw [isTooLong_of_report he] at hlong
      cases hlong
    · exact ⟨e, he, hlong⟩
  · rintro ⟨e, he, hlong⟩
    exact ⟨e, List.mem_append_right _ he, hlong⟩

theorem text?_of_text {p : Policy} {v : Value} {t : Tree} {s : String} (ht : v.trim p = .ok t)
    (hs : t.json = .ok s) : v.text? p = (p.checkWhole s).map .ok := by
  simp only [text?, ht, hs]

theorem text?_of_noText {p : Policy} {v : Value} {t : Tree} {z : Complex} (ht : v.trim p = .ok t)
    (hz : t.json = .error z) : v.text? p = ⟨.error (.noText z), []⟩ := by
  simp only [text?, ht, hz]

theorem text?_of_panicked {p : Policy} {v : Value} {f : Fault} (h : v.trim p = .error f) :
    v.text? p = ⟨.error (.panicked f), []⟩ := by
  simp only [text?, h]

/-- Without a panic, a text is refused for the first complex number of the tree, and is what the
tree displays if there is none. -/
theorem value_text?_of_ok {p : Policy} {v : Value} {t : Tree} (ht : v.trim p = .ok t) :
    (∀ z, (v.text? p).value = .error (.noText z) ↔ t.complexes.head? = some z) ∧
      (t.complexes = [] → (v.text? p).value = .ok t.display) := by
  have hfirst := failsFirst_json t
  cases hj : t.json with
  | error y =>
    have hy : t.complexes.head? = some y := hfirst.eq_error_iff.mp hj
    rw [text?_of_noText ht hj, hy]
    refine ⟨fun z => by simp, fun hnil => ?_⟩
    rw [hnil] at hy
    cases hy
  | ok s =>
    have hnil : t.complexes = [] := hfirst.eq_ok_iff.mp ⟨s, hj⟩
    rw [text?_of_text ht hj, hnil, Tree.display_of_json hj]
    exact ⟨fun z => by simp [Logged.map], fun _ => congrArg Except.ok (p.value_checkWhole s)⟩

/-- Asked for with its reason, a text that is too long is reported unless something panicked. -/
theorem tooLong_text? (p : Policy) (v : Value) :
    (∃ e ∈ (v.text? p).events, e.isTooLong = true) ↔ ∃ t s, v.trim p = .ok t ∧ t.json = .ok s ∧
      0 < p.wholeLimit ∧ p.wholeLimit < s.utf8ByteSize := by
  cases ht : v.trim p with
  | error f => simp [text?_of_panicked ht]
  | ok t =>
    cases hj : t.json with
    | error z => simp [text?_of_noText ht hj, hj]
    | ok s =>
      rw [text?_of_text ht hj]
      refine (p.tooLong_checkWhole s).trans ⟨fun h => ⟨t, s, rfl, hj, h⟩, ?_⟩
      rintro ⟨_, r, ht', hr, h⟩
      cases ht'
      cases hj.symm.trans hr
      exact h

/-- The limit of the whole text changes no tree and no text. -/
theorem unchanged_wholeLimit (p : Policy) (w : Int) (v : Value) :
    v.trim { p with wholeLimit := w } = v.trim p ∧
    v.report { p with wholeLimit := w } = v.report p ∧
    (v.reportText { p with wholeLimit := w }).value = (v.reportText p).value ∧
    (v.text? { p with wholeLimit := w }).value = (v.text? p).value := by
  have htrim := trim_wholeLimit p w v
  have hreport : v.report { p with wholeLimit := w } = v.report p := by rw [report, report, htrim]
  have hcheck : ∀ s, (Policy.checkWhole { p with wholeLimit := w } s).value =
      (p.checkWhole s).value := by
    intro s
    rw [Policy.value_checkWhole, Policy.value_checkWhole]
  refine ⟨htrim, hreport, ?_, ?_⟩
  · rw [reportText_eq, reportText_eq, hreport]
    exact (Policy.value_written _ _).trans (p.value_written _).symm
  · cases ht : v.trim p with
    | error f => rw [text?_of_panicked ht, text?_of_panicked (htrim.trans ht)]
    | ok t =>
      cases hj : t.json with
      | error z => rw [text?_of_noText ht hj, text?_of_noText (htrim.trans ht) hj]
      | ok s =>
        rw [text?_of_text ht hj, text?_of_text (htrim.trans ht) hj]
        exact congrArg Except.ok (hcheck s)

end Value

/-- The ways to a JSON text agree. The reported text is what the reported tree displays, and empty
exactly if a complex number stands in it. Without a panic, the text asked for with its reason is
refused exactly then, for the complex number that is written first (items in their order, entries
in the order of the bytes of their keys), and is the same text otherwise. The limit of the whole
text changes no tree and no text; a text above it is reported as too long, and nothing else is. -/
theorem texts_agree (p : Policy) (v : Value) :
    (v.reportText p).value = (v.report p).value.display ∧
    ((v.reportText p).value = "" ↔ ∃ n z, Below (v.report p).value n (.complex z)) ∧
    (∀ t, v.trim p = .ok t → (v.report p).value = t ∧
      (∀ n es, Below t n (.map es) → es.Pairwise fun a b => Text.bytes a.1 < Text.bytes b.1) ∧
      (∀ z, (v.text? p).value = .error (.noText z) ↔ t.complexes.head? = some z) ∧
      ((∀ n z, ¬ Below t n (.complex z)) → (v.text? p).value = .ok (v.reportText p).value)) ∧
    (∀ w, v.trim { p with wholeLimit := w } = v.trim p ∧
      v.report { p with wholeLimit := w } = v.report p ∧
      (v.reportText { p with wholeLimit := w }).value = (v.reportText p).value ∧
      (v.text? { p with wholeLimit := w }).value = (v.text? p).value) ∧
    ((∃ e ∈ (v.reportText p).events, e.isTooLong = true) ↔ ∃ s, (v.report p).value.json = .ok s ∧
      0 < p.wholeLimit ∧ p.wholeLimit < s.utf8ByteSize) ∧
    ((∃ e ∈ (v.text? p).events, e.isTooLong = true) ↔ ∃ t s, v.trim p = .ok t ∧ t.json = .ok s ∧
      0 < p.wholeLimit ∧ p.wholeLimit < s.utf8ByteSize) := by
  have htext : (v.reportText p).value = (v.report p).value.display := by
    rw [Value.reportText_eq]
    exact p.value_written _
  refine ⟨htext, ?_, fun t ht => ?_, fun w => v.unchanged_wholeLimit p w, v.tooLong_reportText p,
    v.tooLong_text? p⟩
  · rw [htext, Tree.display_eq_empty_iff]
  · have hreport : (v.report p).value = t := by rw [Value.report_of_ok ht]
    obtain ⟨hrefused, hsame⟩ := Value.value_text?_of_ok ht
    have horder : t.InOrder := hreport ▸ v.inOrder_report p
    refine ⟨hreport, fun n es hn => (horder n es hn).bytes, hrefused, fun hno => ?_⟩
    rw [htext, hreport]
    refine hsame (List.eq_nil_iff_forall_not_mem.mpr fun z hz => ?_)
    obtain ⟨n, hn⟩ := mem_complexes_iff.mp hz
    exact hno n z hn

/-- Of two complex numbers, the one under the smaller key is written first. -/
example (y z : Complex) : ((Value.map [("b", .scalar (.complex y)), ("a", .list
    [.absent, .scalar (.complex z)])]).text? Policy.standard).value = .error (.noText z) := rfl

end Abridge

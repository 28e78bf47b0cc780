import Abridge.Derive.Present
import Abridge.Proofs.Naming
import Abridge.Proofs.Overwritten
import Abridge.Proofs.Snake
import Abridge.Proofs.Structs

/-!
Renamed fields stay apart. The words of a name can be read back from what a rule makes of them: by
its separators, or by its capitals, since each word begins with one and has no other. So two names
of small words never become one, and a record whose fields are named by the rule binds each of them
to its own value. No length of a sequence replaces one either, as no such name begins with an
underscore.
-/
namespace Abridge.Derive

open Text

namespace RenameRule

/-! ### Reading the words back -/

/-- A capital begins a word. -/
def parted (c : Char) : List Char := if c.isUpper then ['_', c.toLower] else [c]

/-- The name of which the rule made this one. -/
def undo : RenameRule → List Char → List Char
  | .lowercase, cs => cs
  | .snake, cs => cs
  | .uppercase, cs => cs.map Char.toLower
  | .screamingSnake, cs => cs.map Char.toLower
  | .kebab, cs => cs.map fun c => if c = '-' then '_' else c
  | .camel, cs => cs.flatMap parted
  | .pascal, cs => (cs.flatMap parted).tail

section

variable {w : List Char} {ws : List (List Char)}

theorem flatMap_parted_small (hw : ∀ c ∈ w, c.isLower = true) : w.flatMap parted = w := by
  have hsingle : ∀ c ∈ w, parted c = [c] := fun c hc => by
    rw [parted, isUpper_eq_false (hw c hc), if_neg Bool.false_ne_true]
  rw [List.flatMap_congr hsingle, List.flatMap_singleton']

theorem flatMap_parted_capitalFirst (hw : IsWord w) :
    (capitalFirst w).flatMap parted = '_' :: w := by
  obtain ⟨c, rest, rfl, hc, hrest⟩ := hw.exists_cons
  rw [capitalFirst, List.flatMap_cons, flatMap_parted_small hrest, parted,
    if_pos (isUpper_toUpper hc), toLower_toUpper hc]
  rfl

theorem flatMap_parted_capitals (hws : ∀ v ∈ ws, IsWord v) :
    (ws.flatMap capitalFirst).flatMap parted = behind '_' ws := by
  rw [List.flatMap_assoc]
  exact List.flatMap_congr fun v hv => flatMap_parted_capitalFirst (hws v hv)

theorem map_toLower_toUpper {cs : List Char} (h : IsSmall cs) :
    (cs.map Char.toUpper).map Char.toLower = cs := by
  rw [List.map_map]
  refine (List.map_congr_left fun c hc => ?_).trans cs.map_id
  rcases h c hc with hc | rfl
  · exact toLower_toUpper hc
  · rfl

theorem map_dash_dashed {cs : List Char} (h : IsSmall cs) :
    (cs.map dashed).map (fun c => if c = '-' then '_' else c) = cs := by
  rw [List.map_map]
  refine (List.map_congr_left fun c hc => ?_).trans cs.map_id
  rcases h c hc with hc | rfl
  · have hline : c ≠ '_' := by rintro rfl; exact absurd hc (by decide)
    have hdash : c ≠ '-' := by rintro rfl; exact absurd hc (by decide)
    simp [dashed, hline, hdash]
  · rfl

theorem undo_written (r : RenameRule) (hw : IsWord w) (hws : ∀ v ∈ ws, IsWord v) :
    r.undo (r.written w ws) = w ++ behind '_' ws := by
  have hsmall := isSmall_joined hw hws
  cases r with
  | lowercase | snake => rfl
  | uppercase | screamingSnake => exact map_toLower_toUpper hsmall
  | kebab => rw [written_kebab hw hws, undo, map_dash_dashed hsmall]
  | camel =>
    rw [undo, written, List.flatMap_append, flatMap_parted_small hw.2, flatMap_parted_capitals hws]
  | pascal =>
    rw [undo, written, List.flatMap_append, flatMap_parted_capitalFirst hw,
      flatMap_parted_capitals hws]
    rfl

/-! ### Conventions -/

/-- Is the name written as the rule has it? In capitals alone there are nothing but letters, neither
underscores nor dashes. -/
def Follows : RenameRule → List Char → Prop
  | .camel, cs => (∀ c ∈ cs, c.isAlpha = true) ∧ cs.head?.any Char.isLower = true
  | .pascal, cs => (∀ c ∈ cs, c.isAlpha = true) ∧ cs.head?.any Char.isUpper = true
  | .lowercase, cs => ∀ c ∈ cs, c.isLower = true ∨ c = '_'
  | .snake, cs => ∀ c ∈ cs, c.isLower = true ∨ c = '_'
  | .uppercase, cs => ∀ c ∈ cs, c.isUpper = true ∨ c = '_'
  | .screamingSnake, cs => ∀ c ∈ cs, c.isUpper = true ∨ c = '_'
  | .kebab, cs => ∀ c ∈ cs, c.isLower = true ∨ c = '-'

theorem mem_map_dashed {cs : List Char} (h : IsSmall cs) :
    ∀ c ∈ cs.map dashed, c.isLower = true ∨ c = '-' := by
  intro c hc
  obtain ⟨d, hd, rfl⟩ := List.mem_map.mp hc
  rw [dashed]
  split
  · exact Or.inr rfl
  · exact Or.inl ((h d hd).resolve_right ‹_›)

theorem follows_written (r : RenameRule) (hw : IsWord w) (hws : ∀ v ∈ ws, IsWord v) :
    r.Follows (r.written w ws) := by
  have hsmall := isSmall_joined hw hws
  obtain ⟨c, rest, hcons, hc, hrest⟩ := hw.exists_cons
  cases r with
  | lowercase | snake => exact hsmall
  | uppercase | screamingSnake => exact mem_map_toUpper hsmall
  | kebab => exact written_kebab hw hws ▸ mem_map_dashed hsmall
  | camel =>
    refine ⟨fun d hd => ?_, ?_⟩
    · rcases List.mem_append.mp hd with hd | hd
      · simp [Char.isAlpha, hw.2 d hd]
      · exact isAlpha_of_mem_capitals hws hd
    · rw [written, hcons]
      exact hc
  | pascal =>
    refine ⟨fun d hd => isAlpha_of_mem_capitals (List.forall_mem_cons.mpr ⟨hw, hws⟩) hd, ?_⟩
    rw [written, hcons]
    exact isUpper_toUpper hc

/-- The first character is a letter. -/
theorem written_eq_cons (r : RenameRule) (hw : IsWord w) :
    ∃ c rest, r.written w ws = c :: rest ∧ c.isAlpha = true := by
  obtain ⟨c, rest, rfl, hc, _⟩ := hw.exists_cons
  have hsmall : c.isAlpha = true := by simp [Char.isAlpha, hc]
  have hlarge : c.toUpper.isAlpha = true := by simp [Char.isAlpha, isUpper_toUpper hc]
  cases r with
  | lowercase | snake | kebab | camel => exact ⟨c, _, rfl, hsmall⟩
  | uppercase | screamingSnake | pascal => exact ⟨c.toUpper, _, rfl, hlarge⟩

theorem Follows.comma_not_mem {r : RenameRule} {cs : List Char} (h : r.Follows cs) : ',' ∉ cs := by
  intro hc
  cases r with
  | camel | pascal => exact absurd (h.1 ',' hc) (by decide)
  | _ => exact absurd (h ',' hc) (by decide)

end

section

variable {m n : String} (r : RenameRule)

theorem apply_injective (hm : IsSnake m) (hn : IsSnake n) (h : r.apply m = r.apply n) : m = n := by
  obtain ⟨v, vs, hv, hvs, hm, happly⟩ := hm.exists_words
  obtain ⟨w, ws, hw, hws, hn, happly'⟩ := hn.exists_words
  have hwritten : r.written v vs = r.written w ws := by
    rw [← happly r, ← happly' r, h]
  rw [← String.toList_inj, hm, hn, ← r.undo_written hv hvs, ← r.undo_written hw hws, hwritten]

theorem apply_follows (hn : IsSnake n) : r.Follows (r.apply n).toList := by
  obtain ⟨w, ws, hw, hws, _, happly⟩ := hn.exists_words
  exact happly r ▸ r.follows_written hw hws

theorem toList_apply_eq_cons (hn : IsSnake n) :
    ∃ c rest, (r.apply n).toList = c :: rest ∧ c.isAlpha = true := by
  obtain ⟨w, ws, hw, hws, _, happly⟩ := hn.exists_words
  exact happly r ▸ r.written_eq_cons hw

theorem apply_ne_empty (hn : IsSnake n) : r.apply n ≠ "" := by
  obtain ⟨c, rest, happly, _⟩ := r.toList_apply_eq_cons hn
  intro h
  rw [h] at happly
  cases happly

/-- No sequence has its length under such a name. -/
theorem apply_ne_sizeKey (hn : IsSnake n) (name : String) : r.apply n ≠ Seen.sizeKey name := by
  obtain ⟨c, rest, happly, hc⟩ := r.toList_apply_eq_cons hn
  intro h
  rw [h, Seen.sizeKey, String.toList_append] at happly
  obtain rfl : '_' = c := (List.cons.inj happly).1
  exact absurd hc (by decide)

end

end RenameRule

/-! ### Records -/

/-- A struct with named fields, all of which are named by the rule of the type: in small words, and
without a name or a tag of their own. -/
structure NamedByRule (useSerializer : Bool) (r : RenameRule) (d : Definition)
    (fs : List NamedField) : Prop where
  body : d.body = .struct (.named fs)
  rule : typeRule useSerializer d.attributes = some r
  isSnake : ∀ f ∈ fs, IsSnake (unraw f.name)
  nodup : (fs.map fun f => unraw f.name).Nodup
  unnamed : ∀ f ∈ fs, ownValue Entry.textValue "rename" f.attributes = none ∧
    (serializerField useSerializer f.attributes).rename = none ∧
    ownValue Entry.textValue "tag" f.attributes = none

section

variable {useSerializer : Bool} {r : RenameRule} {d : Definition} {fs : List NamedField}

theorem NamedByRule.emitted? (h : NamedByRule useSerializer r d fs) {f : NamedField} (hf : f ∈ fs) :
    (f.planned useSerializer (some r)).descriptor.emitted? = some (r.apply (unraw f.name)) := by
  obtain ⟨hown, hother, htag⟩ := h.unnamed f hf
  have hsnake := h.isSnake f hf
  have hname : (f.planned useSerializer (some r)).emitted = r.apply (unraw f.name) := by
    rw [NamedField.planned, chosenName, hown, hother]
    rfl
  have hkept : readBack (unraw f.name) (r.apply (unraw f.name)) = r.apply (unraw f.name) :=
    readBack_eq_iff.mpr (Or.inr ⟨r.apply_ne_empty hsnake, (r.apply_follows hsnake).comma_not_mem⟩)
  rw [FieldPlan.emitted?_descriptor htag, hname]
  exact congrArg some hkept

open Classical in
/-- A value of the struct is a record of the fields that are not skipped. -/
theorem NamedByRule.present_eq (h : NamedByRule useSerializer r d fs) {plan : Plan}
    (hplan : Plan.ofStruct useSerializer d = .ok plan) (hdisplay : plan.presentation ≠ .display)
    (herror : plan.presentation ≠ .error) (x : Instance) : plan.present x =
      .record ((fs.filter fun f => ¬ Skipped useSerializer f.attributes).map fun f =>
        ((f.planned useSerializer (some r)).descriptor, x.member f.name)) := by
  have hrecord := named_eq_record hplan hdisplay herror h.body
  rw [h.rule] at hrecord
  simp only [Plan.present, hrecord, List.map_map]
  rfl

/-- Fields with different names are emitted under different names. -/
theorem NamedByRule.nodup_emitted (h : NamedByRule useSerializer r d fs) {gs : List NamedField}
    (hgs : gs.Sublist fs) (value : NamedField → Value) :
    (emittedNames (gs.map fun f =>
      ((f.planned useSerializer (some r)).descriptor, value f))).Nodup := by
  have hnames : emittedNames (gs.map fun f =>
      ((f.planned useSerializer (some r)).descriptor, value f)) =
        (gs.map fun f => unraw f.name).map r.apply := by
    rw [emittedNames, List.filterMap_map, List.map_map, ← List.filterMap_eq_map]
    exact List.filterMap_congr fun f hf => h.emitted? (hgs.subset hf)
  have hsnake : ∀ n ∈ gs.map fun f => unraw f.name, IsSnake n := by
    intro n hn
    obtain ⟨f, hf, rfl⟩ := List.mem_map.mp hn
    exact h.isSnake f (hgs.subset hf)
  rw [hnames]
  refine List.Nodup.map_on (fun m hm n hn => ?_) ((hgs.map _).nodup h.nodup)
  exact r.apply_injective (hsnake m hm) (hsnake n hn)

end

/-- In a record whose fields have different names, none of them the key of a length, each field that
is attached is bound to what is seen of it. -/
theorem find?_of_attached {p : Policy} {depth : Int} {es out : Entries Tree}
    {as bs : List (Descriptor × Value)} {d : Descriptor} {v : Value} {name : String}
    (h : fields p depth es (as ++ (d, v) :: bs) = .ok out)
    (hnames : (emittedNames (as ++ (d, v) :: bs)).Nodup) (hd : d.emitted? = some name)
    (hp : p.isVisible name = true) (hkey : ∀ n, name ≠ Seen.sizeKey n) :
    ∃ s, look p .field false depth v = .ok s ∧
      (s.fieldWrites name ≠ [] → Entries.find? name out = some s.tree) := by
  rw [emittedNames_append_cons hd] at hnames
  obtain ⟨hname, _⟩ := List.nodup_cons.mp (List.nodup_append.mp hnames).2.1
  rw [fields_append] at h
  obtain ⟨mid, _, h⟩ := bind_eq_ok h
  rw [fields_cons_of_shown hd hp] at h
  obtain ⟨s, hs, h⟩ := bind_eq_ok h
  refine ⟨s, hs, fun hkept => ?_⟩
  have hsizes : ∀ f ∈ bs, ∀ t, ¬ SizesAs p depth f name t := by
    rintro f _ t ⟨n, _, _, _, _, _, _, hn, _⟩
    exact hkey n hn
  rw [find?_fields_of_not_written h hname hsizes, find?_asField hkept]

/-- A rule keeps different names of small words apart, and gives each of them a name that is not
empty and follows the rule. So no field that is named by the rule is overwritten: if it is
attached, it is bound to what is seen of it. -/
theorem renamed_apart (r : RenameRule) :
    (∀ m n, IsSnake m → IsSnake n → m ≠ n → r.apply m ≠ r.apply n) ∧
    (∀ n, IsSnake n → r.apply n ≠ "" ∧ r.Follows (r.apply n).toList) ∧
    ∀ {useSerializer d fs plan}, NamedByRule useSerializer r d fs →
      Plan.ofStruct useSerializer d = .ok plan → plan.presentation ≠ .display →
      plan.presentation ≠ .error → ∀ {p place opened depth x out}, 0 < spend depth →
      look p place opened depth (plan.present x) = .ok (.table out) →
      ∀ f ∈ fs, ¬ Skipped useSerializer f.attributes →
        p.isVisible (r.apply (unraw f.name)) = true →
        ∃ s, look p .field false (spend depth) (x.member f.name) = .ok s ∧
          (s.fieldWrites (r.apply (unraw f.name)) ≠ [] →
            Entries.find? (r.apply (unraw f.name)) out = some s.tree) := by
  refine ⟨fun m n hm hn hne h => hne (r.apply_injective hm hn h),
    fun n hn => ⟨r.apply_ne_empty hn, r.apply_follows hn⟩, ?_⟩
  intro useSerializer d fs plan h hplan hdisplay herror p place opened depth x out hdepth hlook f hf
    hskip hp
  classical
  have hkept : f ∈ fs.filter fun f => ¬ Skipped useSerializer f.attributes :=
    List.mem_filter.mpr ⟨hf, by simpa using hskip⟩
  have hsub : (fs.filter fun f => ¬ Skipped useSerializer f.attributes).Sublist fs :=
    List.filter_sublist
  have hnames := h.nodup_emitted hsub fun f => x.member f.name
  obtain ⟨as, bs, hsplit⟩ := List.append_of_mem hkept
  rw [h.present_eq hplan hdisplay herror, look, if_neg (by omega)] at hlook
  obtain ⟨es, hes, htable⟩ := map_eq_ok hlook
  cases htable
  rw [hsplit, List.map_append, List.map_cons] at hes hnames
  exact find?_of_attached hes hnames (h.emitted? hf) hp (r.apply_ne_sizeKey (h.isSnake f hf))

/-- Two names of the same letters, one of them in two words. -/
theorem renamed_apart_account :
    let fs : List NamedField := [⟨"user_id", "u64", []⟩, ⟨"userid", "u64", []⟩]
    let d : Definition := ⟨"Account", [⟨"trim", .items [.text "rename_all" "camelCase"]⟩], ⟨[], []⟩,
      .struct (.named fs)⟩
    let x : Instance :=
      ⟨[("user_id", .scalar (.uint 1)), ("userid", .scalar (.uint 2))], [], "", ""⟩
    RenameRule.camel.apply "user_id" ≠ RenameRule.camel.apply "userid" ∧
    RenameRule.camel.Follows (RenameRule.camel.apply "user_id").toList ∧
    ∃ plan out, Plan.ofStruct true d = .ok plan ∧
      look .standard .root false 10 (plan.present x) = .ok (.table out) ∧
      Entries.find? "userId" out = some (.uint 1) := by
  intro fs d x
  have hline : IsSnake "user_id" :=
    ⟨["user".toList, "id".toList], by simp, by simp [IsWord], by rfl⟩
  have hword : IsSnake "userid" := ⟨["userid".toList], by simp, by simp [IsWord], by rfl⟩
  obtain ⟨hapart, hfollows, hbound⟩ := renamed_apart .camel
  have hplan : Plan.ofStruct true d = .ok ⟨"Account", ⟨[], []⟩, .record
      [⟨"user_id", "user_id", "userId", none⟩, ⟨"userid", "userid", "userid", none⟩]⟩ := by cbv
  have hnamed : NamedByRule true .camel d fs := by
    refine ⟨rfl, rfl, ?_, by decide, ?_⟩
    · exact List.forall_mem_cons.mpr ⟨hline, List.forall_mem_cons.mpr ⟨hword, by simp⟩⟩
    · exact List.forall_mem_cons.mpr ⟨⟨rfl, rfl, rfl⟩,
        List.forall_mem_cons.mpr ⟨⟨rfl, rfl, rfl⟩, by simp⟩⟩
  have hname : RenameRule.camel.apply "user_id" = "userId" := by decide +kernel
  have hskip : ¬ Skipped true [] := by
    rintro (⟨he, _, _⟩ | ⟨_, _, a, ha, _⟩)
    · cases he
    · cases ha
  have hlook : look .standard .root false 10 (.record [(⟨"user_id", some "userId"⟩,
      .scalar (.uint 1)), (⟨"userid", none⟩, .scalar (.uint 2))]) =
      .ok (.table [("userId", .uint 1), ("userid", .uint 2)]) := rfl
  have hvisible : Policy.standard.isVisible (RenameRule.camel.apply "user_id") = true := by
    rw [hname]
    decide
  obtain ⟨s, hs, hfound⟩ := hbound hnamed hplan (by simp) (by simp) (x := x) (by decide) hlook _
    List.mem_cons_self hskip hvisible
  cases hs
  have huser := hfound (by simp [Seen.fieldWrites])
  have hunraw : unraw "user_id" = "user_id" := rfl
  rw [hunraw, hname] at huser
  exact ⟨hapart _ _ hline hword (by decide), (hfollows _ hline).2, _, _, hplan, hlook, huser⟩

end Abridge.Derive

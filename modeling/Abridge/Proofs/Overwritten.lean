import Abridge.Proofs.Hidden
import Abridge.Proofs.Log

/-!
Which field is bound under its name. Fields of different names write different keys, but for the
length of a sequence, whose key is made up from its name: it replaces a field that has this key for
its name and was declared before the sequence. Nothing else replaces a field.
-/
namespace Abridge

theorem sizeKey_injective {a b : String} (h : Seen.sizeKey a = Seen.sizeKey b) : a = b := by
  have hl := congrArg String.toList h
  rw [Seen.sizeKey, Seen.sizeKey, String.toList_append, String.toList_append] at hl
  exact String.toList_inj.mp (List.append_cancel_left hl)

theorem sizeKey_ne (name : String) : Seen.sizeKey name ≠ name := by
  intro h
  have hl := congrArg String.length h
  have hmark : "_size__".length = 7 := rfl
  rw [Seen.sizeKey, String.length_append] at hl
  omega

/-- A field that is attached writes what is seen of it, and at most its length after that. -/
theorem Seen.fieldWrites_eq_cons {name : String} {s : Seen} (h : s.fieldWrites name ≠ []) :
    ∃ sizes, s.fieldWrites name = (name, s.tree) :: sizes ∧ ∀ w ∈ sizes, w.1 = sizeKey name := by
  cases s with
  | nothing => exact absurd rfl h
  | leaf t => exact ⟨[], rfl, by simp⟩
  | table | list | boxed =>
    rw [fieldWrites] at h ⊢
    split at h
    · exact absurd rfl h
    · rw [if_neg ‹_›]
      exact ⟨_, rfl, by simp⟩

theorem find?_asField {name : String} {s : Seen} (h : s.fieldWrites name ≠ [])
    (out : Entries Tree) : Entries.find? name (s.asField name out) = some s.tree := by
  obtain ⟨sizes, hwrites, hsizes⟩ := Seen.fieldWrites_eq_cons h
  have hother : ∀ w ∈ sizes, w.1 ≠ name := fun w hw => hsizes w hw ▸ sizeKey_ne name
  rw [Seen.asField_eq_play, hwrites, Entries.play_cons, Entries.find?_play_of_forall_ne _ hother]
  exact Entries.find?_insert_self ..

/-! ### Fields that come later -/

/-- The names under which fields are emitted, visible or not. -/
def emittedNames (fs : List (Descriptor × Value)) : List String :=
  fs.filterMap fun f => f.1.emitted?

/-- The field is a sequence with content, and its length `t` is written under the key. -/
def SizesAs (p : Policy) (depth : Int) (f : Descriptor × Value) (key : String) (t : Tree) : Prop :=
  ∃ name n ts, f.1.emitted? = some name ∧ p.isVisible name = true ∧
    look p .field false depth f.2 = .ok (.list n ts) ∧ ts ≠ [] ∧ key = Seen.sizeKey name ∧
    t = .int (min n Word.maxSigned : Nat)

theorem emittedNames_append_cons {d : Descriptor} {name : String} (hd : d.emitted? = some name)
    (as : List (Descriptor × Value)) (v : Value) (bs : List (Descriptor × Value)) :
    emittedNames (as ++ (d, v) :: bs) = emittedNames as ++ name :: emittedNames bs := by
  have hcons : emittedNames ((d, v) :: bs) = name :: emittedNames bs :=
    List.filterMap_cons_some hd
  rw [← hcons]
  exact List.filterMap_append

theorem fields_append (p : Policy) (depth : Int) (as bs : List (Descriptor × Value))
    (out : Entries Tree) : fields p depth out (as ++ bs) =
      (fields p depth out as).bind fun mid => fields p depth mid bs := by
  induction as generalizing out with
  | nil => rfl
  | cons f as ih =>
    obtain ⟨d, v⟩ := f
    rw [List.cons_append, fields, fields]
    cases d.emitted? with
    | none => exact ih out
    | some name =>
      simp only
      split
      · cases look p .field false depth v with
        | error f => rfl
        | ok s => exact ih _
      · exact ih out

section Later

variable {p : Policy} {depth : Int} {key : String} {es out : Entries Tree}
  {bs : List (Descriptor × Value)}

/-- A key that is neither the name of a field nor that of its length stays as it is. -/
theorem find?_fields_of_not_written (h : fields p depth es bs = .ok out)
    (hname : key ∉ emittedNames bs) (hsize : ∀ f ∈ bs, ∀ t, ¬ SizesAs p depth f key t) :
    Entries.find? key out = Entries.find? key es := by
  rw [fields_eq_play] at h
  obtain ⟨log, hlog, rfl⟩ := map_eq_ok h
  refine Entries.find?_play_of_forall_ne log fun w hw hkey => ?_
  obtain ⟨d, v, name, s, hm, hd, hp, hs, hws, _⟩ := fieldWrites_of_mem hlog hw
  rcases Seen.mem_fieldWrites hws with rfl | ⟨n, ts, rfl, hts, rfl⟩
  · exact hname (List.mem_filterMap.mpr ⟨(d, v), hm, hkey ▸ hd⟩)
  · exact hsize (d, v) hm _ ⟨name, n, ts, hd, hp, hs, hts, hkey.symm, rfl⟩

/-- The length of a sequence stays under its key, unless a field has the key for its name. -/
theorem find?_fields_of_sizes (h : fields p depth es bs = .ok out)
    (hnames : (emittedNames bs).Nodup) (hname : key ∉ emittedNames bs) {f : Descriptor × Value}
    (hf : f ∈ bs) {t : Tree} (ht : SizesAs p depth f key t) : Entries.find? key out = some t := by
  obtain ⟨d, v⟩ := f
  obtain ⟨name, n, ts, hd, hp, hs, hts, rfl, rfl⟩ := ht
  obtain ⟨as, cs, rfl⟩ := List.append_of_mem hf
  rw [emittedNames_append_cons hd] at hnames hname
  obtain ⟨hfresh, _⟩ := List.nodup_cons.mp (List.nodup_append.mp hnames).2.1
  rw [fields_append] at h
  obtain ⟨mid, _, h⟩ := bind_eq_ok h
  rw [fields_cons_of_shown hd hp, hs] at h
  -- Nothing after the sequence writes its size key: no field has this name, no other this length.
  have hcs : Seen.sizeKey name ∉ emittedNames cs := fun hm =>
    hname (List.mem_append_right _ (List.mem_cons_of_mem _ hm))
  rw [find?_fields_of_not_written h hcs, Seen.asField, if_neg (by simpa using hts)]
  · exact Entries.find?_insert_self ..
  · rintro g hg u ⟨other, _, _, hother, _, _, _, hkey, _⟩
    rw [← sizeKey_injective hkey] at hother
    exact hfresh (List.mem_filterMap.mpr ⟨g, hg, hother⟩)

end Later

/-! ### The whole record -/

/-- In a record whose fields have different names, a field that is attached (plain data is, and a
sequence with content, directly or behind one option) is bound to what is seen of it exactly unless
a later sequence writes another length under the name. -/
theorem field_bound_iff {p : Policy} {place : Place} {opened : Bool} {depth : Int}
    {as bs : List (Descriptor × Value)} {d : Descriptor} {v : Value} {out : Entries Tree}
    (hnames : (emittedNames (as ++ (d, v) :: bs)).Nodup) (hdepth : 0 < spend depth)
    (h : look p place opened depth (.record (as ++ (d, v) :: bs)) = .ok (.table out))
    {name : String} (hd : d.emitted? = some name) (hp : p.isVisible name = true) {s : Seen}
    (hs : look p .field false (spend depth) v = .ok s) (hkept : s.fieldWrites name ≠ []) :
    Entries.find? name out = some s.tree ↔
      ∀ f ∈ bs, ∀ t, SizesAs p (spend depth) f name t → t = s.tree := by
  rw [emittedNames_append_cons hd] at hnames
  obtain ⟨hname, hnames⟩ := List.nodup_cons.mp (List.nodup_append.mp hnames).2.1
  rw [look, if_neg (by omega)] at h
  obtain ⟨es, hes, htable⟩ := map_eq_ok h
  cases htable
  rw [fields_append] at hes
  obtain ⟨mid, _, hes⟩ := bind_eq_ok hes
  rw [fields_cons_of_shown hd hp, hs] at hes
  constructor
  · intro hbound f hf t ht
    have hsize := find?_fields_of_sizes hes hnames hname hf ht
    exact Option.some.inj (hsize.symm.trans hbound)
  · intro hsizes
    by_cases hlater : ∃ f ∈ bs, ∃ t, SizesAs p (spend depth) f name t
    · obtain ⟨f, hf, t, ht⟩ := hlater
      rw [find?_fields_of_sizes hes hnames hname hf ht, hsizes f hf t ht]
    · have hnone : ∀ f ∈ bs, ∀ t, ¬ SizesAs p (spend depth) f name t :=
        fun f hf t ht => hlater ⟨f, hf, t, ht⟩
      rw [find?_fields_of_not_written hes hname hnone, find?_asField hkept]

/-- A field that comes after the sequence keeps its value, and the length is lost. -/
theorem field_bound_iff_after :
    let fs : List (Descriptor × Value) := [(⟨"x", none⟩, .list [.scalar (.bool true)])] ++
      (⟨"_size__x", none⟩, .scalar (.int 7)) :: []
    (emittedNames fs).Nodup ∧ ∃ out, look .standard .root false 10 (.record fs) = .ok (.table out) ∧
      Entries.find? "_size__x" out = some (.int 7) := by
  intro fs
  have hnames : (emittedNames fs).Nodup := by decide
  have hdepth : 0 < spend 10 := by decide
  have hlook : look .standard .root false 10 (.record fs) =
      .ok (.table [("_size__x", .int 7), ("x", .seq [.bool true])]) := rfl
  have hvisible : Policy.standard.isVisible "_size__x" = true := by decide
  have hkept : (Seen.leaf (.int 7)).fieldWrites "_size__x" ≠ [] := by simp [Seen.fieldWrites]
  refine ⟨hnames, _, hlook, (field_bound_iff hnames hdepth hlook rfl hvisible rfl hkept).mpr ?_⟩
  exact fun f hf => absurd hf List.not_mem_nil

/-- A field that comes before the sequence loses its value to the length. -/
theorem size_replaces_field :
    let fs : List (Descriptor × Value) := [(⟨"_size__x", none⟩, .scalar (.int 7)),
      (⟨"x", none⟩, .list [.scalar (.bool true)])]
    (emittedNames fs).Nodup ∧ Policy.standard.isVisible "_size__x" = true ∧
      ∃ out, look .standard .root false 10 (.record fs) = .ok (.table out) ∧
        Entries.find? "_size__x" out = some (.int 1) ∧
        (Scalar.int 7).trim .standard ≠ .int 1 :=
  ⟨by decide, by decide, _, rfl, rfl, by simp [Scalar.trim]⟩

end Abridge

import Abridge.Proofs.Implementations
import Abridge.Proofs.Literals

/-!
The blocks of generated code: the expression for a shape, the fields of a record, each with its
descriptor and the member that it borrows, and the length and the items of a sequence.
-/
namespace Abridge.Derive

namespace Code

open Token

/-! ### Expressions -/

/-- A call of a function: the names in its path, what it is applied to, and what is left. -/
def readCall (ts : List Token) : Option (List String × List Token × List Token) :=
  match readPath ts with
  | (names, .group .round inner :: rest) => some (names, inner, rest)
  | _ => none

/-- The member of the value itself that is borrowed. -/
def readMember : List Token → Option Token
  | [.mark "&", .word "self", .mark ".", member] => some member
  | _ => none

/-- A whole number with the suffix for its type. -/
def readNumber (suffix : String) : Token → Option Nat
  | .literal s => if (Literal.wholeNumber s).2 = suffix then (Literal.wholeNumber s).1 else none
  | _ => none

theorem readCall_path (names : List String) (inner rest : List Token) :
    readCall (path names ++ round inner :: rest) = some (names, inner, rest) := by
  rw [readCall, readPath_append _ (by simp [round])]
  rfl

theorem readNumber_toString (n : Nat) (suffix : String)
    (h : suffix.toList.head?.all Literal.endsDigits = true) :
    readNumber suffix (.literal (toString n ++ suffix)) = some n := by
  rw [readNumber, Literal.wholeNumber_toString n h, if_pos rfl]

theorem readNumber_indexToken (i : Nat) : readNumber "" (indexToken i) = some i := by
  have h := readNumber_toString i "" rfl
  rwa [String.append_empty] at h

/-! ### Shapes -/

/-- What an expression for the shape of a value says. -/
inductive Shape where
  | record
  | sequence
  /-- The shape of the member at an index. -/
  | inner (index : Nat)
  /-- A name for each variant. -/
  | variantName (names : List (String × String))
  | text
  | error
  deriving DecidableEq

/-- The variants and their names, one arm after another. -/
def readArms : List Token → Option (List (String × String))
  | [] => some []
  | .word "Self" :: .mark "::" :: .word v :: .mark "=>" :: .text name :: .mark "," :: ts => do
    return (v, name) :: (← readArms ts)
  | _ => none

def readVariantName (ts : List Token) : Option Shape :=
  match readCall ts with
  | some (["logtrim", "Scalar", "Str"], ts, []) =>
    match readCall ts with
    | some (["std", "borrow", "Cow", "Borrowed"],
        [.word "match", .mark "*", .word "self", .group .curly arms], []) => do
      return .variantName (← readArms arms)
    | _ => none
  | _ => none

/-- The text of a value is its own, made with a function of its own for texts. -/
def readText (ts : List Token) : Option Shape :=
  match readCall ts with
  | some (["std", "borrow", "Cow", "Owned"], ts, [.mark ","]) =>
    match readCall ts with
    | some (["std", "string", "ToString", "to_string"], [.word "self"], []) => some .text
    | _ => none
  | _ => none

def readSpecial (ts : List Token) : Option Shape :=
  match readCall ts with
  | some (["logtrim", "Special", "Text"], ts, []) => readText ts
  | some (["logtrim", "Special", "Error"], [.word "self"], []) => some .error
  | _ => none

def readShape (ts : List Token) : Option Shape :=
  match readCall ts with
  | some (["logtrim", "Shape", "Record"], [.word "self"], []) => some .record
  | some (["logtrim", "Shape", "Seq"], [.word "self"], []) => some .sequence
  | some (["logtrim", "Trimmable", "shape"], ts, []) => do
    return .inner (← readNumber "" (← readMember ts))
  | some (["logtrim", "Shape", "Scalar"], ts, []) => readVariantName ts
  | some (["logtrim", "Shape", "Special"], ts, []) => readSpecial ts
  | _ => none

theorem readArms_arms (vs : List VariantPlan) :
    readArms (arms vs) = some (vs.map fun v => (v.identifier, v.name)) := by
  induction vs with
  | nil => rfl
  | cons v vs ih =>
    change (do return (v.identifier, v.name) :: (← readArms (arms vs))) = _
    rw [ih]
    rfl

end Code

/-- The shape of values that are shown so. -/
def Presentation.shape : Presentation → Code.Shape
  | .record _ => .record
  | .unitRecord => .record
  | .transparent i => .inner i
  | .sequence _ => .sequence
  | .unitEnum vs => .variantName (vs.map fun v => (v.identifier, v.name))
  | .display => .text
  | .error => .error

namespace Code

open Token

theorem readVariantName_arms (vs : List VariantPlan) :
    readVariantName (path ["logtrim", "Scalar", "Str"] ++ [round (cow "Borrowed"
      [.word "match", .mark "*", .word "self", curly (arms vs)])]) =
      some (.variantName (vs.map fun v => (v.identifier, v.name))) := by
  rw [readVariantName, readCall_path, cow]
  simp only [readCall_path, curly, readArms_arms]
  rfl

/-- The expression for the shape says which one it is. -/
theorem readShape_shape (p : Presentation) : readShape (shape p) = some p.shape := by
  cases p with
  | record fs => rfl
  | unitRecord => rfl
  | transparent i =>
    rw [shape, readShape, readCall_path]
    simp only [borrowed, readMember, Option.bind_eq_bind, Option.bind_some, readNumber_indexToken]
    rfl
  | sequence is => rfl
  | unitEnum vs =>
    rw [shape, shapeOf, readShape, readCall_path]
    simp only [readVariantName_arms]
    rfl
  | display => rfl
  | error => rfl

/-! ### Functions -/

/-- The functions of a block, each with its signature and its own block. -/
def readFunctions : List Token → Option (List (List Token × List Token))
  | [] => some []
  | .group .curly block :: ts => do return ([], block) :: (← readFunctions ts)
  | t :: ts =>
    match readFunctions ts with
    | some ((signature, block) :: fs) => some ((t :: signature, block) :: fs)
    | _ => none

theorem readFunctions_append {signature : List Token} (h : signature.all (!isBlock ·) = true)
    (block ts : List Token) :
    readFunctions (signature ++ curly block :: ts) =
      (readFunctions ts).map ((signature, block) :: ·) := by
  induction signature with
  | nil => cases h : readFunctions ts <;> simp [curly, readFunctions, h]
  | cons t signature ih =>
    rw [List.all_cons, Bool.and_eq_true, Bool.not_eq_true'] at h
    rw [List.cons_append, readFunctions, ih h.2]
    · cases readFunctions ts <;> rfl
    · rintro block rfl
      exact absurd h.1 (by simp [isBlock])

/-- What the functions of a block say. -/
inductive Content where
  | shape (s : Shape)
  /-- Fields with the members that they borrow. -/
  | fields (fs : List (Descriptor × String))
  /-- A length and the members at indices. -/
  | items (length : Nat) (indices : List Nat)
  deriving DecidableEq

/-- A descriptor with a name and, where it has one, a tag. -/
def readDescriptor (ts : List Token) : Option Descriptor :=
  match readCall ts with
  | some (["logtrim", "FieldDescriptor", "new"], [.text name], []) => some ⟨name, none⟩
  | some (["logtrim", "FieldDescriptor", "new"], [.text name],
      [.mark ".", .word "with_tag", .group .round [.text tag]]) => some ⟨name, some tag⟩
  | _ => none

/-- A field: its descriptor, and the member that it borrows. -/
def readField (ts : List Token) : Option (Descriptor × String) :=
  match readCall ts with
  | some (["logtrim", "Field", "new"], ts, []) =>
    match readList ts with
    | some [descriptor, value] =>
      match readMember value with
      | some (.word member) => do return (← readDescriptor descriptor, member)
      | _ => none
    | _ => none
  | _ => none

/-- The fields in a list that is made of them. -/
def readFields (ts : List Token) : Option (List (Descriptor × String)) :=
  match readPath ts with
  | (["std", "vec"], [.mark "!", .group .square fields]) => do (← readList fields).mapM readField
  | _ => none

/-- An item: the index of the member that it borrows. -/
def readItem : List Token → Option Nat
  | .mark "&" :: .word "self" :: .mark "." :: index :: .word "as" :: .mark "&" :: .word "dyn" ::
      ts =>
    match readPath ts with
    | (["logtrim", "Trimmable"], []) => readNumber "" index
    | _ => none
  | _ => none

/-- The items of an iterator, over a list or over nothing. -/
def readItems (ts : List Token) : Option (List Nat) :=
  match readCall ts with
  | some (["std", "boxed", "Box", "new"],
      [.group .square items, .mark ".", .word "into_iter", .group .round []], []) => do
    (← readList items).mapM readItem
  | some (["std", "boxed", "Box", "new"], ts, []) =>
    match readCall ts with
    | some (["std", "iter", "empty"], [], []) => some []
    | _ => none
  | _ => none

/-- The length of a sequence. -/
def readLength : List Token → Option Nat
  | [length] => readNumber "usize" length
  | _ => none

/-- The block of a function that must have a signature, given as text. -/
def blockOf (signature : String) (f : List Token × List Token) : Option (List Token) :=
  if renderAll f.1 = signature then some f.2 else none

/-- The content of a block, which must have the functions of a trait. -/
def readContent (trait : List String) (block : List Token) : Option Content := do
  match trait, ← readFunctions block with
  | ["logtrim", "Trimmable"], [f] =>
    let ts ← blockOf "fn shape (& self) -> :: logtrim :: Shape < '_ >" f
    return .shape (← readShape ts)
  | ["logtrim", "Record"], [f] =>
    let ts ← blockOf
      "fn fields (& self) -> :: std :: vec :: Vec < :: logtrim :: Field < '_ >>" f
    return .fields (← readFields ts)
  | ["logtrim", "Sequence"], [f, g] =>
    let length ← blockOf "fn len (& self) -> usize" f
    let ts ← blockOf ("fn items (& self ,) -> :: std :: boxed :: Box < dyn :: std :: iter :: " ++
      "Iterator < Item = & dyn :: logtrim :: Trimmable > + '_ >") g
    return .items (← readLength length) (← readItems ts)
  | _, _ => none

/-- A function with the right signature. -/
theorem blockOf_eq {signature : String} {ts : List Token} (h : renderAll ts = signature)
    (block : List Token) : blockOf signature (ts, block) = some block := if_pos h

def shapeSignature : List Token :=
  [word "fn", word "shape", refSelf, mark "->"] ++ path ["logtrim", "Shape"] ++
    [mark "<", mark "'_", mark ">"]

theorem renderAll_shapeSignature :
    renderAll shapeSignature = "fn shape (& self) -> :: logtrim :: Shape < '_ >" := by
  simp [shapeSignature, renderAll, render, gap, path, refSelf, round]

/-- The block that shows a value says the shape of its plan. -/
theorem readContent_shapeBody (p : Plan) : readContent ["logtrim", "Trimmable"] (shapeBody p) =
    some (.shape p.presentation.shape) := by
  have hbody : shapeBody p = shapeSignature ++ [curly (shape p.presentation)] := rfl
  rw [readContent, hbody, readFunctions_append rfl]
  simp only [readFunctions, Option.map_some, Option.bind_eq_bind, Option.bind_some]
  rw [blockOf_eq renderAll_shapeSignature, Option.bind_some, readShape_shape]
  rfl

/-! ### Fields and items -/

theorem readMember_borrowed (member : Token) : readMember (borrowed member) = some member := rfl

theorem isWhole_descriptorTokens (d : Descriptor) : isWhole (descriptorTokens d) = true := by
  obtain ⟨name, tag⟩ := d
  cases tag <;> rfl

theorem readDescriptor_descriptorTokens (d : Descriptor) :
    readDescriptor (descriptorTokens d) = some d := by
  obtain ⟨name, tag⟩ := d
  rw [descriptorTokens, List.append_assoc, readDescriptor]
  cases tag with
  | none => rfl
  | some tag => rfl

theorem readField_fieldTokens (f : FieldPlan) :
    readField (fieldTokens f) = some (f.descriptor, f.member) := by
  have hparts :
      readList (separated "," [descriptorTokens f.descriptor, borrowed (.word f.member)]) =
        some [descriptorTokens f.descriptor, borrowed (.word f.member)] := by
    refine readList_separated ?_
    simp only [List.forall_mem_cons]
    exact ⟨⟨isWhole_descriptorTokens _, rfl⟩, ⟨rfl, rfl⟩, nofun⟩
  rw [separated, separated] at hparts
  rw [fieldTokens, readField, readCall_path]
  simp only [hparts, readMember_borrowed, readDescriptor_descriptorTokens]
  rfl

def fieldsSignature : List Token :=
  [word "fn", word "fields", refSelf, mark "->"] ++ path ["std", "vec", "Vec"] ++
    mark "<" :: path ["logtrim", "Field"] ++ [mark "<", mark "'_", mark ">>"]

theorem renderAll_fieldsSignature : renderAll fieldsSignature =
    "fn fields (& self) -> :: std :: vec :: Vec < :: logtrim :: Field < '_ >>" := by
  simp [fieldsSignature, renderAll, render, gap, path, refSelf, round]

/-- The block of a record lists its fields. -/
theorem readContent_fieldsBody (fs : List FieldPlan) :
    readContent ["logtrim", "Record"] (fieldsBody fs) =
      some (.fields (fs.map fun f => (f.descriptor, f.member))) := by
  have hlist : readList (separated "," (fs.map fieldTokens)) = some (fs.map fieldTokens) := by
    refine readList_separated fun ts hts => ?_
    obtain ⟨f, -, rfl⟩ := List.mem_map.mp hts
    exact ⟨rfl, rfl⟩
  have hfields : readFields (path ["std", "vec"] ++
      [.mark "!", square (separated "," (fs.map fieldTokens))]) =
      some (fs.map fun f => (f.descriptor, f.member)) := by
    rw [readFields, readPath_append _ (by simp), square]
    simp only [hlist, Option.bind_eq_bind, Option.bind_some]
    exact mapM_map readField_fieldTokens fs
  have hbody : fieldsBody fs = fieldsSignature ++ [curly (path ["std", "vec"] ++
      [.mark "!", square (separated "," (fs.map fieldTokens))])] := rfl
  rw [readContent, hbody, readFunctions_append rfl]
  simp only [readFunctions, Option.map_some, Option.bind_eq_bind, Option.bind_some]
  rw [blockOf_eq renderAll_fieldsSignature, Option.bind_some, hfields]
  rfl

def itemTokens (i : Nat) : List Token := borrowed (indexToken i) ++ .word "as" :: showable

theorem readItem_itemTokens (i : Nat) : readItem (itemTokens i) = some i := by
  change readNumber "" (indexToken i) = _
  exact readNumber_indexToken i

theorem readItems_itemsIterator (is : List Nat) :
    readItems (path ["std", "boxed", "Box", "new"] ++ [round (itemsIterator is)]) = some is := by
  cases is with
  | nil => rfl
  | cons i is =>
    have hlist : readList (separated "," ((i :: is).map itemTokens)) =
        some ((i :: is).map itemTokens) := by
      refine readList_separated fun ts hts => ?_
      obtain ⟨j, -, rfl⟩ := List.mem_map.mp hts
      exact ⟨rfl, rfl⟩
    have hitems : itemsIterator (i :: is) = [square (separated "," ((i :: is).map itemTokens)),
      .mark ".", .word "into_iter", round []] := rfl
    rw [hitems, readItems, readCall_path, square, round]
    simp only [hlist, Option.bind_eq_bind, Option.bind_some]
    rw [mapM_map readItem_itemTokens, List.map_id']

def lengthSignature : List Token :=
  [word "fn", word "len", refSelf, mark "->", word "usize"]

theorem renderAll_lengthSignature :
    renderAll lengthSignature = "fn len (& self) -> usize" := by
  simp [lengthSignature, renderAll, render, gap, refSelf, round]

def itemsSignature : List Token :=
  [word "fn", word "items", round [mark "&", word "self", mark ","], mark "->"] ++
    path ["std", "boxed", "Box"] ++ [mark "<", word "dyn"] ++ path ["std", "iter", "Iterator"] ++
    [mark "<", word "Item", mark "="] ++ showable ++
    [mark ">", mark "+", mark "'_", mark ">"]

theorem renderAll_itemsSignature : renderAll itemsSignature =
    "fn items (& self ,) -> :: std :: boxed :: Box < dyn :: std :: iter :: " ++
      "Iterator < Item = & dyn :: logtrim :: Trimmable > + '_ >" := by
  simp [itemsSignature, renderAll, render, gap, path, showable, trait, round]

/-- The block of a sequence gives its length and lists its items. -/
theorem readContent_sequenceBody (is : List Nat) :
    readContent ["logtrim", "Sequence"] (sequenceBody is) = some (.items is.length is) := by
  have hbody : sequenceBody is =
      lengthSignature ++ curly [.literal (toString is.length ++ "usize")] :: (itemsSignature ++
        [curly (path ["std", "boxed", "Box", "new"] ++ [round (itemsIterator is)])]) := rfl
  rw [readContent, hbody, readFunctions_append rfl, readFunctions_append rfl]
  simp only [readFunctions, Option.map_some, Option.bind_eq_bind, Option.bind_some]
  rw [blockOf_eq renderAll_lengthSignature, Option.bind_some, blockOf_eq renderAll_itemsSignature,
    Option.bind_some, readItems_itemsIterator, readLength,
    readNumber_toString is.length "usize" rfl]
  rfl

end Code

end Abridge.Derive

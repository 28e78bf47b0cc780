import Abridge.Derive.Plan
import Abridge.Derive.Syntax.Grammar

/-!
Generated code: the implementation by which values of a type show themselves according to its plan,
and a companion implementation that gives the fields of a record or the items of a sequence.
-/
namespace Abridge.Derive

namespace Code

open Token

/-! ### Pieces -/

def round (ts : List Token) : Token := .group .round ts

def square (ts : List Token) : Token := .group .square ts

def curly (ts : List Token) : Token := .group .curly ts

/-- `:: a :: b` -/
def path (names : List String) : List Token := names.flatMap fun n => [.mark "::", .word n]

/-- Lists separated by a mark. -/
def separated (m : String) : List (List Token) → List Token
  | [] => []
  | [ts] => ts
  | ts :: us :: rest => ts ++ .mark m :: separated m (us :: rest)

def refSelf : Token := round [.mark "&", .word "self"]

/-- `& self . member` -/
def borrowed (member : Token) : List Token := [.mark "&", .word "self", .mark ".", member]

def trait (name : String) : List Token := path ["logtrim", name]

/-! ### Generic parameters -/

/-- Bounds joined by plus signs. -/
def boundTokens (bounds : List String) : List Token :=
  separated "+" (bounds.map Syntax.boundTokens)

/-- Bounds behind a colon, if there are any. -/
def withBounds (name : List Token) (bounds : List String) : List Token :=
  if bounds.isEmpty then name else name ++ .mark ":" :: boundTokens bounds

/-- A parameter as it is declared; what it stands for by default is left out. -/
def declaration : Parameter → List Token
  | .lifetime n bs => withBounds [.mark n] bs
  | .type n bs _ => withBounds [.word n] bs
  | .const n t _ => [.word "const", .word n, .mark ":"] ++ Syntax.typeTokens t

/-- A parameter as an argument. -/
def argument : Parameter → List Token
  | .lifetime n _ => [.mark n]
  | .type n _ _ => [.word n]
  | .const n _ _ => [.word n]

def isLifetime : Parameter → Bool
  | .lifetime _ _ => true
  | _ => false

/-- Each parameter as `f` gives it, with the comma that follows it in the definition. -/
def listed (f : Parameter → List Token) : List Parameter → List Listed
  | [] => []
  | [p] => [⟨isLifetime p, f p, false⟩]
  | p :: q :: rest => ⟨isLifetime p, f p, true⟩ :: listed f (q :: rest)

/-- Parameters in angle brackets, lifetimes first. -/
def angled (f : Parameter → List Token) (ps : List Parameter) : List Token :=
  if ps.isEmpty then [] else .mark "<" :: lifetimesFirst (listed f ps) ++ [.mark ">"]

/-! ### Conditions -/

def predicateTokens (p : Predicate) : List Token :=
  Syntax.subjectTokens p.type ++ .mark ":" :: boundTokens p.bounds

/-- What the generated code needs besides the conditions of the definition: every type parameter of
a type that is looked into must be showable, and a generic type shown as one text must have that
text. -/
def requirements (p : Plan) : List (List Token) :=
  if p.presentation.traversesFields then
    p.generics.typeNames.map fun n => [.word n, .mark ":"] ++ trait "Trimmable"
  else if p.generics.parameters.isEmpty then []
  else
    match p.presentation with
    | .display => [[.word "Self", .mark ":"] ++ path ["std", "fmt", "Display"]]
    | .error => [[.word "Self", .mark ":"] ++ path ["std", "error", "Error"]]
    | _ => []

def whereClause (p : Plan) : List Token :=
  let conditions := p.generics.predicates.map predicateTokens ++ requirements p
  if conditions.isEmpty then [] else .word "where" :: separated "," conditions

/-- The implementation of a trait for the type, with its parameters and conditions. -/
def implementation (p : Plan) (traitName : List Token) (body : List Token) : List Token :=
  .word "impl" :: angled declaration p.generics.parameters ++ traitName ++
    [.word "for", .word p.identifier] ++ angled argument p.generics.parameters ++ whereClause p ++
    [curly body]

/-! ### Shapes -/

def shapeOf (name : String) (content : List Token) : List Token :=
  path ["logtrim", "Shape", name] ++ [round content]

def cow (variant : String) (content : List Token) : List Token :=
  path ["std", "borrow", "Cow", variant] ++ [round content]

/-- One arm for each variant, with its name. -/
def arms (vs : List VariantPlan) : List Token :=
  vs.flatMap fun v =>
    [.word "Self", .mark "::", .word v.identifier, .mark "=>", .text v.name, .mark ","]

def indexToken (i : Nat) : Token := .literal (toString i)

/-- The expression for the shape of a value. -/
def shape : Presentation → List Token
  | .record _ => shapeOf "Record" [.word "self"]
  | .unitRecord => shapeOf "Record" [.word "self"]
  | .transparent i => path ["logtrim", "Trimmable", "shape"] ++ [round (borrowed (indexToken i))]
  | .sequence _ => shapeOf "Seq" [.word "self"]
  | .unitEnum vs =>
    shapeOf "Scalar" (path ["logtrim", "Scalar", "Str"] ++
      [round (cow "Borrowed" [.word "match", .mark "*", .word "self", curly (arms vs)])])
  | .display =>
    let content := cow "Owned" (path ["std", "string", "ToString", "to_string"] ++
      [round [.word "self"]])
    shapeOf "Special" (path ["logtrim", "Special", "Text"] ++ [round (content ++ [.mark ","])])
  | .error => shapeOf "Special" (path ["logtrim", "Special", "Error"] ++ [round [.word "self"]])

/-! ### Companions -/

def descriptorTokens (d : Descriptor) : List Token :=
  path ["logtrim", "FieldDescriptor", "new"] ++ [round [.text d.name]] ++
    match d.tag with
    | some t => [.mark ".", .word "with_tag", round [.text t]]
    | none => []

def fieldTokens (f : FieldPlan) : List Token :=
  path ["logtrim", "Field", "new"] ++
    [round (descriptorTokens f.descriptor ++ .mark "," :: borrowed (.word f.member))]

/-- The list of the fields of a record. -/
def fieldsBody (fs : List FieldPlan) : List Token :=
  [.word "fn", .word "fields", refSelf, .mark "->"] ++ path ["std", "vec", "Vec"] ++
    .mark "<" :: path ["logtrim", "Field"] ++ [.mark "<", .mark "'_", .mark ">>"] ++
    [curly (path ["std", "vec"] ++ [.mark "!", square (separated "," (fs.map fieldTokens))])]

def showable : List Token := [.mark "&", .word "dyn"] ++ trait "Trimmable"

/-- An iterator over the items of a sequence. -/
def itemsIterator (is : List Nat) : List Token :=
  if is.isEmpty then path ["std", "iter", "empty"] ++ [round []]
  else
    [square (separated "," (is.map fun i => borrowed (indexToken i) ++ .word "as" :: showable)),
      .mark ".", .word "into_iter", round []]

/-- Length and items of a sequence. -/
def sequenceBody (is : List Nat) : List Token :=
  [.word "fn", .word "len", refSelf, .mark "->", .word "usize",
    curly [.literal (toString is.length ++ "usize")]] ++
  [.word "fn", .word "items", round [.mark "&", .word "self", .mark ","], .mark "->"] ++
    path ["std", "boxed", "Box"] ++ [.mark "<", .word "dyn"] ++ path ["std", "iter", "Iterator"] ++
    [.mark "<", .word "Item", .mark "="] ++ showable ++
    [.mark ">", .mark "+", .mark "'_", .mark ">"] ++
    [curly (path ["std", "boxed", "Box", "new"] ++ [round (itemsIterator is)])]

/-- The implementation beside the first one, for records and sequences. -/
def companion (p : Plan) : List Token :=
  match p.presentation with
  | .record fs => implementation p (trait "Record") (fieldsBody fs)
  | .unitRecord => implementation p (trait "Record") (fieldsBody [])
  | .sequence is => implementation p (trait "Sequence") (sequenceBody is)
  | _ => []

def shapeBody (p : Plan) : List Token :=
  [.word "fn", .word "shape", refSelf, .mark "->"] ++ path ["logtrim", "Shape"] ++
    [.mark "<", .mark "'_", .mark ">", curly (shape p.presentation)]

end Code

/-- The code that a plan stands for. -/
def Plan.code (p : Plan) : List Token :=
  Code.implementation p (Code.trait "Trimmable") (Code.shapeBody p) ++ Code.companion p

/-- The code for a definition, or the diagnostic that it has none. -/
def derive (useSerializer : Bool) (d : Definition) : Except Diagnostic (List Token) :=
  match Plan.ofDefinition useSerializer d with
  | .ok p => .ok p.code
  | .error f => .error (Diagnostic.ofFault f)

end Abridge.Derive

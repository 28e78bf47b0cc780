import Abridge.Derive.Entry

/-!
How attributes of a serializer are read: item by item, up to the first that cannot be taken, which
ends the attribute without a word. What was read before it stays.
-/
namespace Abridge.Derive

/-- The keys that mean something at one kind of place: one that gives a name, and flags. -/
structure SerializerKeys (σ : Type) where
  nameKey : String
  setName : String → σ → σ
  /-- What a key changes that is a flag. -/
  flag? : String → Option (σ → σ)

/-! ### Entries -/

mutual

/-- Can the entry of a key without meaning be passed over? A list must not be empty, and all its
entries must have keys. -/
def Entry.skippable : Entry → Bool
  | .lone => false
  | .word _ => true
  | .value _ _ => true
  | .list _ es => !es.isEmpty && allSkippable es
  | .brokenList _ _ => false

def allSkippable : List Entry → Bool
  | [] => true
  | e :: es => e.skippable && allSkippable es

end

/-- The name for writing that a list of names gives, on top of `name`; nothing if an entry cannot be
taken. -/
def writtenNameFrom (name : Option String) : List Entry → Option (Option String)
  | [] => some name
  | e :: es =>
    if e.key? = some "serialize" then
      match e with
      | .value _ (.literal (.text s)) => writtenNameFrom (some s) es
      | _ => none
    else if e.skippable then writtenNameFrom name es
    else none

/-- The name for writing: given alone, or as one of several names in a list. The outer level is
missing if the entry cannot be taken, the inner one if it gives no such name. -/
def Entry.writtenName : Entry → Option (Option String)
  | .value _ (.literal (.text s)) => some (some s)
  | .list _ (e :: es) => writtenNameFrom none (e :: es)
  | _ => none

/-- What an entry leaves: the new state, and whether reading goes on. -/
structure Step (σ : Type) where
  state : σ
  goesOn : Bool

namespace SerializerKeys

variable {σ : Type} (k : SerializerKeys σ)

/-- An entry that gives a name. -/
def takeName (s : σ) (e : Entry) : Step σ :=
  match e.writtenName with
  | none => ⟨s, false⟩
  | some none => ⟨s, true⟩
  | some (some n) => ⟨k.setName n s, true⟩

/-- One entry. A flag is set even if what follows it ends the reading. -/
def step (s : σ) (e : Entry) : Step σ :=
  if e.key? = some k.nameKey then k.takeName s e
  else
    match e.key?.bind k.flag? with
    | some set => ⟨set s, e.isWord⟩
    | none => ⟨s, e.skippable⟩

/-- Entries up to the first that cannot be taken. -/
def readEntries (s : σ) : List Entry → σ
  | [] => s
  | e :: es =>
    let t := k.step s e
    if t.goesOn then readEntries t.state es else t.state

/-! ### Source text

Here a key decides how much is read of what follows it.
-/

section Source

open Syntax

variable (g : Productions)

/-- Items, each read by `p` from behind its key, on top of `a`. -/
def itemwise {α : Type} (p : α → String → Parse α) (a : α) : Parse α :=
  repeating
    (fun a => do
      let a ← p a (← key)
      if ← atEnd then return (a, false)
      mark ","
      return (a, !(← atEnd)))
    a

/-- Passes over what follows a key without meaning, with at most `n` levels of lists. -/
def passOver : Nat → Parse Unit
  | 0 => throw (.other "too many levels")
  | n + 1 => do
    let ls ← rest
    if sees "=" ls then
      mark "="
      anyExpression g
    else if seesGroup .round ls then within .round (itemwise (fun _ _ => passOver n) ())

def pass : Parse Unit := do passOver g (Lexeme.sizeAll (← rest) + 1)

/-- A text behind an equals sign; what follows it is left. -/
def assignedText : Parse String := do
  mark "="
  match ← rest with
  | .literal s :: _ =>
    match Literal.ofSource s with
    | .text t =>
      skip 1
      return t
    | _ => missing "string literal"
  | _ => missing "string literal"

/-- The name for writing, from behind the key. -/
def writtenName : Parse (Option String) := do
  if sees "=" (← rest) then return some (← assignedText)
  else
    within .round
      (itemwise
        (fun name key => do
          if key = "serialize" then return some (← assignedText)
          else
            pass g
            return name)
        none)

def item (s : σ) : Parse σ := do
  let key ← key
  if key = k.nameKey then
    match ← writtenName g with
    | some n => return k.setName n s
    | none => return s
  else
    match k.flag? key with
    | some set => return set s
    | none =>
      pass g
      return s

/-- At most `n` items. -/
def readFrom : Nat → σ → Reading → σ
  | 0, s, _ => s
  | n + 1, s, r =>
    match (k.item g s).run r with
    | .error _ => s
    | .ok (t, r) =>
      match (mark ",").run r with
      | .error _ => t
      | .ok (_, r) => readFrom n t r

end Source

/-! ### Whole attributes -/

/-- The items of one attribute, on top of what is known. -/
def readItems (s : σ) (items : List Item) : σ :=
  match plainEntries? items with
  | some es => k.readEntries s es
  | none =>
    let ls := itemLexemes items
    k.readFrom (Syntax.grammarFor ls) (Lexeme.sizeAll ls) s ⟨ls, [], none⟩

/-- The path of the attributes that are read here. -/
def path : String := "serde"

/-- The items of each such attribute. -/
def lists (attributes : List Attribute) : List (List Item) :=
  attributes.filterMap fun a =>
    match a.arguments with
    | .items is => if a.path = path then some is else none
    | _ => none

/-- All attributes, one after the other. -/
def read (s : σ) (attributes : List Attribute) : σ := (lists attributes).foldl k.readItems s

end SerializerKeys

end Abridge.Derive

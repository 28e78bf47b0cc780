import Abridge.Text.CaseTable
import Abridge.Text.Character

/-!
Upper and lower case of whole texts, in every script. A letter may have a form of several
characters, and a capital sigma has two lower-case forms: the one for the end of a word and the one
for all other places.
-/
namespace Abridge.Text

/-- Where `n` moves to, if one of the runs has it. -/
def shiftBy? (n : Nat) : List CaseRange → Option Nat
  | [] => none
  | r :: rest =>
    if r.first ≤ n ∧ n ≤ r.last ∧ (n - r.first) % r.step = 0 then some ((n : Int) + r.delta).toNat
    else shiftBy? n rest

/-- The other case of a character: a sequence of its own, a single character, or itself. -/
def otherCase (specials : List (Nat × List Nat)) (runs : List CaseRange) (c : Char) : List Char :=
  match specials.lookup c.toNat with
  | some ns => ns.map Char.ofNat
  | none =>
    match shiftBy? c.toNat runs with
    | some n => [Char.ofNat n]
    | none => [c]

def upperChar (c : Char) : List Char :=
  if c.toNat < 128 then [c.toUpper] else otherCase upperSpecials upperRanges c

/-- The lower-case form of a character that stands alone. -/
def lowerChar (c : Char) : List Char :=
  if c.toNat < 128 then [c.toLower] else otherCase lowerSpecials lowerRanges c

def isCased (c : Char) : Bool := inRanges c.toNat casedRanges

def isCaseIgnorable (c : Char) : Bool := inRanges c.toNat caseIgnorableRanges

/-- Past characters that do not count, is there a letter? -/
def meetsLetter (cs : List Char) : Bool := (cs.dropWhile isCaseIgnorable).head?.any isCased

/-- Lower case of `rest`, where `before` holds the characters already passed, the last one first. A
capital sigma after a letter and not before one is the last of its word. -/
def lowerFrom (before : List Char) : List Char → List Char
  | [] => []
  | c :: rest =>
    (if c = 'Σ' then (if meetsLetter before && !meetsLetter rest then ['ς'] else ['σ'])
      else lowerChar c) ++ lowerFrom (c :: before) rest

def lower (cs : List Char) : List Char := lowerFrom [] cs

def upper (cs : List Char) : List Char := cs.flatMap upperChar

/-- First character in upper case, all others in lower case. -/
def capital : List Char → List Char
  | [] => []
  | c :: rest => upperChar c ++ lower rest

end Abridge.Text

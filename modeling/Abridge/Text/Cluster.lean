import Abridge.Text.ClusterTable
import Abridge.Text.Character

/-!
Characters as a reader sees them: a letter and the marks that belong to it form one cluster. So do
the parts of a written syllable, consonants that a mark links, pictures that a joiner connects, and
the two halves of a flag.
-/
namespace Abridge.Text

def isControl (c : Char) : Bool := inRanges c.toNat controlRanges

def isJoiner (c : Char) : Bool := c.toNat = 0x200d

/-- Marks and skin tones, which change the character before them. -/
def altersLast (c : Char) : Bool := isExtender c || inRanges c.toNat [(0x1f3fb, 0x1f3ff)]

/-- Marks, joiners and skin tones stay with the character before them. -/
def attaches (c : Char) : Bool := altersLast c || isJoiner c || inRanges c.toNat spacingRanges

def isPictograph (c : Char) : Bool := inRanges c.toNat pictographRanges

/-- Half of a flag. -/
def isFlagHalf (c : Char) : Bool := inRanges c.toNat [(0x1f1e6, 0x1f1ff)]

def isConsonant (c : Char) : Bool := inRanges c.toNat consonantRanges

def isLinker (c : Char) : Bool := inRanges c.toNat linkerRanges

/-! ### Parts of a syllable -/

/-- What a character of a syllable script holds: an initial, a vowel, a final, or the first two or
all three of them. -/
inductive SyllablePart where
  | initial | vowel | final | open | closed
  deriving DecidableEq

def syllablePart? (c : Char) : Option SyllablePart :=
  let n := c.toNat
  if inRanges n [(0x1100, 0x115f), (0xa960, 0xa97c)] then some .initial
  else if inRanges n [(0x1160, 0x11a7), (0xd7b0, 0xd7c6), (0x16d63, 0x16d63), (0x16d67, 0x16d6a)]
    then some .vowel
  else if inRanges n [(0x11a8, 0x11ff), (0xd7cb, 0xd7fb)] then some .final
  else if 0xac00 ≤ n ∧ n ≤ 0xd7a3 then
    if (n - 0xac00) % 28 = 0 then some .open else some .closed
  else none

def SyllablePart.precedes : SyllablePart → SyllablePart → Bool
  | .initial, .final => false
  | .initial, _ => true
  | .vowel, .vowel => true
  | .vowel, .final => true
  | .open, .vowel => true
  | .open, .final => true
  | .closed, .final => true
  | .final, .final => true
  | _, _ => false

def sameSyllable (a b : Char) : Bool :=
  match syllablePart? a, syllablePart? b with
  | some p, some q => p.precedes q
  | _, _ => false

/-! ### Clusters -/

/-- What the end of a cluster looks like. -/
structure Tail where
  last : Char
  /-- A picture, with marks behind it. -/
  pictured : Bool
  /-- A picture with marks and a joiner behind it. -/
  joining : Bool
  /-- The first half of a flag. -/
  halfFlag : Bool
  /-- A consonant with marks behind it; is a linker among them? -/
  conjunct : Option Bool

/-- The end of a cluster of one character. -/
def Tail.start (c : Char) : Tail where
  last := c
  pictured := isPictograph c
  joining := false
  halfFlag := isFlagHalf c
  conjunct := if isConsonant c then some false else none

/-- The end of a cluster that `c` continues. -/
def Tail.next (t : Tail) (c : Char) : Tail where
  last := c
  pictured := isPictograph c || (t.pictured && altersLast c)
  joining := t.pictured && isJoiner c
  halfFlag := isFlagHalf c && !t.halfFlag
  conjunct :=
    if isConsonant c then some false
    else if isLinker c then t.conjunct.map fun _ => true
    else if isJoiner c || (altersLast c && c.toNat ≠ 0x200c) then t.conjunct
    else none

/-- Does `c` belong to the cluster with this end? -/
def Tail.continues (t : Tail) (c : Char) : Bool :=
  if t.last = '\r' ∧ c = '\n' then true
  else if isControl t.last || isControl c then false
  else
    attaches c || inRanges t.last.toNat leadingRanges || sameSyllable t.last c ||
      (t.conjunct = some true && isConsonant c) || (t.joining && isPictograph c) ||
      (t.halfFlag && isFlagHalf c)

/-- The clusters of a text, the first of which begins with `g` in reverse and ends with `t`. -/
def clustersFrom (t : Tail) (g : List Char) : List Char → List (List Char)
  | [] => [g.reverse]
  | c :: rest =>
    if t.continues c then clustersFrom (t.next c) (c :: g) rest
    else g.reverse :: clustersFrom (.start c) [c] rest

/-- The clusters of a text, in order. -/
def clusters : List Char → List (List Char)
  | [] => []
  | c :: rest => clustersFrom (.start c) [c] rest

end Abridge.Text

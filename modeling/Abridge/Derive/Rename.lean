import Abridge.Text.Case
import Abridge.Text.Cluster

/-!
Rules for renaming. Two rules change the case of the whole name; the others divide it into words,
change the case of each and join them again.
-/
namespace Abridge.Derive

inductive RenameRule where
  | lowercase | uppercase | camel | snake | pascal | screamingSnake | kebab
  deriving DecidableEq

namespace RenameRule

/-- Every rule is named in its own convention. -/
def spelling : RenameRule → String
  | .lowercase => "lowercase"
  | .uppercase => "UPPERCASE"
  | .camel => "camelCase"
  | .snake => "snake_case"
  | .pascal => "PascalCase"
  | .screamingSnake => "SCREAMING_SNAKE_CASE"
  | .kebab => "kebab-case"

def all : List RenameRule :=
  [.lowercase, .uppercase, .camel, .snake, .pascal, .screamingSnake, .kebab]

def ofSpelling? (s : String) : Option RenameRule := all.find? (·.spelling = s)

/-! ### Words -/

/-- A cluster of characters as the reader sees it. -/
abbrev Cluster := List Char

/-- Between words, and part of none. -/
def isSeparator (g : Cluster) : Bool := g = ['_'] || g = ['-'] || g = [' ']

def isDigits (g : Cluster) : Bool := g.all Char.isDigit

def hasCase (g : Cluster) : Bool := Text.upper g ≠ Text.lower g

def isUpper (g : Cluster) : Bool := hasCase g && g == Text.upper g

def isLower (g : Cluster) : Bool := hasCase g && g == Text.lower g

/-- Does a word end between `g` and `h`, where `after` follows `h`? It does where a capital follows
a small letter, between letters and digits, and before the last capital of several if a small letter
follows it. -/
def wordEnds (g h : Cluster) (after : List Cluster) : Bool :=
  (isLower g && isUpper h) ||
    (isUpper g && isUpper h && after.head?.any isLower) ||
    ((isLower g || isUpper g) && isDigits h) ||
    (isDigits g && (isLower h || isUpper h))

/-- The words of the clusters, where `word` is the part of the first one already passed. Words
between two separators may be empty. -/
def wordsFrom (word : List Char) : List Cluster → List (List Char)
  | [] => [word]
  | g :: rest =>
    if isSeparator g then word :: wordsFrom [] rest
    else
      match rest with
      | [] => [word ++ g]
      | h :: after =>
        if wordEnds g h after then (word ++ g) :: wordsFrom [] (h :: after)
        else wordsFrom (word ++ g) (h :: after)

/-- The words of a name; the empty name has none. -/
def words (cs : List Char) : List (List Char) :=
  if cs = [] then [] else wordsFrom [] (Text.clusters cs)

/-! ### Applying a rule -/

/-- First word small, all others capitalized. -/
def camelWords : List (List Char) → List (List Char)
  | [] => []
  | w :: ws => Text.lower w :: ws.map Text.capital

def applyChars (r : RenameRule) (cs : List Char) : List Char :=
  match r with
  | .lowercase => Text.lower cs
  | .uppercase => Text.upper cs
  | .camel => (camelWords (words cs)).flatten
  | .pascal => ((words cs).map Text.capital).flatten
  | .snake => ['_'].intercalate ((words cs).map Text.lower)
  | .screamingSnake => ['_'].intercalate ((words cs).map Text.upper)
  | .kebab => ['-'].intercalate ((words cs).map Text.lower)

/-- The name under a rule. -/
def apply (r : RenameRule) (name : String) : String := String.ofList (r.applyChars name.toList)

/-- The name under a rule, if there is one. -/
def applyOption (r : Option RenameRule) (name : String) : String :=
  match r with
  | some r => r.apply name
  | none => name

end RenameRule

end Abridge.Derive

import Abridge.Text.Character

/-!
Texts between quotation marks. Three ways of writing them are in use: in a JSON text, in a
description of a value, and as a literal of generated code.
-/
namespace Abridge.Text

/-- Hexadecimal digits in lower case, at least `width` of them. -/
def hex (width n : Nat) : List Char :=
  let ds := Nat.toDigits 16 n
  List.replicate (width - ds.length) '0' ++ ds

/-- A character of a JSON string: quotation mark, backslash and controls are escaped, and nothing
else is. -/
def jsonEscape (c : Char) : List Char :=
  if c = '"' then ['\\', '"']
  else if c = '\\' then ['\\', '\\']
  else if c = '\x08' then ['\\', 'b']
  else if c = '\x0c' then ['\\', 'f']
  else if c = '\n' then ['\\', 'n']
  else if c = '\r' then ['\\', 'r']
  else if c = '\t' then ['\\', 't']
  else if c.toNat < 32 then '\\' :: 'u' :: hex 4 c.toNat
  else [c]

def jsonQuoted (cs : List Char) : List Char := '"' :: (cs.flatMap jsonEscape ++ ['"'])

/-- A character by its number, for those that cannot be shown. -/
def numbered (c : Char) : List Char := ['\\', 'u', '\x7b'] ++ hex 1 c.toNat ++ ['\x7d']

/-- A character of a description: what cannot be shown on its own is given by its number. -/
def inspectEscape (c : Char) : List Char :=
  if c = '\x00' then ['\\', '0']
  else if c = '\t' then ['\\', 't']
  else if c = '\r' then ['\\', 'r']
  else if c = '\n' then ['\\', 'n']
  else if c = '\\' then ['\\', '\\']
  else if c = '"' then ['\\', '"']
  else if !standsAlone c then numbered c
  else [c]

def inspectQuoted (s : String) : String :=
  String.ofList ('"' :: (s.toList.flatMap inspectEscape ++ ['"']))

/-- The characters of a literal of generated code: as in a description, but a NUL before an octal
digit is written so that the digit is not read as part of it. -/
def literalBody : List Char → List Char
  | [] => []
  | c :: rest =>
    (if c = '\x00' ∧ (rest.head?.any fun d => decide ('0' ≤ d ∧ d ≤ '7')) then ['\\', 'x', '0', '0']
      else inspectEscape c) ++ literalBody rest

def literalQuoted (s : String) : String := String.ofList ('"' :: (literalBody s.toList ++ ['"']))

end Abridge.Text

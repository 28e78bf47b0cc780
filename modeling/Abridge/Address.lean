/-!
Network addresses: reading any accepted spelling, and writing the one canonical text. Of an address
of eight groups the longest run of zero groups is left out, the first one if several are equally
long, and never a single group; an address that embeds a four-byte one shows it in its own form.
-/
namespace Abridge

/-- An address of four bytes or of eight groups of sixteen bits. -/
inductive Ip where
  | v4 (bytes : List Nat)
  | v6 (groups : List Nat)
  deriving DecidableEq

namespace Ip

/-- The value of digits to the base, if all are digits and there is at least one. -/
def digits? (base : Nat) (cs : List Char) : Option Nat :=
  let value? (c : Char) : Option Nat :=
    if c.isDigit then some (c.toNat - 48)
    else if base = 16 ∧ 'a' ≤ c ∧ c ≤ 'f' then some (c.toNat - 87)
    else if base = 16 ∧ 'A' ≤ c ∧ c ≤ 'F' then some (c.toNat - 55)
    else none
  if cs = [] then none else cs.foldlM (fun n c => (value? c).map (n * base + ·)) 0

/-- The parts between separators. -/
def splitOn (sep : Char) : List Char → List (List Char)
  | [] => [[]]
  | c :: rest =>
    match splitOn sep rest with
    | [] => [[c]]
    | p :: ps => if c = sep then [] :: p :: ps else (c :: p) :: ps

/-- Four decimal bytes, none with a needless zero in front. -/
def bytes? (cs : List Char) : Option (List Nat) :=
  let byte? (p : List Char) : Option Nat :=
    match digits? 10 p with
    | some n => if n < 256 ∧ (p.length = 1 ∨ p.head? ≠ some '0') then some n else none
    | none => none
  let ps := splitOn '.' cs
  if ps.length = 4 then ps.mapM byte? else none

/-- Groups separated by colons; the last two may be written as four bytes. -/
def groups? (cs : List Char) : Option (List Nat) :=
  if cs = [] then some []
  else
    let ps := splitOn ':' cs
    let group? (p : List Char) : Option Nat := if p.length ≤ 4 then digits? 16 p else none
    match ps.getLast?.bind bytes? with
    | some [a, b, c, d] =>
      (ps.dropLast.mapM group?).map (· ++ [a * 256 + b, c * 256 + d])
    | _ => ps.mapM group?

/-- The text around the first double colon. -/
def splitDouble : List Char → Option (List Char × List Char)
  | ':' :: ':' :: rest => some ([], rest)
  | c :: rest => (splitDouble rest).map fun (a, b) => (c :: a, b)
  | [] => none

/-- Eight groups, of which a double colon leaves out some that are zero. -/
def eight? (cs : List Char) : Option (List Nat) :=
  match splitDouble cs with
  | none => (groups? cs).filter (·.length = 8)
  | some (a, b) =>
    match groups? a, groups? b with
    | some xs, some ys =>
      if xs.length + ys.length < 8 then
        some (xs ++ List.replicate (8 - xs.length - ys.length) 0 ++ ys)
      else none
    | _, _ => none

def read? (s : String) : Option Ip :=
  match bytes? s.toList with
  | some bs => some (.v4 bs)
  | none => (eight? s.toList).map .v6

/-! ### The canonical text -/

def bytesText (bs : List Nat) : String := String.intercalate "." (bs.map toString)

def groupsText (gs : List Nat) : String :=
  String.intercalate ":" (gs.map fun g => String.ofList (Nat.toDigits 16 g))

/-- The number of zero groups in front. -/
def zeroRun (gs : List Nat) : Nat := (gs.takeWhile (· = 0)).length

/-- Start and length of the longest run of zero groups, the first of several. -/
def longestZeros (gs : List Nat) : Nat × Nat :=
  (List.range gs.length).foldl
    (fun best i => let n := zeroRun (gs.drop i); if best.2 < n then (i, n) else best) (0, 0)

def v6Text (gs : List Nat) : String :=
  match gs with
  | [0, 0, 0, 0, 0, 0xffff, a, b] => "::ffff:" ++ bytesText [a / 256, a % 256, b / 256, b % 256]
  | _ =>
    let (start, n) := longestZeros gs
    if n < 2 then groupsText gs
    else groupsText (gs.take start) ++ "::" ++ groupsText (gs.drop (start + n))

def text : Ip → String
  | .v4 bs => bytesText bs
  | .v6 gs => v6Text gs

end Ip

/-- An address and a number on it; an address of eight groups may name its zone. -/
structure Socket where
  ip : Ip
  zone : Nat
  portNumber : Nat

namespace Socket

/-- Splits at the last `sep`. -/
def splitLast (sep : Char) (cs : List Char) : Option (List Char × List Char) :=
  let back := cs.reverse.takeWhile (· ≠ sep)
  if back.length = cs.length then none
  else some (cs.take (cs.length - back.length - 1), back.reverse)

/-- Address and number with a colon between them, and brackets around an address of eight groups. -/
def read? (s : String) : Option Socket := do
  let (host, ds) ← splitLast ':' s.toList
  let n ← Ip.digits? 10 ds
  match host with
  | '[' :: inner =>
    let inner := inner.dropLast
    match splitLast '%' inner with
    | some (a, z) => return ⟨.v6 (← Ip.eight? a), ← Ip.digits? 10 z, n⟩
    | none => return ⟨.v6 (← Ip.eight? inner), 0, n⟩
  | _ => return ⟨.v4 (← Ip.bytes? host), 0, n⟩

def text (a : Socket) : String :=
  match a.ip with
  | .v4 bs => Ip.bytesText bs ++ ":" ++ toString a.portNumber
  | .v6 gs =>
    "[" ++ Ip.v6Text gs ++ (if a.zone = 0 then "" else "%" ++ toString a.zone) ++ "]:" ++
      toString a.portNumber

end Socket

/-! ### Unique identifiers -/

/-- An identifier of 32 hexadecimal digits, as its digits. -/
structure Uuid where
  digits : List Char
  length_digits : digits.length = 32

namespace Uuid

/-- The digits in lower case, whatever stands around and between them. -/
def read? (s : String) : Option Uuid :=
  let body := if s.startsWith "urn:uuid:" then s.toList.drop 9 else s.toList
  let ds := (body.filter fun c => c ≠ '-' ∧ c ≠ '\x7b' ∧ c ≠ '\x7d').map Char.toLower
  if h : ds.length = 32 then some ⟨ds, h⟩ else none

/-- Groups of 8, 4, 4, 4 and 12 digits. -/
def text (u : Uuid) : String :=
  let part (i n : Nat) := String.ofList ((u.digits.drop i).take n)
  String.intercalate "-" [part 0 8, part 8 4, part 12 4, part 16 4, part 20 12]

end Uuid

end Abridge

/-!
Reading bytes as text. The first character of a byte sequence is well formed, broken, or cut short
by the end of the bytes; a broken one covers as many bytes as could have begun a character.
-/
namespace Abridge.Text

/-- What the bytes at hand begin with. -/
inductive Utf8Head where
  | done
  | char (c : Char) (rest : List UInt8)
  /-- `width` bytes that begin no character. -/
  | broken (width : Nat) (rest : List UInt8)
  /-- The bytes end inside a character. -/
  | cutShort

/-- Bytes that may follow inside a character. -/
def isTail (b : UInt8) : Bool := 0x80 ≤ b && b ≤ 0xbf

/-- The bytes that may come second after the leading byte of a longer character. -/
def isSecond (lead b : UInt8) : Bool :=
  if lead = 0xe0 then 0xa0 ≤ b && b ≤ 0xbf
  else if lead = 0xed then 0x80 ≤ b && b ≤ 0x9f
  else if lead = 0xf0 then 0x90 ≤ b && b ≤ 0xbf
  else if lead = 0xf4 then 0x80 ≤ b && b ≤ 0x8f
  else isTail b

def low6 (b : UInt8) : Nat := (b &&& 0x3f).toNat

def utf8Head : List UInt8 → Utf8Head
  | [] => .done
  | a :: rest =>
    if a < 0x80 then .char (Char.ofNat a.toNat) rest
    else if 0xc2 ≤ a && a ≤ 0xdf then
      match rest with
      | [] => .cutShort
      | b :: r =>
        if isTail b then .char (Char.ofNat ((a &&& 0x1f).toNat * 64 + low6 b)) r else .broken 1 rest
    else if 0xe0 ≤ a && a ≤ 0xef then
      match rest with
      | [] => .cutShort
      | b :: r =>
        if !isSecond a b then .broken 1 rest
        else
          match r with
          | [] => .cutShort
          | c :: r' =>
            if isTail c then
              .char (Char.ofNat (((a &&& 0xf).toNat * 64 + low6 b) * 64 + low6 c)) r'
            else .broken 2 r
    else if 0xf0 ≤ a && a ≤ 0xf4 then
      match rest with
      | [] => .cutShort
      | b :: r =>
        if !isSecond a b then .broken 1 rest
        else
          match r with
          | [] => .cutShort
          | c :: r' =>
            if !isTail c then .broken 2 r
            else
              match r' with
              | [] => .cutShort
              | d :: r'' =>
                if isTail d then
                  let top := (a &&& 0x7).toNat
                  .char (Char.ofNat (((top * 64 + low6 b) * 64 + low6 c) * 64 + low6 d)) r''
                else .broken 3 r'
    else .broken 1 rest

/-- What stands for bytes that are no text. -/
def replacement : Char := '\ufffd'

/-- The text of at most `fuel` heads. -/
def lossyFrom : Nat → List UInt8 → List Char
  | 0, _ => []
  | n + 1, bytes =>
    match utf8Head bytes with
    | .done => []
    | .char c rest => c :: lossyFrom n rest
    | .broken _ rest => replacement :: lossyFrom n rest
    | .cutShort => [replacement]

/-- The text of the bytes, with the replacement character for each broken part. -/
def lossy (bytes : List UInt8) : String := String.ofList (lossyFrom bytes.length bytes)

/-- Why bytes are no text: after `index` good bytes comes a broken part of `width` bytes, or,
without a width, the end inside a character. -/
structure Utf8Fault where
  index : Nat
  width : Option Nat
  deriving DecidableEq

def utf8FaultFrom (total : Nat) : Nat → List UInt8 → Option Utf8Fault
  | 0, _ => none
  | n + 1, bytes =>
    match utf8Head bytes with
    | .done => none
    | .char _ rest => utf8FaultFrom total n rest
    | .broken w _ => some ⟨total - bytes.length, some w⟩
    | .cutShort => some ⟨total - bytes.length, none⟩

/-- The first fault, if the bytes are no text. -/
def utf8Fault? (bytes : List UInt8) : Option Utf8Fault :=
  utf8FaultFrom bytes.length bytes.length bytes

def Utf8Fault.message (f : Utf8Fault) : String :=
  match f.width with
  | some w => s!"invalid utf-8 sequence of {w} bytes from index {f.index}"
  | none => s!"incomplete utf-8 byte sequence from index {f.index}"

end Abridge.Text

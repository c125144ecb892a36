import Scriptlet.Text.Quoted

/-! Text stored as bytes, one to four for a character. What cannot be read is reported with
the bytes at fault: a byte that starts no character, a character broken off by a byte that
does not continue it, or one broken off by the end. -/

namespace Scriptlet.Text

/-- Why bytes are no text. -/
inductive EncodingFault.Reason where
  | badStart
  | badContinuation
  | cutOff
deriving DecidableEq, Repr

/-- The bytes at fault: where they start, the first of them, how many they are, and why. -/
structure EncodingFault where
  start : Nat
  first : UInt8
  count : Nat
  reason : EncodingFault.Reason
deriving DecidableEq, Repr

namespace EncodingFault

def Reason.text : Reason → String
  | .badStart => "invalid start byte"
  | .badContinuation => "invalid continuation byte"
  | .cutOff => "unexpected end of data"

/-- One byte is shown by its value, several by their range. -/
def message (e : EncodingFault) : String :=
  if e.count = 1 then
    "'utf-8' codec can't decode byte 0x" ++ String.ofList (hex 2 e.first.toNat) ++
      " in position " ++ e.start.repr ++ ": " ++ e.reason.text
  else
    "'utf-8' codec can't decode bytes in position " ++ e.start.repr ++ "-" ++
      (e.start + e.count - 1).repr ++ ": " ++ e.reason.text

end EncodingFault

/-- Whether a byte continues a character. -/
def isContinuation (b : UInt8) : Bool := b.toNat / 64 == 2

/-- Whether a byte may stand second behind a start byte. Some pairs would only spell a shorter
character, a surrogate, or a code beyond the last one. -/
def maySecond (start second : UInt8) : Bool :=
  isContinuation second &&
    (start != 0xe0 || 0xa0 ≤ second) && (start != 0xed || second < 0xa0) &&
    (start != 0xf0 || 0x90 ≤ second) && (start != 0xf4 || second < 0x90)

/-- How many bytes a character has that starts with a byte, if one can. -/
def widthOf? (start : UInt8) : Option Nat :=
  if start < 0x80 then some 1
  else if start < 0xc2 then none
  else if start < 0xe0 then some 2
  else if start < 0xf0 then some 3
  else if start < 0xf5 then some 4
  else none

/-- How many of the bytes behind a start byte continue its character, at most `want`. -/
def continued (start : UInt8) (want : Nat) (rest : List UInt8) : Nat :=
  match want, rest with
  | 0, _ => 0
  | _, [] => 0
  | want + 1, second :: more =>
    if maySecond start second then 1 + ((more.take want).takeWhile isContinuation).length else 0

/-- The part of a start byte that belongs to the code of its character. -/
def leadOf (start : UInt8) (width : Nat) : Nat :=
  match width with
  | 1 => start.toNat
  | 2 => start.toNat % 32
  | 3 => start.toNat % 16
  | _ => start.toNat % 8

/-- The code of a character from its start byte and the bytes that continue it. -/
def codeOf (start : UInt8) (width : Nat) (rest : List UInt8) : Nat :=
  rest.foldl (fun n b => n * 64 + b.toNat % 64) (leadOf start width)

/-- Reads the character that starts with a byte: its code and how many bytes follow the first. -/
def decodeOne (offset : Nat) (start : UInt8) (rest : List UInt8) :
    Except EncodingFault (Char × Nat) :=
  match widthOf? start with
  | none => .error ⟨offset, start, 1, .badStart⟩
  | some width =>
    let got := continued start (width - 1) rest
    if got = width - 1 then
      .ok (Char.ofNat (codeOf start width (rest.take got)), got)
    else
      let reason := if got = rest.length then .cutOff else .badContinuation
      .error ⟨offset, start, got + 1, reason⟩

/-- Reads a text from its bytes, `skip` of which belong to the character before. -/
def decodeFrom (offset skip : Nat) : List UInt8 → Except EncodingFault (List Char)
  | [] => .ok []
  | b :: rest =>
    match skip with
    | skip + 1 => decodeFrom (offset + 1) skip rest
    | 0 =>
      match decodeOne offset b rest with
      | .error e => .error e
      | .ok (c, more) =>
        match decodeFrom (offset + 1) more rest with
        | .error e => .error e
        | .ok text => .ok (c :: text)

/-- Reads a text from its bytes. -/
def decode (bytes : List UInt8) : Except EncodingFault (List Char) := decodeFrom 0 0 bytes

end Scriptlet.Text

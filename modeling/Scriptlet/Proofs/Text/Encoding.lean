import Mathlib.Data.List.TakeWhile
import Scriptlet.Text.Encoding

/-! Text that is stored is read again as it was. A character is read off the bytes that it is stored
as, whatever stands behind them, and the reader goes on behind these bytes. -/

namespace Scriptlet.Text

/-- The bytes that a text is stored as. -/
def encode (text : String) : List UInt8 := text.toUTF8.data.toList

theorem encode_eq (text : String) :
    encode text = text.toList.flatMap String.utf8EncodeChar := by
  rw [encode, String.toUTF8_eq_toByteArray, ← String.utf8Encode_toList, List.utf8Encode,
    List.data_toByteArray]

/-! ### Bytes by their values -/

theorem toNat_ofNat_of_lt {n : Nat} (h : n < 256) : (UInt8.ofNat n).toNat = n := by
  simpa using h

theorem widthOf?_eq (b : UInt8) : widthOf? b =
    if b.toNat < 0x80 then some 1 else if b.toNat < 0xc2 then none
    else if b.toNat < 0xe0 then some 2 else if b.toNat < 0xf0 then some 3
    else if b.toNat < 0xf5 then some 4 else none := by
  simp [widthOf?, UInt8.lt_iff_toNat_lt]

theorem isContinuation_iff {b : UInt8} : isContinuation b = true ↔ b.toNat / 64 = 2 := by
  simp [isContinuation]

theorem maySecond_iff {start second : UInt8} : maySecond start second = true ↔
    second.toNat / 64 = 2 ∧ (start.toNat = 0xe0 → 0xa0 ≤ second.toNat) ∧
      (start.toNat = 0xed → second.toNat < 0xa0) ∧ (start.toNat = 0xf0 → 0x90 ≤ second.toNat) ∧
      (start.toNat = 0xf4 → second.toNat < 0x90) := by
  simp [maySecond, isContinuation, UInt8.lt_iff_toNat_lt, UInt8.le_iff_toNat_le,
    ← UInt8.toNat_inj, and_assoc, Decidable.imp_iff_not_or]

/-! ### One character -/

theorem continued_append {start : UInt8} {bytes : List UInt8}
    (hfirst : ∀ b ∈ bytes.head?, maySecond start b = true)
    (hmore : ∀ b ∈ bytes.tail, isContinuation b = true) (rest : List UInt8) :
    continued start bytes.length (bytes ++ rest) = bytes.length := by
  cases bytes with
  | nil => rfl
  | cons second more =>
    have hall : more.takeWhile isContinuation = more :=
      List.takeWhile_eq_self_iff.mpr hmore
    rw [List.cons_append, List.length_cons, continued, if_pos (hfirst second rfl),
      List.take_left, hall, Nat.add_comm]

/-- The character that bytes stand for by their values, whatever stands behind them. -/
theorem decodeOne_append {c : Char} {start : UInt8} {bytes : List UInt8}
    (hwidth : widthOf? start = some (bytes.length + 1))
    (hsecond : ∀ b ∈ bytes.head?, maySecond start b = true)
    (hmore : ∀ b ∈ bytes.tail, isContinuation b = true)
    (hcode : codeOf start (bytes.length + 1) bytes = c.toNat) (offset : Nat)
    (rest : List UInt8) : decodeOne offset start (bytes ++ rest) = .ok (c, bytes.length) := by
  simp only [decodeOne, hwidth, Nat.add_sub_cancel, continued_append hsecond hmore rest, if_true,
    List.take_left, hcode, Char.ofNat_toNat]

/-- A character is read off the bytes that it is stored as. -/
theorem exists_decodeOne (c : Char) : ∃ start bytes, String.utf8EncodeChar c = start :: bytes ∧
    ∀ offset rest, decodeOne offset start (bytes ++ rest) = .ok (c, bytes.length) := by
  have hvalid : c.toNat < 0xd800 ∨ 0xdfff < c.toNat ∧ c.toNat < 0x110000 := c.valid
  simp only [String.utf8EncodeChar, Char.toNat_val]
  -- one case for each number of bytes
  split_ifs with hone htwo hthree
  all_goals
    refine ⟨_, _, rfl, decodeOne_append ?width ?second ?more ?code⟩
    case width =>
      rw [widthOf?_eq, toNat_ofNat_of_lt (by omega)]
      grind
    case second => simp [maySecond_iff] <;> omega
    case more => simp [isContinuation_iff] <;> omega
    case code =>
      simp [codeOf, leadOf]
      omega

/-! ### Whole texts -/

theorem decodeFrom_skip (offset : Nat) (bytes rest : List UInt8) :
    decodeFrom offset bytes.length (bytes ++ rest) = decodeFrom (offset + bytes.length) 0 rest := by
  induction bytes generalizing offset with
  | nil => rfl
  | cons b bytes ih =>
    rw [List.length_cons, List.cons_append, decodeFrom, ih, Nat.add_assoc, Nat.add_comm 1]

/-- Reading goes on behind the bytes of a character. -/
theorem decodeFrom_encodeChar (offset : Nat) (c : Char) (rest : List UInt8) :
    ∃ offset', decodeFrom offset 0 (String.utf8EncodeChar c ++ rest) =
      (decodeFrom offset' 0 rest).map (c :: ·) := by
  obtain ⟨start, bytes, hbytes, hone⟩ := exists_decodeOne c
  refine ⟨offset + 1 + bytes.length, ?_⟩
  rw [hbytes, List.cons_append, decodeFrom, hone]
  simp only [decodeFrom_skip]
  cases decodeFrom (offset + 1 + bytes.length) 0 rest <;> rfl

theorem decodeFrom_encode (offset : Nat) (cs : List Char) :
    decodeFrom offset 0 (cs.flatMap String.utf8EncodeChar) = .ok cs := by
  induction cs generalizing offset with
  | nil => rfl
  | cons c cs ih =>
    obtain ⟨offset', hc⟩ := decodeFrom_encodeChar offset c (cs.flatMap String.utf8EncodeChar)
    rw [List.flatMap_cons, hc, ih]
    rfl

/-- What is stored is read again. -/
theorem decode_encode (text : String) : decode (encode text) = .ok text.toList := by
  rw [decode, encode_eq, decodeFrom_encode]

end Scriptlet.Text

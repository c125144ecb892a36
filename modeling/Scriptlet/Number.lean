/-! Integers of any size: their decimal text, and division toward zero. Text is read and
written up to a fixed number of digits only; arithmetic has no such limit. -/

namespace Scriptlet.Number

/-- The most digits that are read from a text or written to one. -/
def digitLimit : Nat := 4300

/-- What is said where the limit is passed, with a detail if there is one. -/
def limitText (detail : String) : String :=
  "Exceeds the limit (" ++ digitLimit.repr ++ " digits) for integer string conversion" ++
    detail ++ "; use sys.set_int_max_str_digits() to increase the limit"

/-- What is said about a text with too many digits. -/
def tooManyText (digits : Nat) : String :=
  limitText (": value has " ++ digits.repr ++ " digits")

/-- The first number with too many digits. -/
def bound : Nat := Nat.pow 10 digitLimit

theorem length_toDigits_le_iff {n : Nat} :
    (Nat.toDigits 10 n).length ≤ digitLimit ↔ n < bound := by
  have hlimit : 0 < digitLimit := by decide
  unfold bound
  generalize digitLimit = limit at hlimit
  exact Nat.length_toDigits_le_iff (by decide) hlimit

/-- Whether the decimal text of a number stays within the limit. The sign is no digit. -/
def writable (n : Int) : Bool := n.natAbs < bound

/-- The decimal text of a number. -/
def text (n : Int) : String :=
  if n < 0 then "-" ++ n.natAbs.repr else n.natAbs.repr

/-- The number that decimal digits stand for. -/
def ofDigits (digits : List Char) : Nat := Nat.ofDigitChars 10 digits 0

theorem ofDigits_toDigits (n : Nat) : ofDigits (Nat.toDigits 10 n) = n :=
  Nat.ofDigitChars_toDigits (by decide) (by decide)

/-- The quotient, rounded toward zero: that of the absolute values, and the negative of it if only
one of the two numbers is below zero. -/
def quotient? (a b : Int) : Option Int :=
  if b = 0 then none
  else
    let q := Int.fdiv a.natAbs b.natAbs
    some (if decide (a < 0) = decide (b < 0) then q else -q)

/-- What the quotient leaves over. It has the sign of the dividend. -/
def remainder? (a b : Int) : Option Int := (quotient? a b).map fun q => a - b * q

/-- A sign that differs turns the quotient of the absolute values round. -/
theorem quotient?_of_ne_zero (a : Int) {b : Int} (hb : b ≠ 0) :
    quotient? a b = some (a.tdiv b) := by
  have habs : Int.fdiv a.natAbs b.natAbs = Int.tdiv a.natAbs b.natAbs :=
    Int.fdiv_eq_tdiv_of_nonneg (Int.natCast_nonneg _) (Int.natCast_nonneg _)
  rw [quotient?, if_neg hb, habs]
  by_cases ha : a < 0
  · have hna : (a.natAbs : Int) = -a := Int.ofNat_natAbs_of_nonpos (Int.le_of_lt ha)
    by_cases hneg : b < 0
    · have hnb : (b.natAbs : Int) = -b := Int.ofNat_natAbs_of_nonpos (Int.le_of_lt hneg)
      simp [ha, hneg, hna, hnb, Int.neg_tdiv, Int.tdiv_neg]
    · have hnb : (b.natAbs : Int) = b := Int.natAbs_of_nonneg (Int.not_lt.mp hneg)
      simp [ha, hneg, hna, hnb, Int.neg_tdiv]
  · have hna : (a.natAbs : Int) = a := Int.natAbs_of_nonneg (Int.not_lt.mp ha)
    by_cases hneg : b < 0
    · have hnb : (b.natAbs : Int) = -b := Int.ofNat_natAbs_of_nonpos (Int.le_of_lt hneg)
      simp [ha, hneg, hna, hnb, Int.tdiv_neg]
    · have hnb : (b.natAbs : Int) = b := Int.natAbs_of_nonneg (Int.not_lt.mp hneg)
      simp [ha, hneg, hna, hnb]

theorem remainder?_of_ne_zero (a : Int) {b : Int} (hb : b ≠ 0) :
    remainder? a b = some (a.tmod b) := by
  rw [remainder?, quotient?_of_ne_zero a hb, Option.map_some, Int.tmod_def]

end Scriptlet.Number

import Mathlib.Data.Rat.Floor
import Mathlib.Tactic.FieldSimp
import Mathlib.Tactic.Linarith
import Scriptlet.Proofs.Evaluation.Primitive

/-! Arithmetic is exact, whatever the size of the numbers. Main statement: quotient and remainder
are the only two numbers that divide with the remainder on the side of the dividend, operators want
numbers before all else, and the comparisons agree with one another. -/

namespace Scriptlet

/-! ### Division -/

/-- Quotient and remainder of a division that leaves the remainder on the side of the dividend. -/
structure Divides (a b q r : Int) : Prop where
  sum : a = b * q + r
  small : |r| < |b|
  side : r = 0 ∨ r.sign = a.sign

/-- A fraction rounded toward zero. -/
def towardZero (x : ℚ) : Int := if 0 ≤ x then ⌊x⌋ else ⌈x⌉

namespace Divides

variable {a b q r : Int}

theorem divisor_ne_zero (h : Divides a b q r) : b ≠ 0 := by
  rintro rfl
  exact absurd h.small (not_lt.mpr (by simp))

theorem nonneg_of_nonneg (h : Divides a b q r) (ha : 0 ≤ a) : 0 ≤ r := by
  obtain hr | hr := h.side
  · exact hr.ge
  · rw [← Int.sign_nonneg_iff, hr, Int.sign_nonneg_iff]
    exact ha

theorem neg_left (h : Divides a b q r) : Divides (-a) b (-q) (-r) := by
  refine ⟨?_, ?_, ?_⟩
  · rw [h.sum]
    ring
  · rw [abs_neg]
    exact h.small
  · rw [neg_eq_zero, Int.sign_neg, Int.sign_neg, neg_inj]
    exact h.side

theorem neg_right (h : Divides a b q r) : Divides a (-b) (-q) r := by
  refine ⟨?_, ?_, h.side⟩
  · rw [neg_mul_neg]
    exact h.sum
  · rw [abs_neg]
    exact h.small

theorem tdiv_tmod (a : Int) (hb : b ≠ 0) : Divides a b (a.tdiv b) (a.tmod b) := by
  refine ⟨(Int.mul_tdiv_add_tmod a b).symm, ?_, ?_⟩
  · rw [Int.abs_eq_natAbs, Int.abs_eq_natAbs, Int.natAbs_tmod]
    exact_mod_cast Nat.mod_lt _ (Int.natAbs_pos.mpr hb)
  · by_cases hdvd : b ∣ a
    · exact .inl (Int.tmod_eq_zero_of_dvd hdvd)
    · exact .inr (by rw [Int.sign_tmod, if_neg hdvd])

theorem eq_tdiv_tmod_of_nonneg (h : Divides a b q r) (ha : 0 ≤ a) :
    q = a.tdiv b ∧ r = a.tmod b := by
  have hsmall : r < b.natAbs := by
    rw [← Int.abs_eq_natAbs]
    exact (le_abs_self r).trans_lt h.small
  have hsum : r + b * q = a := by rw [add_comm, h.sum]
  obtain ⟨hq, hr⟩ := (Int.tdiv_tmod_unique ha h.divisor_ne_zero).mpr
    ⟨hsum, h.nonneg_of_nonneg ha, hsmall⟩
  exact ⟨hq.symm, hr.symm⟩

/-- No other two numbers divide. -/
theorem eq_tdiv_tmod (h : Divides a b q r) : q = a.tdiv b ∧ r = a.tmod b := by
  obtain ha | ha := le_total 0 a
  · exact h.eq_tdiv_tmod_of_nonneg ha
  · simpa [Int.neg_tdiv, Int.neg_tmod] using
      h.neg_left.eq_tdiv_tmod_of_nonneg (neg_nonneg.mpr ha)

theorem unique {q' r' : Int} (h : Divides a b q r) (h' : Divides a b q' r') :
    q' = q ∧ r' = r := by
  obtain ⟨rfl, rfl⟩ := h.eq_tdiv_tmod
  exact h'.eq_tdiv_tmod

/-- What the remainder adds to the quotient is less than one, and on the side of the fraction. -/
theorem fraction (h : Divides a b q r) :
    (a / b : ℚ) = q + r / b ∧ |(r / b : ℚ)| < 1 ∧
      ((r / b : ℚ) = 0 ∨ 0 < (r / b : ℚ) * (a / b)) := by
  have hb : (b : ℚ) ≠ 0 := Int.cast_ne_zero.mpr h.divisor_ne_zero
  refine ⟨?_, ?_, ?_⟩
  · rw [h.sum]
    push_cast
    field_simp
  · rw [abs_div, div_lt_one (abs_pos.mpr hb)]
    exact_mod_cast h.small
  · by_cases hr : r = 0
    · exact .inl (by simp [hr])
    · have hra : 0 < r * a := by
        rw [← Int.sign_eq_one_iff_pos, Int.sign_mul, ← h.side.resolve_left hr, ← Int.sign_mul,
          Int.sign_eq_one_iff_pos]
        exact mul_self_pos.mpr hr
      rw [div_mul_div_comm]
      exact .inr (div_pos (by exact_mod_cast hra) (mul_self_pos.mpr hb))

/-- The quotient is the fraction, rounded toward zero. -/
theorem eq_towardZero (h : Divides a b q r) : q = towardZero (a / b) := by
  obtain ⟨hsum, hsmall, hside⟩ := h.fraction
  obtain ⟨hlow, hhigh⟩ := abs_lt.mp hsmall
  rw [towardZero]
  split
  case isTrue hx =>
    have hpart : 0 ≤ (r / b : ℚ) := hside.elim Eq.ge fun hpos => (pos_of_mul_pos_left hpos hx).le
    exact (Int.floor_eq_iff.mpr ⟨by linarith, by linarith⟩).symm
  case isFalse hx =>
    have hpart : (r / b : ℚ) ≤ 0 :=
      hside.elim Eq.le fun hpos => (neg_of_mul_pos_left hpos (not_le.mp hx).le).le
    exact (Int.ceil_eq_iff.mpr ⟨by linarith, by linarith⟩).symm

end Divides

/-- A computation fails with an error of a kind. -/
def FailsWith {α : Type} (kind : Kind) (x : Except Cause α) : Prop :=
  ∃ cause, x = .error cause ∧ cause.kind = kind

theorem failsWith_error {α : Type} {kind : Kind} {cause : Cause} :
    FailsWith kind (.error cause : Except Cause α) ↔ cause.kind = kind := by
  simp [FailsWith]

theorem not_failsWith_ok {α : Type} {kind : Kind} (a : α) :
    ¬ FailsWith kind (.ok a : Except Cause α) := by
  simp [FailsWith]

theorem quotient_of_ne_zero (a : Int) {b : Int} (hb : b ≠ 0) : quotient a b = .ok (a.tdiv b) := by
  rw [quotient, Number.quotient?_of_ne_zero a hb]

theorem remainder_of_ne_zero (a : Int) {b : Int} (hb : b ≠ 0) :
    remainder a b = .ok (a.tmod b) := by
  rw [remainder, Number.remainder?_of_ne_zero a hb]

theorem fails_iff_zero {f : Int → Except Cause Int} {kind : Kind} {b : Int}
    (hzero : FailsWith kind (f 0)) (hok : ∀ b ≠ 0, ∃ n, f b = .ok n) :
    FailsWith kind (f b) ↔ b = 0 := by
  constructor
  · contrapose!
    intro hb
    obtain ⟨n, hn⟩ := hok b hb
    rw [hn]
    exact not_failsWith_ok n
  · rintro rfl
    exact hzero

theorem quotient_fails_iff {a b : Int} : FailsWith .divisionByZero (quotient a b) ↔ b = 0 :=
  fails_iff_zero (failsWith_error.mpr rfl) fun _ hb => ⟨_, quotient_of_ne_zero a hb⟩

theorem remainder_fails_iff {a b : Int} : FailsWith .divisionByZero (remainder a b) ↔ b = 0 :=
  fails_iff_zero (failsWith_error.mpr rfl) fun _ hb => ⟨_, remainder_of_ne_zero a hb⟩

theorem Divides.quotient_eq {a b q r : Int} (h : Divides a b q r) : quotient a b = .ok q := by
  rw [quotient_of_ne_zero a h.divisor_ne_zero, h.eq_tdiv_tmod.1]

theorem Divides.remainder_eq {a b q r : Int} (h : Divides a b q r) : remainder a b = .ok r := by
  rw [remainder_of_ne_zero a h.divisor_ne_zero, h.eq_tdiv_tmod.2]

/-! ### Operators -/

def Value.isNumber : Value → Bool
  | .number _ => true
  | _ => false

namespace Operator

variable {op : Operator} {v w : Value}

/-- The left operand is named if it is no number, and else the right one. -/
theorem apply_of_not_number (h : Heap) (hop : op ≠ .eq) (hn : ¬ (v.isNumber ∧ w.isNumber)) :
    op.apply h v w = .error (.typeMismatch op (h.describe (if v.isNumber then w else v))) := by
  cases v with
  | number n =>
    refine Refuses.apply (.right hop fun m hm => hn ?_)
    simp [hm, Value.isNumber]
  | _ => exact Refuses.apply (.left hop (by simp))

/-- Two numbers are of the right type. -/
theorem apply_numbers_not_failsWith (h : Heap) (a b : Int) :
    ¬ FailsWith .typeMismatch (op.apply h (.number a) (.number b)) := by
  obtain ⟨u, hc⟩ | ⟨cause, hr⟩ := computes_or_refuses h op (.number a) (.number b)
  · rw [hc.apply h]
    exact not_failsWith_ok u
  · rw [hr.apply, failsWith_error]
    cases hr with
    | left hop hv => exact absurd rfl (hv a)
    | right hop hw => exact absurd rfl (hw b)
    | division | modulo => simp [Cause.kind]

theorem apply_failsWith_iff (h : Heap) (hop : op ≠ .eq) :
    FailsWith .typeMismatch (op.apply h v w) ↔ ¬ (v.isNumber ∧ w.isNumber) := by
  constructor
  · rintro hfails ⟨hv, hw⟩
    cases v with
    | number a =>
      cases w with
      | number b => exact apply_numbers_not_failsWith h a b hfails
      | _ => cases hw
    | _ => cases hv
  · intro hn
    rw [apply_of_not_number h hop hn]
    exact failsWith_error.mpr rfl

end Operator

/-- Division fails on zero only. Otherwise quotient and remainder are the two numbers that divide,
the quotient is the fraction rounded toward zero, and it changes its sign with each of the two. An
operator other than equality complains about the first operand that is no number, before it divides.
On numbers the operators compute exactly, and the orderings fit together. -/
theorem operators_exact (h : Heap) :
    (∀ a b : Int,
      (FailsWith .divisionByZero (quotient a b) ↔ b = 0) ∧
      (FailsWith .divisionByZero (remainder a b) ↔ b = 0) ∧
      (b ≠ 0 → ∃ q r, quotient a b = .ok q ∧ remainder a b = .ok r ∧ Divides a b q r ∧
        (∀ q' r', Divides a b q' r' → q' = q ∧ r' = r) ∧ q = towardZero (a / b) ∧
        quotient (-a) b = .ok (-q) ∧ quotient a (-b) = .ok (-q))) ∧
    (∀ (op : Operator) (v w : Value), op ≠ .eq →
      (FailsWith .typeMismatch (op.apply h v w) ↔ ¬ (v.isNumber ∧ w.isNumber)) ∧
      (¬ (v.isNumber ∧ w.isNumber) → op.apply h v w =
        .error (.typeMismatch op (h.describe (if v.isNumber then w else v))))) ∧
    ∀ a b : Int,
      let result (op : Operator) := op.apply h (.number a) (.number b)
      result .add = .ok (.number (a + b)) ∧ result .sub = .ok (.number (a - b)) ∧
      result .mul = .ok (.number (a * b)) ∧
      (b ≠ 0 → ∃ q r, result .div = .ok (.number q) ∧ result .mod = .ok (.number r) ∧
        Divides a b q r) ∧
      (b = 0 → FailsWith .divisionByZero (result .div) ∧
        FailsWith .divisionByZero (result .mod)) ∧
      ∃ ge gt le lt eq : Bool,
        (result .ge = .ok (.bool ge) ∧ result .gt = .ok (.bool gt) ∧
          result .le = .ok (.bool le) ∧ result .lt = .ok (.bool lt) ∧
          result .eq = .ok (.bool eq)) ∧
        ((ge ↔ a ≥ b) ∧ (gt ↔ a > b) ∧ (le ↔ a ≤ b) ∧ (lt ↔ a < b) ∧ (eq ↔ a = b)) ∧
        ge = !lt ∧ gt = !le ∧ (ge && le) = eq := by
  refine ⟨fun a b => ⟨quotient_fails_iff, remainder_fails_iff, fun hb => ?_⟩,
    fun op v w hop => ⟨op.apply_failsWith_iff h hop, op.apply_of_not_number h hop⟩, fun a b => ?_⟩
  · have hdiv := Divides.tdiv_tmod a hb
    exact ⟨_, _, hdiv.quotient_eq, hdiv.remainder_eq, hdiv, fun _ _ => hdiv.unique,
      hdiv.eq_towardZero, hdiv.neg_left.quotient_eq, hdiv.neg_right.quotient_eq⟩
  · refine ⟨rfl, rfl, rfl, fun hb => ?_, ?_, ?_⟩
    · exact ⟨_, _, (Operator.Computes.div a b hb).apply h, (Operator.Computes.mod a b hb).apply h,
        Divides.tdiv_tmod a hb⟩
    · rintro rfl
      exact ⟨failsWith_error.mpr rfl, failsWith_error.mpr rfl⟩
    · refine ⟨_, _, _, _, _, ⟨rfl, rfl, rfl, rfl, rfl⟩, ?_, ?_, ?_, ?_⟩
      · simp
      · rw [← decide_not, decide_eq_decide, not_lt]
      · rw [← decide_not, decide_eq_decide, not_le]
      · rw [← Bool.decide_and, decide_eq_decide, Value.number.injEq]
        exact ⟨fun hab => le_antisymm hab.2 hab.1, fun hab => ⟨hab.ge, hab.le⟩⟩

/-- Below zero the remainder stays below, and a missing number comes before a divisor of zero. -/
theorem negative_seven_halved :
    (2 : Int) ≠ 0 ∧ ∃ q r, quotient (-7) 2 = .ok q ∧ remainder (-7) 2 = .ok r ∧
      Divides (-7) 2 q r ∧ q = -3 ∧ r = -1 ∧
      Operator.apply .empty .mod .null (.number 0) =
        .error (.typeMismatch .mod (Heap.describe .empty .null)) := by
  obtain ⟨hdivision, htypes, -⟩ := operators_exact .empty
  obtain ⟨q, r, hq, hr, hdiv, hunique, -⟩ := (hdivision (-7) 2).2.2 (by decide)
  have hother : Divides (-7) 2 (-3) (-1) := ⟨by decide, by decide, by decide⟩
  obtain ⟨rfl, rfl⟩ := hunique _ _ hother
  exact ⟨by decide, _, _, hq, hr, hdiv, rfl, rfl,
    (htypes .mod .null (.number 0) (by decide)).2 (by decide)⟩

end Scriptlet

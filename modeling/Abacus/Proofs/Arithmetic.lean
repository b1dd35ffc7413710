import Mathlib.Algebra.Ring.Int.Defs
import Abacus.Fault.Basic

/-!
# Checked operations against plain integers

The library divides magnitudes and puts the sign back afterwards, and it checks a result only once
it is there. Here the four operations are said a second time, with nothing but integers and the
quotient that rounds toward zero, and the two are shown to be the same function: the same values,
the same failures, and the same exact result in a failure.
-/

namespace Abacus

theorem truncatingQuotient_eq_tdiv (a b : Int) : truncatingQuotient a b = a.tdiv b := by
  have hcast : ((a.natAbs / b.natAbs : Nat) : Int) = (a.natAbs : Int).tdiv b.natAbs :=
    Int.ofNat_tdiv _ _
  unfold truncatingQuotient
  rw [hcast]
  by_cases ha : a < 0 <;> by_cases hb : b < 0
  · rw [if_pos (by simp [ha, hb]), Int.ofNat_natAbs_of_nonpos (by omega),
      Int.ofNat_natAbs_of_nonpos (by omega), Int.neg_tdiv_neg]
  · rw [if_neg (by simp [ha, hb]), Int.ofNat_natAbs_of_nonpos (by omega),
      Int.natAbs_of_nonneg (by omega), Int.neg_tdiv, Int.neg_neg]
  · rw [if_neg (by simp [ha, hb]), Int.natAbs_of_nonneg (by omega),
      Int.ofNat_natAbs_of_nonpos (by omega), Int.tdiv_neg, Int.neg_neg]
  · rw [if_pos (by simp [ha, hb]), Int.natAbs_of_nonneg (by omega),
      Int.natAbs_of_nonneg (by omega)]

namespace Operation

/-- What an operation comes to in unbounded integers; a quotient is rounded toward zero. -/
def unbounded : Operation → Int → Int → Int
  | .add, a, b => a + b
  | .subtract, a, b => a - b
  | .multiply, a, b => a * b
  | .divide, a, b => a.tdiv b

/-- What an operation means: there is no quotient by zero, and a result outside the signed 64-bit
range is a failure that carries it. -/
def meaning (op : Operation) (a b : Int) : Except Failure Int :=
  if op = .divide ∧ b = 0 then .error .zeroDivisor
  else if -2 ^ 63 ≤ op.unbounded a b ∧ op.unbounded a b < 2 ^ 63 then .ok (op.unbounded a b)
  else .error (.tooLarge (op.unbounded a b))

theorem exact_eq_unbounded (op : Operation) (a b : Int) : op.exact a b = op.unbounded a b := by
  cases op with
  | divide => exact truncatingQuotient_eq_tdiv a b
  | add | subtract | multiply => rfl

theorem apply_eq_meaning (op : Operation) (a b : Int) : op.apply a b = op.meaning a b := by
  have hfits : Fits (op.unbounded a b) ↔
      -2 ^ 63 ≤ op.unbounded a b ∧ op.unbounded a b < 2 ^ 63 := by
    simp only [Fits, minValue, maxValue]
    omega
  simp only [apply, meaning, exact_eq_unbounded, hfits]

theorem eq_divide_of_meaning {op : Operation} {a b : Int}
    (h : op.meaning a b = .error .zeroDivisor) : op = .divide ∧ b = 0 := by
  unfold meaning at h
  split at h
  · next hdiv => exact hdiv
  · split at h <;> cases h

/-- The cause that a failed operation is reported with. -/
def Failure.cause : Failure → Cause
  | .zeroDivisor => .zeroDivisor
  | .tooLarge n => .result n

end Operation

end Abacus

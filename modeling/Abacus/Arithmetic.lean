/-!
# Checked arithmetic

Values are integers that fit in a signed 64-bit word. An operation is carried out on unbounded
integers, and its result is then checked; a result that does not fit is a failure that carries the
exact result. Division goes toward zero, and a zero divisor is a failure of its own. Operands are
not checked: they were checked when they came about.
-/

namespace Abacus

/-- The least value of a signed 64-bit word. -/
def minValue : Int := -9223372036854775808

/-- The greatest value of a signed 64-bit word. -/
def maxValue : Int := 9223372036854775807

/-- The values that fit. -/
def Fits (n : Int) : Prop := minValue ≤ n ∧ n ≤ maxValue

instance (n : Int) : Decidable (Fits n) := inferInstanceAs (Decidable (_ ∧ _))

/-- The quotient of two integers rounded toward zero: the quotient of their magnitudes, negated if
exactly one of them is negative. -/
def truncatingQuotient (a b : Int) : Int :=
  let magnitude : Int := (a.natAbs / b.natAbs : Nat)
  if decide (a < 0) = decide (b < 0) then magnitude else -magnitude

/-- The four operations. -/
inductive Operation where
  | add
  | subtract
  | multiply
  | divide
deriving DecidableEq, Inhabited

/-- Why an operation on two values has no value. -/
inductive Operation.Failure where
  | zeroDivisor
  | tooLarge (exact : Int)
deriving DecidableEq

namespace Operation

/-- The result in unbounded integers. The quotient by zero is zero here; `apply` never asks for
it. -/
def exact : Operation → Int → Int → Int
  | .add, a, b => a + b
  | .subtract, a, b => a - b
  | .multiply, a, b => a * b
  | .divide, a, b => truncatingQuotient a b

/-- The result, if there is one and it fits. -/
def apply (op : Operation) (a b : Int) : Except Failure Int :=
  if op = .divide ∧ b = 0 then .error .zeroDivisor
  else if Fits (op.exact a b) then .ok (op.exact a b)
  else .error (.tooLarge (op.exact a b))

end Operation

example : truncatingQuotient (-7) 2 = -3 ∧ truncatingQuotient 7 (-2) = -3 ∧
    truncatingQuotient (-7) (-2) = 3 ∧ truncatingQuotient 0 (-2) = 0 := by decide

end Abacus

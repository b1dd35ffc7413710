import Abacus.Proofs.Rules

/-!
# Division toward zero

The quotient is worked out on magnitudes, and its sign is put back by a comparison in which zero
counts as positive. What comes of it is the one integer that leaves a remainder smaller than the
divisor on the dividend's side of zero. It is never greater than the dividend in magnitude, so that
of all quotients of values that fit only one does not: the least value divided by minus one.

A term divides in its loop, and asks whether the divisor is zero before it asks for the quotient.
That is said by leaving the quotient to a rule of which nothing is known where the divisor is zero:
it may fail there, or take tokens, and the loop does not come out differently.
-/

namespace Abacus

/-- `q` is the quotient of `a` by `b` rounded toward zero: what `b` times `q` leaves of `a` is
smaller than `b`, and nothing or on the same side of zero as `a`. -/
def IsQuotient (a b q : Int) : Prop :=
  ∃ r, a = b * q + r ∧ r.natAbs < b.natAbs ∧ (r = 0 ∨ r.sign = a.sign)

variable {a b q : Int}

theorem isQuotient_tdiv (hb : b ≠ 0) (a : Int) : IsQuotient a b (a.tdiv b) := by
  refine ⟨a.tmod b, (Int.mul_tdiv_add_tmod a b).symm, ?_, ?_⟩
  · rw [Int.natAbs_tmod]
    exact Nat.mod_lt _ (Int.natAbs_pos.2 hb)
  · by_cases hdvd : b ∣ a
    · exact .inl (Int.tmod_eq_zero_of_dvd hdvd)
    · exact .inr (by rw [Int.sign_tmod, if_neg hdvd])

theorem IsQuotient.eq_tdiv (hb : b ≠ 0) (h : IsQuotient a b q) : q = a.tdiv b := by
  obtain ⟨r, hdiv, hlt, hsign⟩ := h
  -- On the sign of the dividend, which is the sign of the remainder.
  rcases Int.le_total 0 a with ha | ha
  · have hr : 0 ≤ r := by
      rcases hsign with hzero | hsign
      · omega
      · exact Int.sign_nonneg_iff.1 (hsign ▸ Int.sign_nonneg_iff.2 ha)
    exact ((Int.tdiv_tmod_unique ha hb).2 ⟨by omega, hr, by omega⟩).1.symm
  · have hr : r ≤ 0 := by
      rcases hsign with hzero | hsign
      · omega
      · exact Int.sign_nonpos_iff.1 (hsign ▸ Int.sign_nonpos_iff.2 ha)
    exact ((Int.tdiv_tmod_unique' ha hb).2 ⟨by omega, by omega, hr⟩).1.symm

theorem isQuotient_iff (hb : b ≠ 0) : IsQuotient a b q ↔ q = truncatingQuotient a b := by
  rw [truncatingQuotient_eq_tdiv]
  constructor
  · exact IsQuotient.eq_tdiv hb
  · rintro rfl
    exact isQuotient_tdiv hb a

theorem natAbs_truncatingQuotient_le (a b : Int) : (truncatingQuotient a b).natAbs ≤ a.natAbs := by
  rw [truncatingQuotient_eq_tdiv]
  exact Int.natAbs_tdiv_le_natAbs a b

/-- A divisor other than one and minus one halves the dividend at least. -/
theorem two_mul_natAbs_tdiv_le (hb : 2 ≤ b.natAbs) (a : Int) :
    2 * (a.tdiv b).natAbs ≤ a.natAbs := by
  have hquot : (a.tdiv b).natAbs = a.natAbs / b.natAbs := Int.natAbs_tdiv a b
  have hle : a.natAbs / b.natAbs ≤ a.natAbs / 2 := Nat.div_le_div_left hb (by decide)
  omega

/-- The only quotient that does not fit. -/
theorem fits_truncatingQuotient_iff (ha : Fits a) (hb : b ≠ 0) :
    Fits (truncatingQuotient a b) ↔ ¬ (a = minValue ∧ b = -1) := by
  rw [truncatingQuotient_eq_tdiv]
  simp only [Fits, minValue, maxValue] at ha ⊢
  by_cases hone : b = 1
  · rw [hone, Int.tdiv_one]
    omega
  · by_cases hminus : b = -1
    · rw [hminus, Int.tdiv_neg, Int.tdiv_one]
      omega
    · have hhalf := two_mul_natAbs_tdiv_le (b := b) (by omega) a
      omega

namespace Reader

/-- A division for which the quotient is left to a rule. -/
def divideBy (quotient : Int → Int → Rule Int) (source : String) (start rightStart : Position)
    (left right : Int) : Rule Int := do
  if right = 0 then
    throw (.fault ⟨.zeroDivisor, ⟨rightStart, (← get).previousEnd⟩, source⟩)
  else
    let value ← quotient left right
    if Fits value then pure value
    else throw (.fault ⟨.result value, ⟨start, (← get).previousEnd⟩, source⟩)

/-- The loop of a term, with such divisions. -/
def termTailBy (quotient : Int → Int → Rule Int) (source : String) (operand : Rule Int)
    (start : Position) : List Item → Int → Rule Int
  | [], left => pure left
  | _ :: rounds, left => do
    match (← get).lookahead.kind with
    | .times =>
      let _ ← eat
      let rightStart := (← get).lookahead.span.start
      let right ← operand
      let value ← combine source start rightStart .multiply left right
      termTailBy quotient source operand start rounds value
    | .divide =>
      let _ ← eat
      let rightStart := (← get).lookahead.span.start
      let right ← operand
      let value ← divideBy quotient source start rightStart left right
      termTailBy quotient source operand start rounds value
    | _ => pure left

/-- Reads a term, with such divisions. -/
def termBy (quotient : Int → Int → Rule Int) (source : String) (operand : Rule Int) : Rule Int := do
  let start := (← get).lookahead.span.start
  let first ← operand
  let r ← get
  termTailBy quotient source operand start (.ok r.lookahead :: r.stream.upcoming) first

/-- Reads an expression in which less than `depth` parentheses are open at a time, with such
divisions. -/
def expressionBy (quotient : Int → Int → Rule Int) (source : String) : Nat → Rule Int
  | 0 => blame source .nesting
  | depth + 1 => chain source Token.Kind.additive?
      (termBy quotient source (factorOf source (expressionBy quotient source depth)))

/-- The rule comes to the quotient rounded toward zero wherever the divisor is not zero. -/
def Divides (quotient : Int → Int → Rule Int) : Prop :=
  ∀ a b, b ≠ 0 → quotient a b = pure (truncatingQuotient a b)

/-- There is a fault with the given cause. -/
def FailsWith (cause : Cause) (x : EStateM.Result Failure Reader Int) : Prop :=
  ∃ f r, x = .error (.fault f) r ∧ f.cause = cause

variable {source : String} {start rightStart : Position} {r : Reader} {operand : Rule Int}
  {quotient : Int → Int → Rule Int}

/-! ## One division -/

theorem failsWith_error {cause : Cause} {f : Fault} :
    FailsWith cause (.error (.fault f) r) ↔ f.cause = cause := by
  constructor
  · rintro ⟨_, _, h, hcause⟩
    cases h
    exact hcause
  · exact fun hcause => ⟨f, r, rfl, hcause⟩

theorem not_failsWith_ok {cause : Cause} {v : Int} : ¬ FailsWith cause (.ok v r) := by
  rintro ⟨_, _, h, _⟩
  cases h

theorem combine_divide (a b : Int) :
    combine source start rightStart .divide a b r =
      if b = 0 then .error (.fault ⟨.zeroDivisor, ⟨rightStart, r.previousEnd⟩, source⟩) r
      else if Fits (truncatingQuotient a b) then .ok (truncatingQuotient a b) r
      else
        .error (.fault ⟨.result (truncatingQuotient a b), ⟨start, r.previousEnd⟩, source⟩) r := by
  rw [combine, Operation.apply]
  by_cases hb : b = 0
  · rw [if_pos ⟨rfl, hb⟩, if_pos hb]
  · rw [if_neg fun h => hb h.2, if_neg hb, Operation.exact]
    by_cases hfits : Fits (truncatingQuotient a b)
    · rw [if_pos hfits, if_pos hfits]
    · rw [if_neg hfits, if_neg hfits]

theorem combine_divide_of_fits (ha : Fits a) (hb : b ≠ 0) (h : ¬ (a = minValue ∧ b = -1)) :
    combine source start rightStart .divide a b r = .ok (truncatingQuotient a b) r := by
  rw [combine_divide, if_neg hb, if_pos ((fits_truncatingQuotient_iff ha hb).2 h)]

theorem combine_divide_least :
    combine source start rightStart .divide minValue (-1) r =
      .error (.fault ⟨.result (2 ^ 63), ⟨start, r.previousEnd⟩, source⟩) r :=
  rfl

/-- The division of a value that fits is too large in one case only. -/
theorem failsWith_result_iff (ha : Fits a) (n : Int) :
    FailsWith (.result n) (combine source start rightStart .divide a b r) ↔
      a = minValue ∧ b = -1 ∧ n = 2 ^ 63 := by
  by_cases hb : b = 0
  · rw [combine_divide, if_pos hb, failsWith_error, hb]
    simp
  · by_cases hleast : a = minValue ∧ b = -1
    · obtain ⟨rfl, rfl⟩ := hleast
      rw [combine_divide_least, failsWith_error, Cause.result.injEq]
      simp [eq_comm]
    · rw [combine_divide_of_fits ha hb hleast]
      exact iff_of_false not_failsWith_ok fun h => hleast ⟨h.1, h.2.1⟩

theorem failsWith_zeroDivisor_iff :
    FailsWith .zeroDivisor (combine source start rightStart .divide a b r) ↔ b = 0 := by
  rw [combine_divide]
  by_cases hb : b = 0
  · rw [if_pos hb, failsWith_error]
    simp [hb]
  · rw [if_neg hb]
    refine iff_of_false ?_ hb
    split
    · exact not_failsWith_ok
    · rw [failsWith_error]
      simp

theorem divideBy_eq (h : Divides quotient) (start rightStart : Position) (a b : Int) :
    divideBy quotient source start rightStart a b =
      combine source start rightStart .divide a b := by
  funext r
  rw [divideBy, combine_divide]
  by_cases hb : b = 0
  · rw [if_pos hb, if_pos hb]
    rfl
  · rw [if_neg hb, if_neg hb, h a b hb, pure_bind]
    by_cases hfits : Fits (truncatingQuotient a b)
    · rw [if_pos hfits, if_pos hfits]
      rfl
    · rw [if_neg hfits, if_neg hfits]
      rfl

/-! ## All divisions -/

theorem chainTail_eq_termTailBy (h : Divides quotient) (start : Position) (rounds : List Item) :
    chainTail source Token.Kind.multiplicative? operand start rounds =
      termTailBy quotient source operand start rounds := by
  -- On the rounds. The two loops differ in the one step that divides.
  induction rounds with
  | nil => rfl
  | cons item rounds ih =>
      funext left r
      rw [chainTail, termTailBy, get_bind_apply, get_bind_apply]
      cases r.lookahead.kind with
      | times => simp only [Token.Kind.multiplicative?, ih]
      | divide => simp only [Token.Kind.multiplicative?, ih, divideBy_eq h]
      | integer | plus | minus | leftParen | rightParen | endOfInput => rfl

theorem termBy_eq (h : Divides quotient) :
    termBy quotient source operand = chain source Token.Kind.multiplicative? operand := by
  simp only [termBy, chain, chainTail_eq_termTailBy h]

theorem expressionBy_eq (h : Divides quotient) (depth : Nat) :
    expressionBy quotient source depth = expressionWithin source depth := by
  induction depth with
  | zero => rfl
  | succ depth ih =>
      rw [expressionBy, ih, termBy_eq h]
      rfl

/-- For every divisor but zero, the quotient is the one integer that is rounded toward zero, and no
greater than the dividend in magnitude. The division of a value that fits is too large just if it is
the least value that is divided by minus one, which makes `2 ^ 63`; it has a zero divisor just if
the divisor is zero; and otherwise it comes to the quotient. No quotient by zero is ever asked for:
with the quotients of any rule that is right about the other ones, each division, each term and each
expression comes to the same. -/
theorem divide_toward_zero [Host] (source : String) :
    (∀ a b : Int, b ≠ 0 →
      (∀ q, IsQuotient a b q ↔ q = truncatingQuotient a b) ∧
        (truncatingQuotient a b).natAbs ≤ a.natAbs) ∧
    (∀ (start rightStart : Position) (r : Reader) (a b : Int), -2 ^ 63 ≤ a ∧ a ≤ 2 ^ 63 - 1 →
      let step := combine source start rightStart .divide a b r
      (∀ n, FailsWith (.result n) step ↔ a = -2 ^ 63 ∧ b = -1 ∧ n = 2 ^ 63) ∧
        (FailsWith .zeroDivisor step ↔ b = 0) ∧
        (b ≠ 0 → ¬ (a = -2 ^ 63 ∧ b = -1) → step = .ok (truncatingQuotient a b) r)) ∧
    ∀ quotient, Divides quotient →
      (∀ start rightStart a b, divideBy quotient source start rightStart a b =
        combine source start rightStart .divide a b) ∧
      termBy quotient source (factorOf source (expressionBy quotient source maxDepth)) =
        term source ∧
      expressionBy quotient source (maxDepth + 1) = expression source := by
  refine ⟨fun a b hb => ⟨fun q => isQuotient_iff hb, natAbs_truncatingQuotient_le a b⟩, ?_, ?_⟩
  · intro start rightStart r a b ha
    have hmin : (-2 ^ 63 : Int) = minValue := rfl
    have hfits : Fits a := ⟨ha.1, ha.2⟩
    rw [hmin]
    exact ⟨failsWith_result_iff hfits, failsWith_zeroDivisor_iff, combine_divide_of_fits hfits⟩
  · intro quotient h
    refine ⟨divideBy_eq h, ?_, expressionBy_eq h _⟩
    rw [expressionBy_eq h, termBy_eq h]
    rfl

/-- The least value divided by minus one, with quotients that are worked out only for a divisor that
is not zero: a zero divisor would end the reading with another failure. -/
theorem divide_toward_zero_least :
    let quotient : Int → Int → Rule Int := fun a b =>
      if b = 0 then throw (.overlong 0) else pure (truncatingQuotient a b)
    let p : Position := ⟨1, 1, 0⟩
    let r : Reader := ⟨.endOfList, .ofList [], p, 1⟩
    Divides quotient ∧ IsQuotient (-2 ^ 63) (-1) (2 ^ 63) ∧
      FailsWith (.result (2 ^ 63)) (divideBy quotient "" p p (-2 ^ 63) (-1) r) ∧
      FailsWith .zeroDivisor (divideBy quotient "" p p (-2 ^ 63) 0 r) := by
  intro quotient p r
  have hquotient : Divides quotient := fun a b hb => if_neg hb
  obtain ⟨hlaw, hstep, hby⟩ := divide_toward_zero ""
  have hmin : (-2 ^ 63 : Int) ≤ -2 ^ 63 ∧ (-2 ^ 63 : Int) ≤ 2 ^ 63 - 1 := by decide
  obtain ⟨hdivide, -, -⟩ := hby quotient hquotient
  refine ⟨hquotient, ((hlaw (-2 ^ 63) (-1) (by decide)).1 (2 ^ 63)).2 rfl, ?_, ?_⟩
  · rw [hdivide]
    exact ((hstep p p r (-2 ^ 63) (-1) hmin).1 (2 ^ 63)).2 ⟨rfl, rfl, rfl⟩
  · rw [hdivide]
    exact (hstep p p r (-2 ^ 63) 0 hmin).2.1.2 rfl

end Reader

end Abacus

import Abacus.Proofs.Consumption

/-!
# The rules as case distinctions

Each rule of the reader, written out as what happens after each of its steps. Sequencing is gone,
and with it the state that is passed along behind the scenes: every reader that occurs is named.

The rounds that a chain is given are bookkeeping, not a bound. A round consumes an operator and at
least the first token of an operand, so that the items still to come run out before the rounds do;
and where no items are to come the stream repeats one token, which cannot be an operator, because
the operand has just begun with it. `Ample` is the form in which a chain keeps this up.
-/

namespace Abacus

/-- The stretch of text that a failed operation is blamed on: a zero divisor on the right operand,
a result that does not fit on both operands. -/
def Operation.Failure.span (start rightStart stop : Position) : Operation.Failure → Span
  | .zeroDivisor => ⟨rightStart, stop⟩
  | .tooLarge _ => ⟨start, stop⟩

namespace Reader

variable {source : String} {inner operand : Rule Int}
  {operation? : Token.Kind → Option Operation} {r : Reader}

theorem bind_apply {α β : Type} (x : Rule α) (f : α → Rule β) :
    (x >>= f) r =
      match x r with
      | .error e r₁ => .error e r₁
      | .ok a r₁ => f a r₁ := by
  show EStateM.bind x f r = _
  rw [EStateM.bind]
  cases x r <;> rfl

theorem get_bind_apply {β : Type} (f : Reader → Rule β) : ((get : Rule Reader) >>= f) r = f r r :=
  rfl

theorem combine_eq (start rightStart : Position) (op : Operation) (a b : Int) :
    combine source start rightStart op a b r =
      match op.meaning a b with
      | .ok n => .ok n r
      | .error z =>
        .error (.fault ⟨z.cause, z.span start rightStart r.previousEnd, source⟩) r := by
  rw [combine, Operation.apply_eq_meaning]
  cases op.meaning a b with
  | ok n => rfl
  | error z => cases z <;> rfl

theorem expect_eq (kind : Token.Kind) :
    expect source kind r =
      if r.lookahead.kind = kind then eat r
      else .error (.fault
        ⟨.mismatch (.token kind) r.lookahead, r.lookahead.span, source⟩) r := by
  rw [expect, get_bind_apply]
  split <;> rfl

theorem factorOf_eq :
    factorOf source inner r =
      match r.lookahead.kind with
      | .integer =>
        match eat r with
        | .error e r₁ => .error e r₁
        | .ok _ r₁ => .ok r.lookahead.number r₁
      | .leftParen =>
        match eat r with
        | .error e r₁ => .error e r₁
        | .ok _ r₁ =>
          match inner r₁ with
          | .error e r₂ => .error e r₂
          | .ok v r₂ =>
            match expect source .rightParen r₂ with
            | .error e r₃ => .error e r₃
            | .ok _ r₃ => .ok v r₃
      | _ => .error (.fault ⟨.mismatch .operand r.lookahead, r.lookahead.span, source⟩) r := by
  rw [factorOf, get_bind_apply]
  cases r.lookahead.kind with
  | integer =>
      simp only [bind_apply]
      cases eat r <;> rfl
  | leftParen =>
      simp only [bind_apply]
      cases eat r with
      | error e r₁ => rfl
      | ok t r₁ =>
          dsimp only
          cases inner r₁ with
          | error e r₂ => rfl
          | ok v r₂ =>
              dsimp only
              cases expect source .rightParen r₂ <;> rfl
  | plus | minus | times | divide | rightParen | endOfInput => rfl

/-- A round of a loop, with the rule for its right operand and what the loop does after it. -/
def roundOf (source : String) (operand : Rule Int) (more : Int → Rule Int) (start : Position)
    (op : Operation) (left : Int) : Rule Int := do
  let _ ← eat
  let rightStart := (← get).lookahead.span.start
  let right ← operand
  let value ← combine source start rightStart op left right
  more value

theorem roundOf_eq (operand : Rule Int) (more : Int → Rule Int) (start : Position)
    (op : Operation) (left : Int) (r : Reader) :
    roundOf source operand more start op left r =
      match eat r with
      | .error e r₁ => .error e r₁
      | .ok _ r₁ =>
        match operand r₁ with
        | .error e r₂ => .error e r₂
        | .ok right r₂ =>
          match op.meaning left right with
          | .error z => .error (.fault ⟨z.cause,
              z.span start r₁.lookahead.span.start r₂.previousEnd, source⟩) r₂
          | .ok v => more v r₂ := by
  rw [roundOf, bind_apply]
  cases eat r with
  | error e r₁ => rfl
  | ok t r₁ =>
      dsimp only
      rw [get_bind_apply, bind_apply]
      cases operand r₁ with
      | error e r₂ => rfl
      | ok right r₂ =>
          dsimp only
          rw [bind_apply, combine_eq]
          cases op.meaning left right <;> rfl

theorem chainTail_eq_round (start : Position) (item : Item) (rounds : List Item) (left : Int) :
    chainTail source operation? operand start (item :: rounds) left r =
      match operation? r.lookahead.kind with
      | none => .ok left r
      | some op =>
        roundOf source operand (chainTail source operation? operand start rounds) start op left
          r := by
  rw [chainTail, get_bind_apply]
  cases operation? r.lookahead.kind <;> rfl

theorem chainTail_cons (start : Position) (item : Item) (rounds : List Item) (left : Int) :
    chainTail source operation? operand start (item :: rounds) left r =
      match operation? r.lookahead.kind with
      | none => .ok left r
      | some op =>
        match eat r with
        | .error e r₁ => .error e r₁
        | .ok _ r₁ =>
          match operand r₁ with
          | .error e r₂ => .error e r₂
          | .ok right r₂ =>
            match op.meaning left right with
            | .error z => .error (.fault ⟨z.cause,
                z.span start r₁.lookahead.span.start r₂.previousEnd, source⟩) r₂
            | .ok v => chainTail source operation? operand start rounds v r₂ := by
  rw [chainTail_eq_round]
  cases operation? r.lookahead.kind with
  | none => rfl
  | some op => exact roundOf_eq ..

theorem chain_eq :
    chain source operation? operand r =
      match operand r with
      | .error e r₁ => .error e r₁
      | .ok v r₁ => chainTail source operation? operand r.lookahead.span.start
          (.ok r₁.lookahead :: r₁.stream.upcoming) v r₁ := by
  rw [chain, get_bind_apply, bind_apply]
  cases operand r <;> rfl

/-- Reads a complete expression in which at most `limit` parentheses are open at a time. -/
def evaluateWithin (source : String) (limit : Nat) (allowTrailing : Bool) : Rule Int := do
  let value ← expressionWithin source (limit + 1)
  if !allowTrailing && (← get).lookahead.kind ≠ .endOfInput then
    blame source (.mismatch (.token .endOfInput))
  else pure value

theorem evaluateWithin_eq (limit : Nat) (allowTrailing : Bool) :
    evaluateWithin source limit allowTrailing r =
      match expressionWithin source (limit + 1) r with
      | .error e r₁ => .error e r₁
      | .ok v r₁ =>
        if allowTrailing = false ∧ r₁.lookahead.kind ≠ .endOfInput then
          .error (.fault
            ⟨.mismatch (.token .endOfInput) r₁.lookahead, r₁.lookahead.span, source⟩) r₁
        else .ok v r₁ := by
  rw [evaluateWithin, bind_apply]
  cases expressionWithin source (limit + 1) r with
  | error e r₁ => rfl
  | ok v r₁ =>
      simp only [get_bind_apply, Bool.and_eq_true, Bool.not_eq_true', decide_eq_true_eq]
      split <;> rfl

theorem evaluate_eq [Host] (allowTrailing : Bool) :
    evaluate source allowTrailing r =
      match expression source r with
      | .error e r₁ => .error e r₁
      | .ok v r₁ =>
        if allowTrailing = false ∧ r₁.lookahead.kind ≠ .endOfInput then
          .error (.fault
            ⟨.mismatch (.token .endOfInput) r₁.lookahead, r₁.lookahead.span, source⟩) r₁
        else .ok v r₁ :=
  evaluateWithin_eq maxDepth allowTrailing

/-! ## Rounds -/

/-- If the reader looks at an operator, there are more rounds than items still to come. -/
def Ample (operation? : Token.Kind → Option Operation) (rounds : List Item) (r : Reader) : Prop :=
  operation? r.lookahead.kind ≠ none → r.stream.upcoming.length < rounds.length

theorem ample_upcoming (item : Item) : Ample operation? (item :: r.stream.upcoming) r := by
  intro _
  rw [List.length_cons]
  omega

theorem Ample.next {item : Item} {rounds : List Item} {o t : Token} {ts : List Token}
    {r₁ r₂ : Reader} (h : Ample operation? (item :: rounds) r)
    (hop : operation? r.lookahead.kind ≠ none) (ho : eat r = .ok o r₁)
    (ht : operation? t.kind = none) (hts : Eats r₁ (t :: ts) r₂) :
    Ample operation? rounds r₂ := by
  intro hop₂
  have hlt := h hop
  rw [List.length_cons] at hlt
  by_cases hr : r.stream.upcoming = []
  · -- The stream repeats its last token, and the operand began with it.
    have hlook := hts.lookahead_of_idle (idle_of_eat hr ho)
    rw [hlook, hts.lookahead_eq] at hop₂
    exact absurd ht hop₂
  · have hle := (Eats.cons ho hts).upcoming_le
    have hpos := List.length_pos_iff.2 hr
    rw [List.length_cons, List.length_cons] at hle
    omega

/-! ## The rule of a level -/

/-- The rule for the phrases of a level, which keeps at most `d` parentheses open at a time. -/
def ruleAt (source : String) (d : Nat) : Level → Rule Int
  | .factor => factorOf source (expressionWithin source d)
  | .term => termOf source (expressionWithin source d)
  | .expression => expressionWithin source (d + 1)

theorem ruleAt_eq_chain {d : Nat} {ℓ ℓ' : Level} (h : ℓ.operand? = some ℓ') :
    ruleAt source d ℓ = chain source ℓ.operation? (ruleAt source d ℓ') := by
  cases ℓ <;> cases h <;> rfl

end Reader

end Abacus

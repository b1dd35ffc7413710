import Abacus.Proofs.Rules

/-!
# Every way a rule can end

A rule that comes to a value has consumed a phrase worth that value, and looks at a token that does
not make the phrase longer. A rule that fails has consumed some tokens and then did one of four
things: an item of the stream was no token, the token in view cannot stand there, an operation on
two phrases has no value, or there was one parenthesis more than can be kept open. `Outcome` says
so, and this file shows that it is the whole truth about every rule from every reader.

The failures travel outwards unchanged. All that an enclosing rule adds are the tokens it consumed
before, and `Opens` is what has to be known about them: what they lead to, and that a phrase after
them can be completed to a phrase of the enclosing rule.
-/

namespace Abacus.Reader

/-- The tokens stand before a phrase of `ℓ'` inside a phrase of `ℓ`, and keep some of the `d`
parentheses open, which leaves `d'`. -/
structure Opens (d : Nat) (ℓ : Level) (d' : Nat) (ℓ' : Level) (pre : List Token) : Prop where
  leads : ∃ j, Leads pre .operand j ∧ d' + j = d
  complete : ∀ ts, Phrase ℓ' ts → ∃ us, Phrase ℓ (pre ++ (ts ++ us))

/-- An operation of a level, both of whose operands have values, has none itself. -/
inductive Breaks (source : String) (d : Nat) (ℓ : Level) (r : Reader) : Failure → Reader → Prop
  | intro {ℓ' : Level} {ts us : List Token} {o : Token} {op : Operation} {e f : Expr} {a b : Int}
      {z : Operation.Failure} {r₁ r₂ r₃ : Reader} (hℓ : ℓ.operand? = some ℓ')
      (hts : Eats r ts r₁) (he : Derives d ℓ ts e) (ha : e.eval = .ok a)
      (ho : eat r₁ = .ok o r₂) (hop : ℓ.operation? o.kind = some op)
      (hus : Eats r₂ us r₃) (hf : Derives d ℓ' us f) (hb : f.eval = .ok b)
      (hz : op.meaning a b = .error z) :
      Breaks source d ℓ r (.fault ⟨z.cause,
        z.span r.lookahead.span.start r₂.lookahead.span.start r₃.previousEnd, source⟩) r₃

/-- How a rule fails. -/
inductive Fails (source : String) (d : Nat) (ℓ : Level) (r : Reader) : Failure → Reader → Prop
  /-- The item after a token that can stand where it stands is no token. -/
  | item {ts : List Token} {due : Due} {m : Nat} {e : Failure} {r₁ r₂ : Reader}
      (hts : Eats r ts r₁) (hlead : Leads (ts ++ [r₁.lookahead]) due m)
      (he : eat r₁ = .error e r₂) : Fails source d ℓ r e r₂
  /-- The token in view cannot stand there, however many parentheses were open before. -/
  | mismatch {ts : List Token} {due : Due} {m : Nat} {x : Expectation} {r₁ : Reader}
      (hts : Eats r ts r₁) (hlead : Leads ts due m) (hm : due = .operator → m ≠ 0)
      (hstep : ∀ n, due.step r₁.lookahead.kind (n + m) = none)
      (hlegal : ∀ t, t.kind ∈ x.kinds → ∃ us, Phrase ℓ (ts ++ t :: us)) :
      Fails source d ℓ r
        (.fault ⟨.mismatch x r₁.lookahead, r₁.lookahead.span, source⟩) r₁
  /-- An operation somewhere within has no value. -/
  | operation {pre : List Token} {j d₀ : Nat} {ℓ₀ : Level} {e : Failure} {r₀ r₁ : Reader}
      (hpre : Eats r pre r₀) (hlead : Leads pre .operand j) (hd : d₀ ≤ d)
      (h : Breaks source d₀ ℓ₀ r₀ e r₁) : Fails source d ℓ r e r₁
  /-- One parenthesis more than `d` is open. -/
  | nesting {ts : List Token} {r₁ : Reader} (hts : Eats r ts r₁)
      (hlead : Leads ts .operand (d + 1)) :
      Fails source d ℓ r (.fault ⟨.nesting r₁.lookahead, r₁.lookahead.span, source⟩) r₁

/-- How a rule ends. -/
inductive Outcome (source : String) (d : Nat) (ℓ : Level) (r : Reader) :
    EStateM.Result Failure Reader Int → Prop
  | value {ts : List Token} {e : Expr} {v : Int} {r' : Reader} (hts : Eats r ts r')
      (he : Derives d ℓ ts e) (hv : e.eval = .ok v) (hstop : ℓ.Stops r'.lookahead.kind) :
      Outcome source d ℓ r (.ok v r')
  | failure {e : Failure} {r' : Reader} (h : Fails source d ℓ r e r') :
      Outcome source d ℓ r (.error e r')

variable {source : String} {d d' : Nat} {ℓ ℓ' : Level}

/-- A failure inside is a failure of the enclosing rule. -/
theorem Fails.enclose {r r₀ r' : Reader} {pre : List Token} {e : Failure} (hpre : Eats r pre r₀)
    (ho : Opens d ℓ d' ℓ' pre) (h : Fails source d' ℓ' r₀ e r') : Fails source d ℓ r e r' := by
  obtain ⟨⟨j, hlead₀, rfl⟩, hcomplete⟩ := ho
  cases h with
  | item hts hlead he =>
      have hall := hlead₀.append hlead
      rw [← List.append_assoc] at hall
      exact .item (hpre.append hts) hall he
  | @mismatch ts due m x _ hts hlead hm hstep hlegal =>
      refine .mismatch (hpre.append hts) (hlead₀.append hlead) ?_ ?_ ?_
      · intro hdue
        have := hm hdue
        omega
      · intro n
        rw [← Nat.add_assoc]
        exact hstep (n + j)
      · intro t ht
        obtain ⟨us, hus⟩ := hlegal t ht
        obtain ⟨vs, hvs⟩ := hcomplete _ hus
        exact ⟨us ++ vs, by simpa using hvs⟩
  | operation hts hlead hd hb =>
      exact .operation (hpre.append hts) (hlead₀.append hlead) (by omega) hb
  | nesting hts hlead =>
      refine .nesting (hpre.append hts) ?_
      have h := hlead₀.append hlead
      rwa [show j + (d' + 1) = d' + j + 1 by omega] at h

theorem opens_lift (h : ℓ.operand? = some ℓ') : Opens d ℓ d ℓ' [] where
  leads := ⟨0, leads_nil, rfl⟩
  complete := by
    rintro ts ⟨D, e, he⟩
    exact ⟨[], by simpa using (he.lift h).phrase⟩

theorem operator_of_operation? {k : Token.Kind} {op : Operation} (h : ℓ.operation? k = some op) :
    k.multiplicative? ≠ none ∨ k.additive? ≠ none := by
  cases ℓ with
  | factor => cases h
  | term => exact .inl (by rw [show k.multiplicative? = some op from h]; simp)
  | expression => exact .inr (by rw [show k.additive? = some op from h]; simp)

theorem opens_operator {ts : List Token} {o : Token} {op : Operation} {e : Expr}
    (hℓ : ℓ.operand? = some ℓ') (he : Derives d ℓ ts e) (hop : ℓ.operation? o.kind = some op) :
    Opens d ℓ d ℓ' (ts ++ [o]) where
  leads := ⟨0, he.leads.operator (operator_of_operation? hop), rfl⟩
  complete := by
    rintro us ⟨D, f, hf⟩
    have hd := he.mono (Nat.le_max_left d D)
    refine ⟨[], ?_⟩
    rw [List.append_nil, List.append_assoc]
    exact (hd.chain hℓ hop (hf.mono (Nat.le_max_right d D))).phrase

/-- A right parenthesis that completes whatever is still open. -/
def rightParen : Token :=
  ⟨.rightParen, none, ")", .nowhere⟩

theorem opens_leftParen {t : Token} (ht : t.kind = .leftParen) :
    Opens (d + 1) .factor d .expression [t] where
  leads := ⟨1, leads_leftParen ht, rfl⟩
  complete := by
    rintro ts ⟨D, e, he⟩
    exact ⟨[rightParen], (Derives.parens ht he rfl).phrase⟩

/-- A token with which an operand can begin does begin one. -/
theorem exists_factor {t : Token} (ht : t.kind ∈ Expectation.operand.kinds) :
    ∃ us, Phrase .factor (t :: us) := by
  rw [Expectation.kinds, List.mem_cons, List.mem_singleton] at ht
  rcases ht with ht | ht
  · exact ⟨[], 0, _, .integer ht⟩
  · have hone : Derives 0 .factor [⟨.integer, some 0, "0", .nowhere⟩] (.literal 0) :=
      .integer rfl
    exact ⟨_, 1, _, .parens (r := rightParen) ht hone.toExpression rfl⟩

/-! ## Factors -/

theorem step_operand_eq_none {k : Token.Kind} (hk : k ≠ .integer) (hk' : k ≠ .leftParen) (n : Nat) :
    Due.operand.step k n = none := by
  cases k <;> first | rfl | exact absurd rfl hk | exact absurd rfl hk'

theorem step_operator_eq_none {k : Token.Kind} (hk : k ≠ .rightParen)
    (hstop : Level.expression.Stops k) (n : Nat) : Due.operator.step k n = none := by
  obtain ⟨hm, ha⟩ := hstop
  cases k <;> first
    | rfl
    | exact absurd rfl hk
    | exact absurd hm (by decide)
    | exact absurd ha (by decide)

theorem step_operator_zero {k : Token.Kind} (hstop : Level.expression.Stops k) :
    Due.operator.step k 0 = none := by
  by_cases hk : k = .rightParen
  · rw [hk]; rfl
  · exact step_operator_eq_none hk hstop 0

/-- The end of a pair of parentheses, after an expression in them. -/
theorem parens_outcome {r r₁ r₂ : Reader} {t : Token} {ts : List Token} {e : Expr} {v : Int}
    (ht : t.kind = .leftParen) (heat : eat r = .ok t r₁) (hts : Eats r₁ ts r₂)
    (he : Derives d .expression ts e) (hv : e.eval = .ok v)
    (hstop : Level.expression.Stops r₂.lookahead.kind) :
    Outcome source (d + 1) .factor r
      (match expect source .rightParen r₂ with
      | .error e r₃ => .error e r₃
      | .ok _ r₃ => .ok v r₃) := by
  have hall : Eats r (t :: ts) r₂ := .cons heat hts
  have hlead : Leads (t :: ts) .operator 1 := (leads_leftParen ht).append he.leads
  rw [expect_eq]
  by_cases hk : r₂.lookahead.kind = .rightParen
  · rw [if_pos hk]
    cases hc : eat r₂ with
    | error e r₃ => exact .failure (.item hall (hlead.close hk) hc)
    | ok c r₃ =>
        have hck : c.kind = .rightParen := by rw [(eat_ok hc).1]; exact hk
        exact .value (.cons heat (hts.append (.single hc))) (.parens ht he hck) hv trivial
  · rw [if_neg hk]
    refine .failure (.mismatch hall hlead (fun _ => by omega) ?_ ?_)
    · intro n
      exact step_operator_eq_none hk hstop (n + 1)
    · intro c hc
      rw [Expectation.kinds, List.mem_singleton] at hc
      exact ⟨[], (Derives.parens ht he hc).phrase⟩

theorem factor_outcome {r : Reader} (hin : ∀ t r₁, t.kind = .leftParen → eat r = .ok t r₁ →
      (∀ e r₂, expressionWithin source d r₁ = .error e r₂ → Fails source d .factor r e r₂) ∧
      (∀ v r₂, expressionWithin source d r₁ = .ok v r₂ → ∃ d', d = d' + 1 ∧
        Outcome source d' .expression r₁ (.ok v r₂))) :
    Outcome source d .factor r (factorOf source (expressionWithin source d) r) := by
  rw [factorOf_eq]
  cases hk : r.lookahead.kind with
  | integer =>
      dsimp only
      cases heat : eat r with
      | error e r₁ => exact .failure (.item (.nil r) (leads_integer hk) heat)
      | ok t r₁ =>
          obtain ⟨rfl, -, -, -⟩ := eat_ok heat
          exact .value (.single heat) (.integer hk) rfl trivial
  | leftParen =>
      dsimp only
      cases heat : eat r with
      | error e r₁ => exact .failure (.item (.nil r) (leads_leftParen hk) heat)
      | ok t r₁ =>
          dsimp only
          have ht : t.kind = .leftParen := by rw [(eat_ok heat).1]; exact hk
          obtain ⟨herror, hok⟩ := hin t r₁ ht heat
          cases hres : expressionWithin source d r₁ with
          | error e r₂ => exact .failure (herror e r₂ hres)
          | ok v r₂ =>
              obtain ⟨d', rfl, ho⟩ := hok v r₂ hres
              cases ho with
              | value hts he hv hstop => exact parens_outcome ht heat hts he hv hstop
  | plus | minus | times | divide | rightParen | endOfInput =>
      refine .failure (.mismatch (.nil r) leads_nil (fun h => by cases h) ?_ ?_)
      · intro n
        exact step_operand_eq_none (by rw [hk]; simp) (by rw [hk]; simp) n
      · intro t ht
        exact exists_factor ht

/-! ## Chains -/

theorem chainTail_outcome {operand : Rule Int} (hℓ : ℓ.operand? = some ℓ')
    (h : ∀ r, Outcome source d ℓ' r (operand r)) {r : Reader} (rounds : List Item) :
    ∀ {left : Int} {r₁ : Reader} {ts : List Token} {e : Expr}, Ample ℓ.operation? rounds r₁ →
      Eats r ts r₁ → Derives d ℓ ts e → e.eval = .ok left → ℓ'.Stops r₁.lookahead.kind →
      Outcome source d ℓ r
        (chainTail source ℓ.operation? operand r.lookahead.span.start rounds left r₁) := by
  -- On the rounds. What has been consumed so far is a phrase worth `left`.
  induction rounds with
  | nil =>
      -- Rounds that are ample run out only where there is no operator.
      intro left r₁ ts e hample hts he hv hstop
      have hnone : ℓ.operation? r₁.lookahead.kind = none := by
        by_cases hnone : ℓ.operation? r₁.lookahead.kind = none
        · exact hnone
        · exact absurd (hample hnone) (Nat.not_lt_zero _)
      exact .value hts he hv ((Level.stops_iff hℓ).2 ⟨hstop, hnone⟩)
  | cons item rounds ih =>
      intro left r₁ ts e hample hts he hv hstop
      rw [chainTail_cons]
      cases hop : ℓ.operation? r₁.lookahead.kind with
      | none => exact .value hts he hv ((Level.stops_iff hℓ).2 ⟨hstop, hop⟩)
      | some op =>
          dsimp only
          have hoperator := operator_of_operation? hop
          cases ho : eat r₁ with
          | error f r₂ => exact .failure (.item hts (he.leads.operator hoperator) ho)
          | ok o r₂ =>
              dsimp only
              have hopo : ℓ.operation? o.kind = some op := by rw [(eat_ok ho).1]; exact hop
              have hout := h r₂
              generalize operand r₂ = result at hout
              cases hout with
              | failure hf =>
                  exact .failure (hf.enclose (hts.append (.single ho)) (opens_operator hℓ he hopo))
              | @value us f b r₃ hus hf hb hstop₃ =>
                  dsimp only
                  cases hz : op.meaning left b with
                  | error z =>
                      exact .failure (.operation (.nil r) leads_nil (Nat.le_refl d)
                        (.intro hℓ hts he hv ho hopo hus hf hb hz))
                  | ok v =>
                      obtain ⟨t, us', rfl, ht⟩ := hf.exists_cons
                      have hround := hample.next (by rw [hop]; simp) ho (ht ℓ) hus
                      exact ih hround (hts.append (.cons ho hus)) (he.chain hℓ hopo hf)
                        ((Expr.eval_binary hv hb).trans hz) hstop₃

theorem chain_outcome {operand : Rule Int} (hℓ : ℓ.operand? = some ℓ')
    (h : ∀ r, Outcome source d ℓ' r (operand r)) (r : Reader) :
    Outcome source d ℓ r (chain source ℓ.operation? operand r) := by
  rw [chain_eq]
  have hout := h r
  generalize operand r = result at hout
  cases hout with
  | failure hf => exact .failure (hf.enclose (.nil r) (opens_lift hℓ))
  | value hts he hv hstop =>
      exact chainTail_outcome hℓ h _ (ample_upcoming _) hts (he.lift hℓ) hv hstop

/-! ## All rules -/

theorem outcome_of_factor (hfactor : ∀ r, Outcome source d .factor r (ruleAt source d .factor r))
    (ℓ : Level) (r : Reader) : Outcome source d ℓ r (ruleAt source d ℓ r) := by
  have hterm : ∀ r, Outcome source d .term r (ruleAt source d .term r) :=
    fun r => chain_outcome (ℓ := .term) rfl hfactor r
  cases ℓ with
  | factor => exact hfactor r
  | term => exact hterm r
  | expression => exact chain_outcome (ℓ := .expression) rfl hterm r

theorem ruleAt_outcome (d : Nat) (ℓ : Level) (r : Reader) :
    Outcome source d ℓ r (ruleAt source d ℓ r) := by
  -- On the parentheses that can still be opened: the rule for a factor is the only one that goes
  -- down, and it goes down to an expression with one parenthesis less.
  induction d generalizing ℓ r with
  | zero =>
      refine outcome_of_factor (fun r => factor_outcome fun t r₁ ht heat => ?_) ℓ r
      refine ⟨fun e r₂ h => ?_, fun v r₂ h => by cases h⟩
      cases h
      exact .nesting (.single heat) (leads_leftParen ht)
  | succ d ih =>
      refine outcome_of_factor (fun r => factor_outcome fun t r₁ ht heat => ?_) ℓ r
      have hout : Outcome source d .expression r₁ (expressionWithin source (d + 1) r₁) :=
        ih .expression r₁
      refine ⟨fun e r₂ h => ?_, fun v r₂ h => ⟨d, rfl, h ▸ hout⟩⟩
      rw [h] at hout
      cases hout with
      | failure hf => exact hf.enclose (.single heat) (opens_leftParen ht)

theorem expression_outcome [Host] (source : String) (r : Reader) :
    Outcome source maxDepth .expression r (expression source r) :=
  ruleAt_outcome maxDepth .expression r

end Abacus.Reader

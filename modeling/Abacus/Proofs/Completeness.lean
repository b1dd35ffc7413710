import Abacus.Proofs.Outcome

/-!
# Every phrase is read for what it is worth

The other direction: where a phrase stands, followed by a token that does not make it longer, the
rule consumes exactly the phrase and comes to its value, or fails as the tree fails.

A derivation of a chain grows at its right end, and so does a chain while it is read. What carries
the induction is therefore not the answer of a rule but the state of its loop: `Reaches` says that
the rule has come to a value so far, with its loop still to go on from there. A phrase that is
followed by one more operator has been read that far, whatever comes of the rest.
-/

namespace Abacus.Reader

variable {source : String} {d : Nat} {ℓ ℓ' : Level} {op : Operation} {e f : Expr} {a b v : Int}
  {o : Token} {ts us : List Token} {r r₁ r₂ r₃ r' : Reader}

/-- The rule at `r` has come to the value `v` at `r'`; a chain goes on from there. -/
inductive Reaches (source : String) (d : Nat) : Level → Reader → Int → Reader → Prop
  | factor {r r' : Reader} {v : Int} (h : ruleAt source d .factor r = .ok v r') :
      Reaches source d .factor r v r'
  | chain {ℓ ℓ' : Level} {r r' : Reader} {v : Int} {rounds : List Item}
      (hℓ : ℓ.operand? = some ℓ') (hample : Ample ℓ.operation? rounds r')
      (h : ruleAt source d ℓ r = chainTail source ℓ.operation? (ruleAt source d ℓ')
        r.lookahead.span.start rounds v r') : Reaches source d ℓ r v r'

/-- A loop that finds nothing to go on with is done. -/
theorem Reaches.stop (h : Reaches source d ℓ r v r') (hstop : ℓ.Stops r'.lookahead.kind) :
    ruleAt source d ℓ r = .ok v r' := by
  cases h with
  | factor h => exact h
  | @chain _ ℓ' _ _ _ rounds hℓ hample h =>
      rw [h]
      cases rounds with
      | nil => rfl
      | cons item rounds => rw [chainTail_cons, ((Level.stops_iff hℓ).1 hstop).2]

theorem reaches_of_operand (hℓ : ℓ.operand? = some ℓ') (h : ruleAt source d ℓ' r = .ok v r') :
    Reaches source d ℓ r v r' := by
  refine .chain hℓ (ample_upcoming (.ok r'.lookahead)) ?_
  rw [ruleAt_eq_chain hℓ, chain_eq, h]

theorem ruleAt_of_operand_error {z : Failure} (hℓ : ℓ.operand? = some ℓ')
    (h : ruleAt source d ℓ' r = .error z r') : ruleAt source d ℓ r = .error z r' := by
  rw [ruleAt_eq_chain hℓ, chain_eq, h]

/-- A failure at the first token that is looked at fails the whole expression. -/
theorem expression_of_ruleAt_error [Host] {z : Failure}
    (h : ruleAt source maxDepth ℓ r = .error z r') : expression source r = .error z r' := by
  have hlift : ∀ {ℓ ℓ'}, ℓ.operand? = some ℓ' → ruleAt source maxDepth ℓ' r = .error z r' →
      ruleAt source maxDepth ℓ r = .error z r' := ruleAt_of_operand_error
  cases ℓ with
  | factor => exact hlift (ℓ := .expression) rfl (hlift (ℓ := .term) rfl h)
  | term => exact hlift (ℓ := .expression) rfl h
  | expression => exact h

/-- What becomes of a rule whose loop finds an operator. -/
theorem Reaches.operator (h : Reaches source d ℓ r a r₁) (hℓ : ℓ.operand? = some ℓ')
    (ho : eat r₁ = .ok o r₂) (hop : ℓ.operation? o.kind = some op) :
    ∃ item rounds, Ample ℓ.operation? (item :: rounds) r₁ ∧
      ruleAt source d ℓ r =
        match ruleAt source d ℓ' r₂ with
        | .error z r₃ => .error z r₃
        | .ok b r₃ =>
          match op.meaning a b with
          | .error z => .error (.fault ⟨z.cause, z.span r.lookahead.span.start
              r₂.lookahead.span.start r₃.previousEnd, source⟩) r₃
          | .ok v => chainTail source ℓ.operation? (ruleAt source d ℓ')
              r.lookahead.span.start rounds v r₃ := by
  rw [(eat_ok ho).1] at hop
  cases h with
  | factor => cases hℓ
  | @chain _ ℓ'' _ _ _ rounds hℓ' hample h =>
      obtain rfl : ℓ' = ℓ'' := Option.some.inj (hℓ.symm.trans hℓ')
      cases rounds with
      | nil => exact absurd (hample (by rw [hop]; simp)) (Nat.not_lt_zero _)
      | cons item rounds =>
          refine ⟨item, rounds, hample, ?_⟩
          rw [h, chainTail_cons, hop]
          dsimp only
          rewrite [ho]
          rfl

/-- The rule at `r` does justice to the tree of a phrase that ends at `r'`. -/
structure Completes (source : String) (d : Nat) (ℓ : Level) (e : Expr) (r r' : Reader) : Prop where
  value : ∀ v, e.eval = .ok v → Reaches source d ℓ r v r'
  failure : ∀ z, e.eval = .error z →
    ∃ span r'', ruleAt source d ℓ r = .error (.fault ⟨z.cause, span, source⟩) r''

theorem Completes.lift (h : Completes source d ℓ' e r r') (hℓ : ℓ.operand? = some ℓ')
    (hstop : ℓ'.Stops r'.lookahead.kind) : Completes source d ℓ e r r' where
  value v hv := reaches_of_operand hℓ ((h.value v hv).stop hstop)
  failure z hz := by
    obtain ⟨span, r'', h⟩ := h.failure z hz
    exact ⟨span, r'', ruleAt_of_operand_error hℓ h⟩

theorem Completes.chain (hl : Completes source d ℓ e r r₁) (hr : Completes source d ℓ' f r₂ r₃)
    (hℓ : ℓ.operand? = some ℓ') (ho : eat r₁ = .ok o r₂) (hop : ℓ.operation? o.kind = some op)
    (hus : Eats r₂ us r₃) (hf : Derives d ℓ' us f) (hstop : ℓ'.Stops r₃.lookahead.kind) :
    Completes source d ℓ (.binary op e f) r r₃ := by
  cases he : e.eval with
  | error z =>
      have heval : (Expr.binary op e f).eval = .error z := Expr.eval_binary_of_left he
      refine ⟨fun v hv => ?_, fun z' hz' => ?_⟩
      · rw [heval] at hv; cases hv
      · rw [heval] at hz'; cases hz'; exact hl.failure z he
  | ok a =>
      obtain ⟨item, rounds, hample, hrule⟩ := (hl.value a he).operator hℓ ho hop
      cases hfe : f.eval with
      | error z =>
          have heval : (Expr.binary op e f).eval = .error z := Expr.eval_binary_of_right he hfe
          refine ⟨fun v hv => ?_, fun z' hz' => ?_⟩
          · rw [heval] at hv; cases hv
          · rw [heval] at hz'
            cases hz'
            obtain ⟨span, r'', h⟩ := hr.failure z hfe
            rw [h] at hrule
            exact ⟨span, r'', hrule⟩
      | ok b =>
          have heval : (Expr.binary op e f).eval = op.meaning a b := Expr.eval_binary he hfe
          rw [(hr.value b hfe).stop hstop] at hrule
          dsimp only at hrule
          refine ⟨fun v hv => ?_, fun z hz => ?_⟩
          · rw [← heval, hv] at hrule
            obtain ⟨t, us', rfl, ht⟩ := hf.exists_cons
            have hop₁ : ℓ.operation? r₁.lookahead.kind ≠ none := by
              rw [← (eat_ok ho).1, hop]; simp
            exact .chain hℓ (hample.next hop₁ ho (ht ℓ) hus) hrule
          · rw [← heval, hz] at hrule
            exact ⟨_, _, hrule⟩

/-- A phrase is read for what it is worth, as far as the operands of its own rule go. -/
theorem completes_of_derives (h : Derives d ℓ ts e) :
    ∀ {r r'}, Eats r ts r' → (∀ ℓ', ℓ.operand? = some ℓ' → ℓ'.Stops r'.lookahead.kind) →
      Completes source d ℓ e r r' := by
  -- The loop has to be left open at the right end, where a derivation of a chain goes on: hence
  -- `Completes`, and a condition on the token behind the phrase for the operands only.
  induction h with
  | @integer d t ht =>
      intro r r' hts _
      have heat := hts.eq_of_single
      have hk : r.lookahead.kind = .integer := by rw [← (eat_ok heat).1]; exact ht
      refine ⟨fun v hv => .factor ?_, fun z hz => by cases hz⟩
      cases hv
      rw [ruleAt, factorOf_eq, hk, (eat_ok heat).1]
      dsimp only
      rw [heat]
  | @parens d l c ts e hl _ hc ih =>
      intro r r' hts _
      obtain ⟨r₁, heat, hts⟩ := eats_cons.1 hts
      obtain ⟨r₂, hts, hclose⟩ := eats_append.1 hts
      have heat₂ := hclose.eq_of_single
      have hk : r.lookahead.kind = .leftParen := by rw [← (eat_ok heat).1]; exact hl
      have hk₂ : r₂.lookahead.kind = .rightParen := by rw [← (eat_ok heat₂).1]; exact hc
      have hin : Completes source d .expression e r₁ r₂ := ih hts fun ℓ' hℓ' => by
        cases hℓ'
        rw [hk₂]
        rfl
      refine ⟨fun v hv => .factor ?_, fun z hz => ?_⟩
      · have hv : expressionWithin source (d + 1) r₁ = .ok v r₂ :=
          (hin.value v hv).stop (by rw [hk₂]; exact ⟨rfl, rfl⟩)
        rw [ruleAt, factorOf_eq, hk]
        dsimp only
        rw [heat]
        dsimp only
        rw [hv]
        dsimp only
        rw [expect_eq, if_pos hk₂, heat₂]
      · obtain ⟨span, r'', hz⟩ := hin.failure z hz
        have hz : expressionWithin source (d + 1) r₁ = _ := hz
        refine ⟨span, r'', ?_⟩
        rw [ruleAt, factorOf_eq, hk]
        dsimp only
        rw [heat]
        dsimp only
        rw [hz]
  | factor _ ih =>
      intro r r' hts hstop
      exact (ih hts fun ℓ' hℓ' => by cases hℓ').lift rfl (hstop _ rfl)
  | term _ ih =>
      intro r r' hts hstop
      exact (ih hts fun ℓ' hℓ' => by cases hℓ'; trivial).lift rfl (hstop _ rfl)
  | multiplicative _ ho hr ihl ihr =>
      intro r r' hts hstop
      obtain ⟨r₁, hts, hus⟩ := eats_append.1 hts
      obtain ⟨r₂, heat, hus⟩ := eats_cons.1 hus
      exact Completes.chain (ℓ := .term) (ihl hts fun ℓ' hℓ' => by cases hℓ'; trivial)
        (ihr hus fun ℓ' hℓ' => by cases hℓ') rfl heat ho hus hr trivial
  | @additive d ts us o op e f _ ho hr ihl ihr =>
      intro r r' hts hstop
      obtain ⟨r₁, hts, hus⟩ := eats_append.1 hts
      obtain ⟨r₂, heat, hus⟩ := eats_cons.1 hus
      have hop : Level.expression.operation? r₁.lookahead.kind = some op := by
        rw [← (eat_ok heat).1]; exact ho
      exact Completes.chain (ℓ := .expression)
        (ihl hts fun ℓ' hℓ' => Level.stops_of_operation? hℓ' hop)
        (ihr hus fun ℓ' hℓ' => by cases hℓ'; trivial) rfl heat ho hus hr (hstop _ rfl)

/-- A phrase that its rule cannot make longer has its value, if it has one, read off it. -/
theorem ruleAt_of_derives (h : Derives d ℓ ts e) (hts : Eats r ts r')
    (hstop : ℓ.Stops r'.lookahead.kind) (hv : e.eval = .ok v) :
    ruleAt source d ℓ r = .ok v r' :=
  ((completes_of_derives h hts fun _ hℓ' => ((Level.stops_iff hℓ').1 hstop).1).value v hv).stop
    hstop

/-- An operation without a value is found out, and blamed on the stretch it is read from. -/
theorem ruleAt_of_breaks {z : Failure} (h : Breaks source d ℓ r z r')
    (hstop : ∀ ℓ', ℓ.operand? = some ℓ' → ℓ'.Stops r'.lookahead.kind) :
    ruleAt source d ℓ r = .error z r' := by
  cases h with
  | @intro ℓ' ts us o op e f a b z r₁ r₂ r₃ hℓ hts he ha ho hop hus hf hb hz =>
      have hop₁ : ℓ.operation? r₁.lookahead.kind = some op := by rw [← (eat_ok ho).1]; exact hop
      have hreach : Reaches source d ℓ r a r₁ :=
        (completes_of_derives he hts fun _ hℓ' => Level.stops_of_operation? hℓ' hop₁).value a ha
      obtain ⟨item, rounds, -, hrule⟩ := hreach.operator hℓ ho hop
      rw [hrule, ruleAt_of_derives hf hus (hstop ℓ' hℓ) hb]
      dsimp only
      rw [hz]

end Abacus.Reader

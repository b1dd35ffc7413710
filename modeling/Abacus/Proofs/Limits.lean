import Abacus.Proofs.Outcome

/-!
# One rule under two limits

A rule that may keep `d` parentheses open at a time, beside the same rule that may keep more of them
open. The two do the same, token for token, until `d` parentheses are open and the next token is
another left one. The first rule consumes that token still and gives up then, whatever the second
one goes on to do. Before that neither has consumed tokens that keep more than `d` parentheses open:
what is closed again is forgotten, on every way through the loops and the parentheses.

The rules are compared as they are built, one limit above the other, and so the induction is the one
that builds them.
-/

namespace Abacus

namespace Reader

variable {source : String} {d d' d₀ j : Nat} {ℓ ℓ' : Level} {r r₀ : Reader} {pre ts : List Token}
  {x x' : EStateM.Result Failure Reader Int}

/-- How a rule ends that may keep `d` parentheses open, and how it ends if it may keep more of them
open: in the same way, and the tokens that were consumed before a failure keep no more than `d` open
at a time; or else one parenthesis more has been consumed than `d` can count. -/
inductive Compares (source : String) (d : Nat) (r : Reader) :
    EStateM.Result Failure Reader Int → EStateM.Result Failure Reader Int → Prop
  | value {v : Int} {r' : Reader} : Compares source d r (.ok v r') (.ok v r')
  | failure {ts : List Token} {e : Failure} {r' : Reader} (hts : Eats r ts r')
      (h : Nested d ts) : Compares source d r (.error e r') (.error e r')
  | item {ts : List Token} {e : Failure} {r₁ r' : Reader} (hts : Eats r ts r₁)
      (h : Nested d ts) (he : eat r₁ = .error e r') :
      Compares source d r (.error e r') (.error e r')
  | nesting {us : List Token} {t : Token} {r' : Reader}
      {x' : EStateM.Result Failure Reader Int} (hus : Eats r (us ++ [t]) r') (h : Nested d us)
      (hopen : opened us = closed us + d) (ht : t.kind = .leftParen) :
      Compares source d r
        (.error (.fault ⟨.nesting r'.lookahead, r'.lookahead.span, source⟩) r') x'

/-- What a rule inside does is compared for the enclosing rule, which has consumed some tokens
before and keeps `j` of their parentheses open. -/
theorem Compares.enclose (hpre : Eats r pre r₀) (hn : Nested d pre)
    (hb : opened pre = closed pre + j) (hd : d₀ + j = d) (h : Compares source d₀ r₀ x x') :
    Compares source d r x x' := by
  cases h with
  | value => exact .value
  | failure hts h => exact .failure (hpre.append hts) (hn.append hb h hd)
  | item hts h he => exact .item (hpre.append hts) (hn.append hb h hd) he
  | @nesting us t r' _ hus h hopen ht =>
      have hall := hpre.append hus
      rw [← List.append_assoc] at hall
      refine .nesting hall (hn.append hb h hd) ?_ ht
      rw [opened_append, closed_append]
      omega

/-- Two rules that go on with the values they have come to. -/
theorem Compares.bind {f f' : Int → Reader → EStateM.Result Failure Reader Int} :
    Compares source d r x x' →
    (∀ v r₁, x = .ok v r₁ → Compares source d r (f v r₁) (f' v r₁)) →
    Compares source d r
      (match x with
      | .error e r₁ => .error e r₁
      | .ok v r₁ => f v r₁)
      (match x' with
      | .error e r₁ => .error e r₁
      | .ok v r₁ => f' v r₁) := by
  intro h hf
  cases h with
  | value => exact hf _ _ rfl
  | failure hts h => exact .failure hts h
  | item hts h he => exact .item hts h he
  | nesting hus h hopen ht => exact .nesting hus h hopen ht

/-! ## One rule -/

theorem compares_parens {v : Int} {r r₁ r₂ : Reader} {t : Token} (heat : eat r = .ok t r₁)
    (hts : Eats r₁ ts r₂) (hn : Nested d (t :: ts)) :
    Compares source d r
      (match expect source .rightParen r₂ with
      | .error e r₃ => .error e r₃
      | .ok _ r₃ => .ok v r₃)
      (match expect source .rightParen r₂ with
      | .error e r₃ => .error e r₃
      | .ok _ r₃ => .ok v r₃) := by
  have hall : Eats r (t :: ts) r₂ := .cons heat hts
  rw [expect_eq]
  by_cases hk : r₂.lookahead.kind = .rightParen
  · rw [if_pos hk]
    cases hc : eat r₂ with
    | error e r₃ => exact .item hall hn hc
    | ok c r₃ => exact .value
  · rw [if_neg hk]
    exact .failure hall hn

/-- A factor, if the limits leave as many parentheses for the inside as they should. -/
theorem compares_factorOf {inner inner' : Rule Int}
    (hin : ∀ t r₁, t.kind = .leftParen → eat r = .ok t r₁ →
      Compares source d r (inner r₁) (inner' r₁) ∧
      ∀ v r₂, inner r₁ = .ok v r₂ → ∃ ts, Eats r₁ ts r₂ ∧ Nested d (t :: ts)) :
    Compares source d r (factorOf source inner r) (factorOf source inner' r) := by
  rw [factorOf_eq, factorOf_eq]
  cases hk : r.lookahead.kind with
  | integer =>
      dsimp only
      cases heat : eat r with
      | error e r₁ => exact .item (.nil r) nested_nil heat
      | ok t r₁ => exact .value
  | leftParen =>
      dsimp only
      cases heat : eat r with
      | error e r₁ => exact .item (.nil r) nested_nil heat
      | ok t r₁ =>
          dsimp only
          have ht : t.kind = .leftParen := by rw [(eat_ok heat).1]; exact hk
          obtain ⟨hcompares, hvalue⟩ := hin t r₁ ht heat
          refine hcompares.bind fun v r₂ hv => ?_
          obtain ⟨ts, hts, hn⟩ := hvalue v r₂ hv
          exact compares_parens heat hts hn
  | plus | minus | times | divide | rightParen | endOfInput => exact .failure (.nil r) nested_nil

theorem compares_chainTail {operand operand' : Rule Int} {start : Position}
    (h : ∀ r, Compares source d r (operand r) (operand' r))
    (hvalue : ∀ {r v r'}, operand r = .ok v r' →
      ∃ ts, Eats r ts r' ∧ Nested d ts ∧ Leads ts .operator 0) (rounds : List Item) :
    ∀ {left : Int} {r₁ : Reader} {ts : List Token}, Eats r ts r₁ → Nested d ts →
      Leads ts .operator 0 →
      Compares source d r
        (chainTail source ℓ.operation? operand start rounds left r₁)
        (chainTail source ℓ.operation? operand' start rounds left r₁) := by
  -- On the rounds. What has been consumed so far leaves no parenthesis open.
  induction rounds with
  | nil =>
      intro left r₁ ts _ _ _
      exact .value
  | cons item rounds ih =>
      intro left r₁ ts hts hn hlead
      rw [chainTail_cons, chainTail_cons]
      cases hop : ℓ.operation? r₁.lookahead.kind with
      | none => exact .value
      | some op =>
          dsimp only
          cases ho : eat r₁ with
          | error e r₂ => exact .item hts hn ho
          | ok o r₂ =>
              dsimp only
              have hopo : ℓ.operation? o.kind = some op := by rw [(eat_ok ho).1]; exact hop
              have hlead₂ := hlead.operator (operator_of_operation? hopo)
              have hb := hlead₂.balance
              have hn₂ : Nested d (ts ++ [o]) := hn.concat (by omega)
              have hts₂ := hts.append (.single ho)
              refine ((h r₂).enclose hts₂ hn₂ hb rfl).bind fun right r₃ hv => ?_
              obtain ⟨us, hus, hnus, hleadus⟩ := hvalue hv
              have hall := hts₂.append hus
              have hnall := hn₂.append hb hnus rfl
              cases hz : op.meaning left right with
              | error z => exact .failure hall hnall
              | ok v => exact ih hall hnall (hlead₂.append hleadus)

/-- What is consumed where a rule comes to a value. -/
theorem nested_of_ok {v : Int} {r' : Reader} (h : ruleAt source d ℓ r = .ok v r') :
    ∃ ts, Eats r ts r' ∧ Nested d ts ∧ Leads ts .operator 0 := by
  have hout : Outcome source d ℓ r (ruleAt source d ℓ r) := ruleAt_outcome d ℓ r
  rw [h] at hout
  cases hout with
  | value hts he _ _ => exact ⟨_, hts, he.nested, he.leads⟩

theorem compares_chain (hℓ : ℓ.operand? = some ℓ')
    (h : ∀ r, Compares source d r (ruleAt source d ℓ' r) (ruleAt source d' ℓ' r)) (r : Reader) :
    Compares source d r (ruleAt source d ℓ r) (ruleAt source d' ℓ r) := by
  rw [ruleAt_eq_chain hℓ, ruleAt_eq_chain hℓ, chain_eq, chain_eq]
  refine (h r).bind fun v r₁ hv => ?_
  obtain ⟨ts, hts, hn, hlead⟩ := nested_of_ok hv
  exact compares_chainTail h nested_of_ok _ hts hn hlead

/-- A rule that may keep more parentheses open does the same, up to the first one too many. -/
theorem compares_ruleAt (hd : d ≤ d') (ℓ : Level) (r : Reader) :
    Compares source d r (ruleAt source d ℓ r) (ruleAt source d' ℓ r) := by
  have hlevels : ∀ {d d'}, (∀ r, Compares source d r (ruleAt source d .factor r)
      (ruleAt source d' .factor r)) → ∀ ℓ r,
      Compares source d r (ruleAt source d ℓ r) (ruleAt source d' ℓ r) := by
    intro d d' hfactor ℓ r
    have hterm := compares_chain (ℓ := .term) rfl hfactor
    cases ℓ with
    | factor => exact hfactor r
    | term => exact hterm r
    | expression => exact compares_chain (ℓ := .expression) rfl hterm r
  -- On the parentheses that can still be opened, as the rules are built.
  induction d generalizing d' ℓ r with
  | zero =>
      refine hlevels (fun r => compares_factorOf fun t r₁ ht heat => ⟨?_, ?_⟩) ℓ r
      · exact .nesting (.single heat) nested_nil rfl ht
      · intro v r₂ h
        cases h
  | succ d ih =>
      obtain ⟨n, rfl⟩ : ∃ n, d' = n + 1 := ⟨d' - 1, by omega⟩
      refine hlevels (fun r => compares_factorOf fun t r₁ ht heat => ?_) ℓ r
      have hb := (leads_leftParen ht).balance
      have hone : Nested (d + 1) [t] := nested_singleton (by omega)
      refine ⟨(ih (by omega) .expression r₁).enclose (.single heat) hone hb rfl, ?_⟩
      intro v r₂ h
      obtain ⟨ts, hts, hn, -⟩ := nested_of_ok (ℓ := .expression) h
      exact ⟨ts, hts, hone.append hb hn rfl⟩

end Reader

end Abacus

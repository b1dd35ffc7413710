import Abacus.Proofs.SyntaxErrors

/-!
# The walk knows the grammar

Every sentence survives the walk of `scan`, and leaves it with an operator due and no parenthesis
open. The other direction holds as well, so that a sentence can be told by walking over it once.

The argument keeps what has been walked over in the shape in which a parser would have it on its
stack. Before each parenthesis that is still open there may be an expression that waits, with an
operator behind it, and on top there is one more of these or else a whole expression. Each token
that the walk lets pass keeps that shape. With nothing open, and an operator due, it is the shape of
a sentence; and since from every place the walk can be brought there, the tokens that survive are
those with which a sentence begins.
-/

namespace Abacus

variable {ts us ps pre : List Token} {t o l : Token} {k : Token.Kind} {n m : Nat}
  {due due' : Due} {s s' : Due × Nat}

/-- Nothing, or an expression with an operator behind it. -/
def Pending (ts : List Token) : Prop :=
  ts = [] ∨ ∃ us o, ts = us ++ [o] ∧ Sentence us ∧
    (o.kind.multiplicative? ≠ none ∨ o.kind.additive? ≠ none)

/-- Tokens up to the last parenthesis that is still open, `n` of them in all. -/
inductive Unclosed : Nat → List Token → Prop
  | nil : Unclosed 0 []
  | paren {n : Nat} {pre ps : List Token} {l : Token} (h : Unclosed n pre) (hps : Pending ps)
      (hl : l.kind = .leftParen) : Unclosed (n + 1) (pre ++ ps ++ [l])

/-- What can stand behind the last open parenthesis. -/
def Due.Top : Due → List Token → Prop
  | .operand => Pending
  | .operator => Sentence

/-- The shape of tokens after which `due` is due and `n` parentheses are open. -/
def Stacked (due : Due) (n : Nat) (ts : List Token) : Prop :=
  ∃ pre us, ts = pre ++ us ∧ Unclosed n pre ∧ due.Top us

/-! ## A factor in its place -/

/-- A factor goes with the operator before it, and a tight operator takes no more than the last
term along. -/
theorem Sentence.append_factor (h : Sentence ts)
    (ho : o.kind.multiplicative? ≠ none ∨ o.kind.additive? ≠ none) (hf : Phrase .factor us) :
    Sentence (ts ++ o :: us) := by
  obtain ⟨d, e, he⟩ := h
  obtain ⟨d', f, hf⟩ := hf
  obtain ⟨D, he, hf⟩ : ∃ D, Derives D .expression ts e ∧ Derives D .factor us f :=
    ⟨max d d', he.mono (Nat.le_max_left d d'), hf.mono (Nat.le_max_right d d')⟩
  rcases ho with ho | ho
  · obtain ⟨op, hop⟩ := Option.ne_none_iff_exists'.1 ho
    cases he with
    | term he => exact (Derives.term (.multiplicative he hop hf)).phrase
    | additive hl ho' hr =>
        have h := Derives.additive hl ho' (.multiplicative hr hop hf)
        rw [List.append_assoc, List.cons_append]
        exact h.phrase
  · obtain ⟨op, hop⟩ := Option.ne_none_iff_exists'.1 ho
    exact (Derives.additive he hop (.factor hf)).phrase

theorem Pending.append_factor (h : Pending ps) (hf : Phrase .factor us) : Sentence (ps ++ us) := by
  rcases h with rfl | ⟨ts, o, rfl, hts, ho⟩
  · obtain ⟨d, f, hf⟩ := hf
    exact hf.toExpression.phrase
  · rw [List.append_assoc]
    exact hts.append_factor ho hf

/-! ## One token more -/

/-- What the walk lets pass. -/
theorem Due.step_cases (h : due.step k n = some (due', m)) :
    (due = .operand ∧ k = .integer ∧ due' = .operator ∧ m = n) ∨
    (due = .operand ∧ k = .leftParen ∧ due' = .operand ∧ m = n + 1) ∨
    (due = .operator ∧ (k.multiplicative? ≠ none ∨ k.additive? ≠ none) ∧ due' = .operand ∧
      m = n) ∨
    (due = .operator ∧ k = .rightParen ∧ due' = .operator ∧ n = m + 1) := by
  cases due <;> cases k <;> cases n <;>
    simp only [Due.step, Option.some.injEq, Prod.mk.injEq, reduceCtorEq] at h <;>
    obtain ⟨rfl, rfl⟩ := h <;> simp [Token.Kind.multiplicative?, Token.Kind.additive?]

theorem Stacked.step (h : Stacked due n ts) (hstep : due.step t.kind n = some (due', m)) :
    Stacked due' m (ts ++ [t]) := by
  obtain ⟨pre, us, rfl, hpre, hus⟩ := h
  rcases Due.step_cases hstep with
    ⟨rfl, hk, rfl, rfl⟩ | ⟨rfl, hk, rfl, rfl⟩ | ⟨rfl, hk, rfl, rfl⟩ | ⟨rfl, hk, rfl, rfl⟩
  · have hone : Phrase .factor [t] := ⟨0, _, .integer hk⟩
    exact ⟨pre, us ++ [t], by rw [List.append_assoc], hpre, Pending.append_factor hus hone⟩
  · exact ⟨pre ++ us ++ [t], [], by rw [List.append_nil], hpre.paren hus hk, .inl rfl⟩
  · exact ⟨pre, us ++ [t], by rw [List.append_assoc], hpre, .inr ⟨us, t, rfl, hus, hk⟩⟩
  · -- The parenthesis that closes makes a factor of what is on top, for what waited below.
    cases hpre with
    | @paren _ pre ps l hpre hps hl =>
        obtain ⟨d, e, he⟩ := hus
        have hfactor : Phrase .factor (l :: (us ++ [t])) := ⟨d + 1, e, .parens hl he hk⟩
        exact ⟨pre, ps ++ l :: (us ++ [t]), by simp, hpre, hps.append_factor hfactor⟩

theorem Stacked.scan (h : Stacked s.1 s.2 pre) (hs : scan s ts = some s') :
    Stacked s'.1 s'.2 (pre ++ ts) := by
  induction ts generalizing s pre with
  | nil =>
      rw [Abacus.scan, Option.some.injEq] at hs
      rwa [List.append_nil, ← hs]
  | cons t ts ih =>
      rw [Abacus.scan] at hs
      cases hstep : s.1.step t.kind s.2 with
      | none => rw [hstep] at hs; cases hs
      | some s₁ =>
          rw [hstep, Option.bind_some] at hs
          have h₁ : Stacked s₁.1 s₁.2 (pre ++ [t]) := h.step hstep
          rw [← List.singleton_append, ← List.append_assoc]
          exact ih h₁ hs

/-! ## Sentences and their beginnings -/

theorem sentence_iff_scan : Sentence ts ↔ scan (.operand, 0) ts = some (.operator, 0) := by
  refine ⟨Sentence.scan_eq, fun h => ?_⟩
  have hstart : Stacked .operand 0 [] := ⟨[], [], rfl, .nil, .inl rfl⟩
  obtain ⟨pre, us, hts, hpre, hus⟩ := Stacked.scan (s := (.operand, 0)) hstart h
  cases hpre
  rw [List.nil_append, List.nil_append] at hts
  rw [hts]
  exact hus

theorem scan_ones_replicate (n : Nat) :
    scan (.operator, n) (ones (List.replicate n .rightParen)) = some (.operator, 0) := by
  induction n with
  | zero => rfl
  | succ n ih =>
      rw [List.replicate_succ]
      exact ih

/-- From every place on, a walk can be brought to the end of a sentence. -/
theorem exists_scan_eq (s : Due × Nat) : ∃ us, scan s us = some (.operator, 0) := by
  obtain ⟨due, n⟩ := s
  cases due with
  | operator => exact ⟨_, scan_ones_replicate n⟩
  | operand => exact ⟨ones (.integer :: List.replicate n .rightParen), scan_ones_replicate n⟩

theorem viable_iff_scan : Viable ts ↔ scan (.operand, 0) ts ≠ none := by
  refine ⟨Viable.scan_ne_none, fun h => ?_⟩
  obtain ⟨s, hs⟩ := Option.ne_none_iff_exists'.1 h
  obtain ⟨us, hus⟩ := exists_scan_eq s
  refine ⟨us, sentence_iff_scan.2 ?_⟩
  rw [scan_append, hs, Option.bind_some, hus]

theorem Leads.viable (h : Leads ts due m) : Viable ts := by
  refine viable_iff_scan.2 ?_
  rw [h 0]
  simp

instance (ts : List Token) : Decidable (Sentence ts) :=
  decidable_of_iff _ sentence_iff_scan.symm

instance (ts : List Token) : Decidable (Viable ts) :=
  decidable_of_iff _ viable_iff_scan.symm

/-! ## Kinds are enough -/

theorem scan_ones (s : Due × Nat) (ts : List Token) :
    scan s (ones (ts.map Token.kind)) = scan s ts := by
  induction ts generalizing s with
  | nil => rfl
  | cons t ts ih =>
      show (s.1.step t.kind s.2).bind (fun s' => scan s' (ones (ts.map Token.kind))) = _
      rw [scan]
      congr 1
      funext s'
      exact ih s'

theorem sentence_ones : Sentence (ones (ts.map Token.kind)) ↔ Sentence ts := by
  rw [sentence_iff_scan, sentence_iff_scan, scan_ones]

theorem viable_ones : Viable (ones (ts.map Token.kind)) ↔ Viable ts := by
  rw [viable_iff_scan, viable_iff_scan, scan_ones]

example : Sentence (ones [.leftParen, .integer, .plus, .integer, .rightParen, .times, .integer]) ∧
    ¬ Viable (ones [.integer, .rightParen]) := by decide

end Abacus

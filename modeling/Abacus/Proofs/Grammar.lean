import Abacus.Proofs.Arithmetic

/-!
# The grammar, and what its phrases are worth

The reader builds no tree and knows its grammar only as a set of loops. Here the grammar stands on
its own: a phrase of a rule is a list of tokens with a derivation, the derivation names the tree
that the phrase spells, and the tree has a value worked out from the left, operands first.

* expression = term {("+" | "-") term}
* term = factor {("*" | "/") factor}
* factor = integer | "(" expression ")"

A chain is derived from its left end, so that the tree of a chain leans to the left. Parentheses
leave no trace in the tree; how many of them are open at a time is the first index of `Derives`,
an upper bound.
-/

namespace Abacus

/-- A tree of operations on integers. -/
inductive Expr where
  | literal (n : Int)
  | binary (op : Operation) (left right : Expr)
deriving DecidableEq

namespace Expr

/-- The value of a tree: that of the left operand, then that of the right one, then the operation.
The first failure on that way stands. -/
def eval : Expr → Except Operation.Failure Int
  | .literal n => .ok n
  | .binary op left right =>
    match left.eval with
    | .error z => .error z
    | .ok a =>
      match right.eval with
      | .error z => .error z
      | .ok b => op.meaning a b

variable {op : Operation} {left right : Expr} {a b v : Int} {z : Operation.Failure}

theorem eval_binary (hl : left.eval = .ok a) (hr : right.eval = .ok b) :
    (binary op left right).eval = op.meaning a b := by
  rw [eval, hl, hr]

theorem eval_binary_of_left (hl : left.eval = .error z) :
    (binary op left right).eval = .error z := by
  rw [eval, hl]

theorem eval_binary_of_right (hl : left.eval = .ok a) (hr : right.eval = .error z) :
    (binary op left right).eval = .error z := by
  rw [eval, hl, hr]

end Expr

/-- The rules of the grammar, the tightest first. -/
inductive Level where
  | factor
  | term
  | expression
deriving DecidableEq

namespace Level

/-- The rule whose phrases a rule chains. -/
def operand? : Level → Option Level
  | .factor => none
  | .term => some .factor
  | .expression => some .term

/-- The operators that a rule chains with. -/
def operation? : Level → Token.Kind → Option Operation
  | .factor => fun _ => none
  | .term => Token.Kind.multiplicative?
  | .expression => Token.Kind.additive?

/-- A token of this kind after a phrase of the rule does not make the phrase longer. -/
def Stops : Level → Token.Kind → Prop
  | .factor, _ => True
  | .term, k => k.multiplicative? = none
  | .expression, k => k.multiplicative? = none ∧ k.additive? = none

variable {ℓ ℓ' : Level} {k : Token.Kind}

theorem stops_iff (h : ℓ.operand? = some ℓ') :
    ℓ.Stops k ↔ ℓ'.Stops k ∧ ℓ.operation? k = none := by
  cases ℓ with
  | factor => cases h
  | term => cases h; simp [Stops, operation?]
  | expression => cases h; simp [Stops, operation?]

/-- An operator of a rule ends every phrase of the rule for its operands. -/
theorem stops_of_operation? {op : Operation} (h : ℓ.operand? = some ℓ')
    (hop : ℓ.operation? k = some op) : ℓ'.Stops k := by
  cases ℓ with
  | factor => cases h
  | term => cases h; trivial
  | expression => cases h; cases k <;> simp_all [Stops, operation?, Token.Kind.additive?,
      Token.Kind.multiplicative?]

theorem stops_expression_iff :
    Level.expression.Stops k ↔ k ∉ [.plus, .minus, .times, .divide] := by
  cases k <;> simp [Stops, Token.Kind.multiplicative?, Token.Kind.additive?]

theorem stops_of_endOfInput (h : k = .endOfInput) (ℓ : Level) : ℓ.Stops k := by
  rw [h]
  cases ℓ with
  | factor => trivial
  | term => rfl
  | expression => exact ⟨rfl, rfl⟩

end Level

/-- The phrases of a rule in which at most `d` parentheses are open at a time, each with the tree
that it spells. -/
inductive Derives : Nat → Level → List Token → Expr → Prop where
  | integer {d : Nat} {t : Token} (ht : t.kind = .integer) :
      Derives d .factor [t] (.literal t.number)
  | parens {d : Nat} {l r : Token} {ts : List Token} {e : Expr} (hl : l.kind = .leftParen)
      (h : Derives d .expression ts e) (hr : r.kind = .rightParen) :
      Derives (d + 1) .factor (l :: (ts ++ [r])) e
  | factor {d : Nat} {ts : List Token} {e : Expr} (h : Derives d .factor ts e) :
      Derives d .term ts e
  | multiplicative {d : Nat} {ts us : List Token} {o : Token} {op : Operation} {e f : Expr}
      (hl : Derives d .term ts e) (ho : o.kind.multiplicative? = some op)
      (hr : Derives d .factor us f) : Derives d .term (ts ++ o :: us) (.binary op e f)
  | term {d : Nat} {ts : List Token} {e : Expr} (h : Derives d .term ts e) :
      Derives d .expression ts e
  | additive {d : Nat} {ts us : List Token} {o : Token} {op : Operation} {e f : Expr}
      (hl : Derives d .expression ts e) (ho : o.kind.additive? = some op)
      (hr : Derives d .term us f) : Derives d .expression (ts ++ o :: us) (.binary op e f)

/-- The phrases of a rule, however deep their parentheses go. -/
def Phrase (ℓ : Level) (ts : List Token) : Prop :=
  ∃ d e, Derives d ℓ ts e

namespace Derives

variable {d : Nat} {ℓ ℓ' : Level} {ts us : List Token} {e f : Expr}

theorem phrase (h : Derives d ℓ ts e) : Phrase ℓ ts :=
  ⟨d, e, h⟩

theorem lift (hℓ : ℓ.operand? = some ℓ') (h : Derives d ℓ' ts e) : Derives d ℓ ts e := by
  cases ℓ with
  | factor => cases hℓ
  | term => cases hℓ; exact .factor h
  | expression => cases hℓ; exact .term h

theorem chain {o : Token} {op : Operation} (hℓ : ℓ.operand? = some ℓ') (hl : Derives d ℓ ts e)
    (ho : ℓ.operation? o.kind = some op) (hr : Derives d ℓ' us f) :
    Derives d ℓ (ts ++ o :: us) (.binary op e f) := by
  cases ℓ with
  | factor => cases hℓ
  | term => cases hℓ; exact .multiplicative hl ho hr
  | expression => cases hℓ; exact .additive hl ho hr

/-- Every phrase is an expression. -/
theorem toExpression (h : Derives d ℓ ts e) : Derives d .expression ts e := by
  cases ℓ with
  | factor => exact .term (.factor h)
  | term => exact .term h
  | expression => exact h

/-- A phrase does not begin with an operator. -/
theorem exists_cons (h : Derives d ℓ ts e) :
    ∃ t us, ts = t :: us ∧ ∀ ℓ : Level, ℓ.operation? t.kind = none := by
  induction h with
  | integer ht => exact ⟨_, [], rfl, fun ℓ => by rw [ht]; cases ℓ <;> rfl⟩
  | parens hl _ _ _ => exact ⟨_, _, rfl, fun ℓ => by rw [hl]; cases ℓ <;> rfl⟩
  | factor _ ih | term _ ih => exact ih
  | multiplicative _ _ _ ihl _ | additive _ _ _ ihl _ =>
      obtain ⟨t, us, rfl, ht⟩ := ihl
      exact ⟨t, _, rfl, ht⟩

theorem mono (h : Derives d ℓ ts e) : ∀ {d'}, d ≤ d' → Derives d' ℓ ts e := by
  induction h with
  | integer ht => intro d' _; exact .integer ht
  | parens hl _ hr ih =>
      intro d' hd
      obtain ⟨n, rfl⟩ : ∃ n, d' = n + 1 := ⟨d' - 1, by omega⟩
      exact .parens hl (ih (by omega)) hr
  | factor _ ih => intro d' hd; exact .factor (ih hd)
  | multiplicative _ ho _ ihl ihr => intro d' hd; exact .multiplicative (ihl hd) ho (ihr hd)
  | term _ ih => intro d' hd; exact .term (ih hd)
  | additive _ ho _ ihl ihr => intro d' hd; exact .additive (ihl hd) ho (ihr hd)

end Derives

end Abacus

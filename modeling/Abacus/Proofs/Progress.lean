import Abacus.Proofs.Grammar

/-!
# How far a list of tokens leads

What may follow the tokens read so far depends on two things only: whether an operand or an
operator is due, and how many parentheses are open. `scan` keeps these two while it walks over a
list, and gives up at the first token that cannot stand where it stands. Every phrase walks through
and leaves as many parentheses open as before, so a list that `scan` gives up on begins no phrase:
that is how a token is shown to be the first one out of place.

The walk also counts. It never has more parentheses open than the tokens say, and that turns a
bound on the tokens into a bound on the derivation.
-/

namespace Abacus

/-- What has to come next. -/
inductive Due where
  | operand
  | operator
deriving DecidableEq

/-- What has to come after a token of the given kind, and how many parentheses are open then; there
is no answer if the token cannot stand there. -/
def Due.step : Due → Token.Kind → Nat → Option (Due × Nat)
  | .operand, .integer, n => some (.operator, n)
  | .operand, .leftParen, n => some (.operand, n + 1)
  | .operator, .plus, n => some (.operand, n)
  | .operator, .minus, n => some (.operand, n)
  | .operator, .times, n => some (.operand, n)
  | .operator, .divide, n => some (.operand, n)
  | .operator, .rightParen, n + 1 => some (.operator, n)
  | _, _, _ => none

/-- The walk over a list of tokens. -/
def scan : Due × Nat → List Token → Option (Due × Nat)
  | s, [] => some s
  | s, t :: ts => (s.1.step t.kind s.2).bind fun s' => scan s' ts

theorem scan_cons {s s' : Due × Nat} {t : Token} {ts : List Token}
    (h : s.1.step t.kind s.2 = some s') : scan s (t :: ts) = scan s' ts := by
  rw [scan, h, Option.bind_some]

theorem scan_append (s : Due × Nat) (ts us : List Token) :
    scan s (ts ++ us) = (scan s ts).bind fun s' => scan s' us := by
  induction ts generalizing s with
  | nil => rfl
  | cons t ts ih =>
      rw [List.cons_append, scan, scan]
      cases s.1.step t.kind s.2 with
      | none => rfl
      | some s' => exact ih s'

theorem scan_ne_none_of_append {s : Due × Nat} {ts us : List Token}
    (h : scan s (ts ++ us) ≠ none) : scan s ts ≠ none := by
  intro hts
  rw [scan_append, hts] at h
  exact h rfl

theorem step_of_operator {k : Token.Kind}
    (hk : k.multiplicative? ≠ none ∨ k.additive? ≠ none) (n : Nat) :
    Due.operator.step k n = some (.operand, n) := by
  cases k <;> simp [Token.Kind.multiplicative?, Token.Kind.additive?] at hk <;> rfl

/-! ## Tokens that lead somewhere

Wherever an operand is due, the tokens lead to the same thing being due with `m` more parentheses
open: nothing in them depends on, or touches, the parentheses that were open before. -/

/-- From a place where an operand is due, the tokens lead to `due` and `m` more open parentheses. -/
def Leads (ts : List Token) (due : Due) (m : Nat) : Prop :=
  ∀ n, scan (.operand, n) ts = some (due, n + m)

theorem leads_nil : Leads [] .operand 0 :=
  fun _ => rfl

theorem Leads.append {ts us : List Token} {due : Due} {j m : Nat} (h : Leads ts .operand j)
    (h' : Leads us due m) : Leads (ts ++ us) due (j + m) := by
  intro n
  rw [scan_append, h n, Option.bind_some, h' (n + j), Nat.add_assoc]

theorem Leads.operator {ts : List Token} {o : Token} {m : Nat} (h : Leads ts .operator m)
    (ho : o.kind.multiplicative? ≠ none ∨ o.kind.additive? ≠ none) :
    Leads (ts ++ [o]) .operand m := by
  intro n
  rw [scan_append, h n, Option.bind_some, scan_cons (step_of_operator ho _), scan]

theorem Leads.close {ts : List Token} {r : Token} {m : Nat} (h : Leads ts .operator (m + 1))
    (hr : r.kind = .rightParen) : Leads (ts ++ [r]) .operator m := by
  intro n
  have hstep : Due.operator.step r.kind (n + (m + 1)) = some (.operator, n + m) := by
    rw [hr]; rfl
  rw [scan_append, h n, Option.bind_some, scan_cons hstep, scan]

theorem leads_integer {t : Token} (ht : t.kind = .integer) : Leads [t] .operator 0 := by
  intro n
  have hstep : Due.operand.step t.kind n = some (.operator, n) := by rw [ht]; rfl
  rw [scan_cons hstep, scan, Nat.add_zero]

theorem leads_leftParen {t : Token} (ht : t.kind = .leftParen) : Leads [t] .operand 1 := by
  intro n
  have hstep : Due.operand.step t.kind n = some (.operand, n + 1) := by rw [ht]; rfl
  rw [scan_cons hstep, scan]

/-- A token that cannot stand behind the tokens ends the walk. -/
theorem Leads.scan_eq_none {ts : List Token} {k : Token} {due : Due} {m : Nat}
    (h : Leads ts due m) (hstep : due.step k.kind m = none) :
    scan (.operand, 0) (ts ++ [k]) = none := by
  rw [scan_append, h 0, Option.bind_some, Nat.zero_add, scan, hstep, Option.bind_none]

theorem Derives.leads {d : Nat} {ℓ : Level} {ts : List Token} {e : Expr} (h : Derives d ℓ ts e) :
    Leads ts .operator 0 := by
  induction h with
  | integer ht => exact leads_integer ht
  | parens hl _ hr ih => exact Leads.close (m := 0) ((leads_leftParen hl).append ih) hr
  | factor _ ih | term _ ih => exact ih
  | multiplicative _ ho _ ihl ihr =>
      have h := (ihl.operator (.inl (by rw [ho]; simp))).append ihr
      rwa [List.append_assoc] at h
  | additive _ ho _ ihl ihr =>
      have h := (ihl.operator (.inr (by rw [ho]; simp))).append ihr
      rwa [List.append_assoc] at h

/-- A phrase that goes on after some tokens leads on over them. -/
theorem Phrase.scan_ne_none {ℓ : Level} {ts us : List Token} (h : Phrase ℓ (ts ++ us)) (n : Nat) :
    scan (.operand, n) ts ≠ none := by
  obtain ⟨d, e, h⟩ := h
  have hall : scan (.operand, n) (ts ++ us) ≠ none := by
    rw [h.leads n]
    simp
  exact scan_ne_none_of_append hall

theorem Leads.kind_ne_endOfInput {ts : List Token} {due : Due} {m : Nat} (h : Leads ts due m) :
    ∀ t ∈ ts, t.kind ≠ .endOfInput := by
  intro t ht hk
  obtain ⟨us, vs, rfl⟩ := List.append_of_mem ht
  have h := h 0
  rw [scan_append] at h
  cases hus : scan (.operand, 0) us with
  | none => rw [hus] at h; cases h
  | some s =>
      rw [hus, Option.bind_some, scan, hk] at h
      cases hs : s.1 <;> rw [hs] at h <;> simp [Due.step] at h

/-! ## Open parentheses -/

/-- The number of left parentheses. -/
def opened (ts : List Token) : Nat :=
  ts.countP (·.kind == .leftParen)

/-- The number of right parentheses. -/
def closed (ts : List Token) : Nat :=
  ts.countP (·.kind == .rightParen)

/-- At most `d` parentheses are open at a time: no beginning of the list has more than `d` left
parentheses in excess of right ones. -/
def Nested (d : Nat) (ts : List Token) : Prop :=
  ∀ us, us <+: ts → opened us ≤ closed us + d

instance (d : Nat) (ts : List Token) : Decidable (Nested d ts) :=
  decidable_of_iff (∀ n < ts.length + 1, opened (ts.take n) ≤ closed (ts.take n) + d) <| by
    constructor
    · intro h us hus
      rw [List.prefix_iff_eq_take.1 hus]
      exact h _ (Nat.lt_succ_of_le hus.length_le)
    · intro h n _
      exact h _ (List.take_prefix n ts)

theorem opened_append (ts us : List Token) : opened (ts ++ us) = opened ts + opened us :=
  List.countP_append

theorem closed_append (ts us : List Token) : closed (ts ++ us) = closed ts + closed us :=
  List.countP_append

theorem balance_of_step {due due' : Due} {n m : Nat} {t : Token}
    (h : due.step t.kind n = some (due', m)) : n + opened [t] = m + closed [t] := by
  cases hk : t.kind <;> cases due <;> cases n <;> rw [hk] at h <;>
    simp only [Due.step, Option.some.injEq, Prod.mk.injEq, reduceCtorEq] at h <;>
    simp [opened, closed, hk] <;> omega

theorem balance_of_scan {s s' : Due × Nat} {ts : List Token} (h : scan s ts = some s') :
    s.2 + opened ts = s'.2 + closed ts := by
  induction ts generalizing s with
  | nil =>
      rw [scan, Option.some.injEq] at h
      rw [h]
      rfl
  | cons t ts ih =>
      rw [scan] at h
      cases hs : s.1.step t.kind s.2 with
      | none => rw [hs] at h; cases h
      | some s₁ =>
          rw [hs, Option.bind_some] at h
          have h₁ := balance_of_step hs
          have h₂ := ih h
          have ho := opened_append [t] ts
          have hc := closed_append [t] ts
          rw [List.singleton_append] at ho hc
          omega

theorem Leads.balance {ts : List Token} {due : Due} {m : Nat} (h : Leads ts due m) :
    opened ts = closed ts + m := by
  have := balance_of_scan (h 0)
  simp only at this
  omega

theorem Nested.left {d : Nat} {ts us : List Token} (h : Nested d (ts ++ us)) : Nested d ts :=
  fun _ hvs => h _ (hvs.trans (List.prefix_append ts us))

theorem Nested.right {d m : Nat} {ts us : List Token} (h : Nested (d + m) (ts ++ us))
    (hts : opened ts = closed ts + m) : Nested d us := by
  intro vs hvs
  have h := h (ts ++ vs) ((List.prefix_append_right_inj ts).2 hvs)
  rw [opened_append, closed_append] at h
  omega

theorem nested_nil {d : Nat} : Nested d [] := by
  intro us hus
  rw [List.prefix_nil.1 hus]
  exact Nat.zero_le _

theorem Nested.concat {d : Nat} {ts : List Token} {t : Token} (h : Nested d ts)
    (ht : opened (ts ++ [t]) ≤ closed (ts ++ [t]) + d) : Nested d (ts ++ [t]) := by
  intro us hus
  rcases List.prefix_concat_iff.1 hus with rfl | hus
  · exact ht
  · exact h us hus

theorem nested_singleton {d : Nat} {t : Token} (ht : opened [t] ≤ closed [t] + d) :
    Nested d [t] :=
  nested_nil.concat ht

theorem Nested.append {d d' m : Nat} {ts us : List Token} (h : Nested d ts)
    (hts : opened ts = closed ts + m) (h' : Nested d' us) (hd : d' + m = d) :
    Nested d (ts ++ us) := by
  intro vs hvs
  rcases List.append_eq_append_iff.1 hvs.choose_spec with ⟨ws, hws, -⟩ | ⟨ws, rfl, hws⟩
  · exact h vs ⟨ws, hws.symm⟩
  · have hin := h' ws ⟨_, hws.symm⟩
    rw [opened_append, closed_append]
    omega

/-- No phrase keeps more parentheses open than its derivation allows. -/
theorem Derives.nested {d : Nat} {ℓ : Level} {ts : List Token} {e : Expr}
    (h : Derives d ℓ ts e) : Nested d ts := by
  have hchain : ∀ {d : Nat} {ts us : List Token} {o : Token}, Nested d ts → Nested d us →
      Leads (ts ++ [o]) .operand 0 → Nested d (ts ++ o :: us) := by
    intro d ts us o hts hus hlead
    have hb := hlead.balance
    have hall := (hts.concat (by omega)).append hb hus rfl
    rwa [List.append_assoc] at hall
  induction h with
  | integer ht =>
      have hb := (leads_integer ht).balance
      exact nested_singleton (by omega)
  | @parens d l r ts e hl h hr ih =>
      have hopen := (leads_leftParen hl).balance
      have hclose := (((leads_leftParen hl).append h.leads).close hr).balance
      rw [List.append_assoc, opened_append, closed_append] at hclose
      exact (nested_singleton (by omega)).append hopen (ih.concat (by omega)) rfl
  | factor _ ih | term _ ih => exact ih
  | multiplicative hl ho _ ihl ihr =>
      exact hchain ihl ihr (hl.leads.operator (.inl (by rw [ho]; simp)))
  | additive hl ho _ ihl ihr =>
      exact hchain ihl ihr (hl.leads.operator (.inr (by rw [ho]; simp)))

/-- A phrase has a derivation with as many open parentheses as its tokens need. -/
theorem Derives.within {D d : Nat} {ℓ : Level} {ts : List Token} {e : Expr}
    (h : Derives D ℓ ts e) : Nested d ts → Derives d ℓ ts e := by
  -- A left operand and its operator leave nothing open, so that the right operand is no deeper than
  -- the chain; a left parenthesis leaves one open, so that what it encloses is one less deep.
  induction h generalizing d with
  | integer ht => intro _; exact .integer ht
  | @parens D l r ts e hl _ hr ih =>
      intro hd
      have hb := (leads_leftParen hl).balance
      have hone : opened [l] ≤ closed [l] + d := hd [l] (by simp)
      obtain ⟨n, rfl⟩ : ∃ n, d = n + 1 := ⟨d - 1, by omega⟩
      have hall : Nested (n + 1) ([l] ++ (ts ++ [r])) := hd
      have hts : Nested n (ts ++ [r]) := hall.right hb
      exact .parens hl (ih hts.left) hr
  | factor _ ih => intro hd; exact .factor (ih hd)
  | multiplicative hl ho hr ihl ihr =>
      intro hd
      have hb := (hl.leads.operator (.inl (by rw [ho]; simp))).balance
      rw [← List.singleton_append, ← List.append_assoc] at hd
      exact .multiplicative (ihl hd.left.left) ho (ihr (Nested.right (m := 0) hd hb))
  | term _ ih => intro hd; exact .term (ih hd)
  | additive hl ho hr ihl ihr =>
      intro hd
      have hb := (hl.leads.operator (.inr (by rw [ho]; simp))).balance
      rw [← List.singleton_append, ← List.append_assoc] at hd
      exact .additive (ihl hd.left.left) ho (ihr (Nested.right (m := 0) hd hb))

end Abacus

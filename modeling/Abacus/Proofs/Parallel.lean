import Abacus.Proofs.Streams

/-!
# Two readings side by side

The reader looks at the kinds of tokens and at the numbers of integers. Spans it copies, and the
items that it has not taken yet it does not know. So two streams that agree in what the reader looks
at are read in the same way: item for item the two readers do the same, and where one fails the
other fails too, with a fault that is put together from the tokens in the same places.

What it is for two tokens, and for two failures, to stand for each other is left open. A `Likeness`
is any answer to that which survives what the reader does: blaming a token, and blaming the stretch
from one token to another. And the streams need to be alike only as far as they are read, which is
why the items are counted: `n` is the number of items, from the beginning of the stream, that are
known to be alike.
-/

namespace Abacus

open Reader

/-- When the tokens and failures of one reading stand for those of another. -/
structure Likeness (source source' : String) where
  token : Token → Token → Prop
  failure : Failure → Failure → Prop
  kind_eq : ∀ {t t'}, token t t' → t'.kind = t.kind
  number_eq : ∀ {t t'}, token t t' → t'.number = t.number
  mismatch : ∀ {t t'} (x : Expectation), token t t' →
    failure (.fault ⟨.mismatch x t, t.span, source⟩) (.fault ⟨.mismatch x t', t'.span, source'⟩)
  nesting : ∀ {t t'}, token t t' →
    failure (.fault ⟨.nesting t, t.span, source⟩) (.fault ⟨.nesting t', t'.span, source'⟩)
  operation : ∀ {t t' u u'} (z : Operation.Failure), token t t' → token u u' →
    t.kind ≠ .endOfInput → u.kind ≠ .endOfInput →
    failure (.fault ⟨z.cause, ⟨t.span.start, u.span.stop⟩, source⟩)
      (.fault ⟨z.cause, ⟨t'.span.start, u'.span.stop⟩, source'⟩)

/-- The reader that a rule leaves behind, whether it failed or not. -/
def Reader.after {α : Type} : EStateM.Result Failure Reader α → Reader
  | .ok _ r => r
  | .error _ r => r

namespace Likeness

variable {source source' : String}

/-- Two items that stand for each other. -/
inductive Alike (L : Likeness source source') : Item → Item → Prop
  | token {t t' : Token} (h : L.token t t') : L.Alike (.ok t) (.ok t')
  | failure {e e' : Failure} (h : L.failure e e') : L.Alike (.error e) (.error e')

/-- The first `n` items of two streams are alike. -/
def Ahead (L : Likeness source source') : Nat → TokenStream → TokenStream → Prop
  | 0, _, _ => True
  | n + 1, s, s' => L.Alike s.next.1 s'.next.1 ∧ L.Ahead n s.next.2 s'.next.2

/-- Two readers in the same place, which look at tokens that are alike, and will do so up to the
`n`-th item. -/
structure Beside (L : Likeness source source') (n : Nat) (r r' : Reader) : Prop where
  lookahead : L.token r.lookahead r'.lookahead
  taken : r'.taken = r.taken
  ahead : L.Ahead (n - r.taken) r.stream r'.stream

/-- What the two readers have consumed last are tokens that are alike. -/
def Ended (L : Likeness source source') (r r' : Reader) : Prop :=
  ∃ t t', L.token t t' ∧ t.kind ≠ .endOfInput ∧ r.previousEnd = t.span.stop ∧
    r'.previousEnd = t'.span.stop

/-- Two rules have come to the same end. -/
inductive Matches (L : Likeness source source') (n : Nat) :
    EStateM.Result Failure Reader Int → EStateM.Result Failure Reader Int → Prop
  | ok {v : Int} {r r' : Reader} (h : L.Beside n r r') (hend : L.Ended r r') :
      L.Matches n (.ok v r) (.ok v r')
  | error {e e' : Failure} {r r' : Reader} (h : L.failure e e') (htaken : r'.taken = r.taken) :
      L.Matches n (.error e r) (.error e' r')

/-- Two rules do the same as long as the first one takes no more than `n` items. -/
def Parallel (L : Likeness source source') (n : Nat) (x x' : Rule Int) : Prop :=
  ∀ r r', L.Beside n r r' → (after (x r)).taken ≤ n → L.Matches n (x r) (x' r')

variable {L : Likeness source source'} {n d : Nat} {ℓ : Level} {r r' : Reader}
  {operand operand' inner inner' : Rule Int} {operation? : Token.Kind → Option Operation}

/-! ## Items are only ever taken -/

theorem taken_of_eat_error {e : Failure} (h : eat r = .error e r') : r'.taken = r.taken + 1 := by
  rw [eat] at h
  cases hn : r.stream.next.1 with
  | error e' => rw [hn] at h; cases h; rfl
  | ok t => rw [hn] at h; cases h

theorem taken_le_of_fails {e : Failure} (h : Fails source d ℓ r e r') : r.taken ≤ r'.taken := by
  cases h with
  | item hts _ he =>
      have := hts.taken_eq
      have := taken_of_eat_error he
      omega
  | mismatch hts | nesting hts =>
      have := hts.taken_eq
      omega
  | operation hpre _ _ hb =>
      cases hb with
      | intro _ hts _ _ ho _ hus =>
          have := ((hpre.append hts).append (.cons ho hus)).taken_eq
          omega

theorem taken_le_ruleAt (source : String) (d : Nat) (ℓ : Level) (r : Reader) :
    r.taken ≤ (after (ruleAt source d ℓ r)).taken := by
  have hout : Outcome source d ℓ r (ruleAt source d ℓ r) := ruleAt_outcome d ℓ r
  generalize ruleAt source d ℓ r = result at hout
  cases hout with
  | value hts =>
      have := hts.taken_eq
      simp only [after]
      omega
  | failure hf => exact taken_le_of_fails hf

/-- The right operand of a round is read within it. -/
theorem taken_operand_le {more : Int → Rule Int} {o : Token} {r₁ : Reader}
    (hmore : ∀ v r, r.taken ≤ (after (more v r)).taken) (ho : eat r = .ok o r₁) (source : String)
    (operand : Rule Int) (start : Position) (op : Operation) (left : Int) :
    (after (operand r₁)).taken ≤
      (after (roundOf source operand more start op left r)).taken := by
  rw [roundOf_eq, ho]
  dsimp only
  cases operand r₁ with
  | error e r₂ => exact Nat.le_refl _
  | ok b r₂ =>
      dsimp only
      cases op.meaning left b with
      | error z => exact Nat.le_refl _
      | ok v => exact hmore v r₂

theorem taken_le_roundOf {more : Int → Rule Int} (h : ∀ r, r.taken ≤ (after (operand r)).taken)
    (hmore : ∀ v r, r.taken ≤ (after (more v r)).taken) (start : Position) (op : Operation)
    (left : Int) (r : Reader) :
    r.taken ≤ (after (roundOf source operand more start op left r)).taken := by
  cases ho : eat r with
  | error e r₁ =>
      have := taken_of_eat_error ho
      rw [roundOf_eq, ho]
      simp only [after]
      omega
  | ok o r₁ =>
      have hone := (eat_ok ho).2.2.2
      have htwo := h r₁
      have hthree := taken_operand_le hmore ho source operand start op left
      omega

theorem taken_le_chainTail (h : ∀ r, r.taken ≤ (after (operand r)).taken) (start : Position)
    (rounds : List Item) : ∀ (left : Int) (r : Reader),
      r.taken ≤ (after (chainTail source operation? operand start rounds left r)).taken := by
  induction rounds with
  | nil => intro left r; exact Nat.le_refl _
  | cons item rounds ih =>
      intro left r
      rw [chainTail_eq_round]
      cases operation? r.lookahead.kind with
      | none => exact Nat.le_refl _
      | some op => exact taken_le_roundOf h ih start op left r

/-! ## Step by step -/

theorem Beside.exists_ahead (h : L.Beside n r r') (hn : r.taken < n) :
    L.Alike r.stream.next.1 r'.stream.next.1 ∧
      L.Ahead (n - (r.taken + 1)) r.stream.next.2 r'.stream.next.2 := by
  have hahead := h.ahead
  rwa [show n - r.taken = n - (r.taken + 1) + 1 by omega, Ahead] at hahead

/-- Where one reader goes on to the next token, the other does too. -/
theorem Beside.eat_ok {t : Token} {r₁ : Reader} (h : L.Beside n r r')
    (hk : r.lookahead.kind ≠ .endOfInput) (heat : eat r = .ok t r₁) (hn : r₁.taken ≤ n) :
    ∃ r₁', eat r' = .ok r'.lookahead r₁' ∧ L.Beside n r₁ r₁' ∧ L.Ended r₁ r₁' := by
  obtain ⟨-, hnext, hend, htaken⟩ := Reader.eat_ok heat
  obtain ⟨halike, hahead⟩ := h.exists_ahead (by omega)
  rw [hnext] at halike hahead
  generalize hnext' : r'.stream.next = p at halike hahead
  obtain ⟨item, later⟩ := p
  cases halike with
  | token ht =>
      refine ⟨_, eat_of_next hnext', ⟨ht, ?_, ?_⟩, ⟨_, _, h.lookahead, hk, hend, rfl⟩⟩
      · rw [htaken, ← h.taken]
      · rw [htaken]
        exact hahead

theorem Beside.eat_error {e : Failure} {r₁ : Reader} (h : L.Beside n r r')
    (heat : eat r = .error e r₁) (hn : r₁.taken ≤ n) :
    ∃ e' r₁', eat r' = .error e' r₁' ∧ L.failure e e' ∧ r₁'.taken = r₁.taken := by
  have htaken := taken_of_eat_error heat
  have halike := (h.exists_ahead (by omega)).1
  rw [Reader.eat_error heat] at halike
  generalize hnext' : r'.stream.next.1 = item at halike
  cases halike with
  | failure he =>
      refine ⟨_, _, by rw [eat, hnext'], he, ?_⟩
      rw [htaken, ← h.taken]

theorem Beside.mismatch (h : L.Beside n r r') (x : Expectation) :
    L.Matches n
      (.error (.fault ⟨.mismatch x r.lookahead, r.lookahead.span, source⟩) r)
      (.error (.fault ⟨.mismatch x r'.lookahead, r'.lookahead.span, source'⟩) r') :=
  .error (L.mismatch x h.lookahead) h.taken

/-! ## Rule by rule -/

/-- The last token of a phrase worth `v`. -/
theorem Beside.eat_last (h : L.Beside n r r') (hk : r.lookahead.kind ≠ .endOfInput) (v : Int)
    (hn : (after (match eat r with
      | .error e r₁ => (.error e r₁ : EStateM.Result Failure Reader Int)
      | .ok _ r₁ => .ok v r₁)).taken ≤ n) :
    L.Matches n
      (match eat r with
      | .error e r₁ => .error e r₁
      | .ok _ r₁ => .ok v r₁)
      (match eat r' with
      | .error e r₁ => .error e r₁
      | .ok _ r₁ => .ok v r₁) := by
  cases heat : eat r with
  | error e r₁ =>
      rw [heat] at hn
      obtain ⟨e', r₁', heat', he, ht⟩ := h.eat_error heat hn
      rw [heat']
      exact .error he ht
  | ok t r₁ =>
      rw [heat] at hn
      obtain ⟨r₁', heat', hb, hend⟩ := h.eat_ok hk heat hn
      rw [heat']
      exact .ok hb hend

/-- The end of a pair of parentheses. -/
theorem Beside.close (h : L.Beside n r r') (v : Int)
    (hn : (after (match expect source .rightParen r with
      | .error e r₁ => (.error e r₁ : EStateM.Result Failure Reader Int)
      | .ok _ r₁ => .ok v r₁)).taken ≤ n) :
    L.Matches n
      (match expect source .rightParen r with
      | .error e r₁ => .error e r₁
      | .ok _ r₁ => .ok v r₁)
      (match expect source' .rightParen r' with
      | .error e r₁ => .error e r₁
      | .ok _ r₁ => .ok v r₁) := by
  rw [expect_eq] at hn ⊢
  rw [expect_eq, L.kind_eq h.lookahead]
  by_cases hk : r.lookahead.kind = .rightParen
  · rw [if_pos hk] at hn ⊢
    rw [if_pos hk]
    exact h.eat_last (by rw [hk]; simp) v hn
  · rw [if_neg hk, if_neg hk]
    exact h.mismatch _

theorem taken_le_expect (source : String) (k : Token.Kind) (v : Int) (r : Reader) :
    r.taken ≤ (after (match expect source k r with
      | .error e r₁ => (.error e r₁ : EStateM.Result Failure Reader Int)
      | .ok _ r₁ => .ok v r₁)).taken := by
  rw [expect_eq]
  by_cases hk : r.lookahead.kind = k
  · rw [if_pos hk]
    cases heat : eat r with
    | error e r₁ => have := taken_of_eat_error heat; simp only [after]; omega
    | ok t r₁ => have := (Reader.eat_ok heat).2.2.2; simp only [after]; omega
  · rw [if_neg hk]
    exact Nat.le_refl _

theorem parallel_factorOf (hle : ∀ r, r.taken ≤ (after (inner r)).taken)
    (hin : L.Parallel n inner inner') :
    L.Parallel n (factorOf source inner) (factorOf source' inner') := by
  intro r r' h hn
  rw [factorOf_eq] at hn ⊢
  rw [factorOf_eq, L.kind_eq h.lookahead, L.number_eq h.lookahead]
  cases hk : r.lookahead.kind with
  | integer =>
      rw [hk] at hn
      exact h.eat_last (by rw [hk]; simp) _ hn
  | leftParen =>
      rw [hk] at hn
      dsimp only at hn ⊢
      cases heat : eat r with
      | error e r₁ =>
          rw [heat] at hn
          obtain ⟨e', r₁', heat', he, ht⟩ := h.eat_error heat hn
          rw [heat']
          exact .error he ht
      | ok t r₁ =>
          rw [heat] at hn
          dsimp only at hn ⊢
          have hin_le : (after (inner r₁)).taken ≤ n := by
            cases hv : inner r₁ with
            | error e r₂ => rw [hv] at hn; exact hn
            | ok v r₂ => rw [hv] at hn; exact Nat.le_trans (taken_le_expect _ _ v r₂) hn
          obtain ⟨r₁', heat', hb, -⟩ :=
            h.eat_ok (by rw [hk]; simp) heat (Nat.le_trans (hle r₁) hin_le)
          rw [heat']
          dsimp only
          have hmatch := hin _ _ hb hin_le
          generalize inner r₁ = x at hmatch hn
          generalize inner' r₁' = x' at hmatch
          cases hmatch with
          | error he ht => exact .error he ht
          | ok hb₂ _ => exact hb₂.close _ hn
  | plus | minus | times | divide | rightParen | endOfInput => exact h.mismatch _

theorem chainTail_of_none {start : Position} {rounds : List Item} {v : Int}
    (h : operation? r.lookahead.kind = none) :
    chainTail source operation? operand start rounds v r = .ok v r := by
  cases rounds with
  | nil => rfl
  | cons item rounds => rw [chainTail_cons, h]

/-- A rule that comes to a value has begun with a token, and not with an operator. -/
theorem exists_eats_of_ok {v : Int} (h : ruleAt source d ℓ r = .ok v r') :
    ∃ ts, Eats r (r.lookahead :: ts) r' ∧ r.lookahead.kind ≠ .endOfInput ∧
      ∀ ℓ : Level, ℓ.operation? r.lookahead.kind = none := by
  have hout : Outcome source d ℓ r (ruleAt source d ℓ r) := ruleAt_outcome d ℓ r
  rw [h] at hout
  cases hout with
  | value hts he _ _ =>
      obtain ⟨t, ts, rfl, hop⟩ := he.exists_cons
      obtain rfl := hts.lookahead_eq
      exact ⟨ts, hts, he.leads.kind_ne_endOfInput _ (by simp), hop⟩

/-- A failed operation is blamed on the text between tokens that are alike. -/
theorem Ended.operation {t t' u u' : Token} (h : L.Ended r r') (ht : L.token t t')
    (hk : t.kind ≠ .endOfInput) (hu : L.token u u') (hku : u.kind ≠ .endOfInput)
    (z : Operation.Failure) :
    L.failure (.fault ⟨z.cause, z.span t.span.start u.span.start r.previousEnd, source⟩)
      (.fault ⟨z.cause, z.span t'.span.start u'.span.start r'.previousEnd, source'⟩) := by
  obtain ⟨w, w', hw, hkw, hend, hend'⟩ := h
  rw [hend, hend']
  cases z with
  | zeroDivisor => exact L.operation .zeroDivisor hu hw hku hkw
  | tooLarge m => exact L.operation (.tooLarge m) ht hw hk hkw

/-- One round does the same if what goes on with its value does. -/
theorem parallel_round {ℓ' : Level} {t t' : Token} {more more' : Int → Rule Int} {op : Operation}
    {v : Int} (hop : L.Parallel n (ruleAt source d ℓ') (ruleAt source' d ℓ'))
    (ht : L.token t t') (hk : t.kind ≠ .endOfInput)
    (hle : ∀ w r, r.taken ≤ (after (more w r)).taken)
    (hmore : ∀ {o o' r₁ r₁' b w r₂ r₂'}, eat r = .ok o r₁ → eat r' = .ok o' r₁' →
      ruleAt source d ℓ' r₁ = .ok b r₂ → ruleAt source' d ℓ' r₁' = .ok b r₂' →
      L.Beside n r₂ r₂' → L.Ended r₂ r₂' → (after (more w r₂)).taken ≤ n →
      L.Matches n (more w r₂) (more' w r₂'))
    (h : L.Beside n r r') (hr : r.lookahead.kind ≠ .endOfInput)
    (hn : (after (roundOf source (ruleAt source d ℓ') more t.span.start op v r)).taken ≤ n) :
    L.Matches n (roundOf source (ruleAt source d ℓ') more t.span.start op v r)
      (roundOf source' (ruleAt source' d ℓ') more' t'.span.start op v r') := by
  rw [roundOf_eq (r := r')]
  cases ho : eat r with
  | error e r₁ =>
      rw [roundOf_eq, ho] at hn ⊢
      obtain ⟨e', r₁', ho', he, htaken⟩ := h.eat_error ho hn
      rw [ho']
      exact .error he htaken
  | ok o r₁ =>
      have hright := Nat.le_trans (taken_operand_le hle ho _ _ _ op v) hn
      obtain ⟨r₁', ho', hb₁, -⟩ := h.eat_ok hr ho (Nat.le_trans (taken_le_ruleAt ..) hright)
      have hmatch := hop _ _ hb₁ hright
      rw [roundOf_eq, ho] at hn ⊢
      rw [ho']
      dsimp only at hn ⊢
      generalize hres : ruleAt source d ℓ' r₁ = x at hmatch hn ⊢
      generalize hres' : ruleAt source' d ℓ' r₁' = x' at hmatch ⊢
      cases hmatch with
      | error he htaken => exact .error he htaken
      | @ok b r₂ r₂' hb₂ hend =>
          obtain ⟨-, -, hk₁, -⟩ := exists_eats_of_ok hres
          dsimp only at hn ⊢
          cases hz : op.meaning v b with
          | error z => exact .error (hend.operation ht hk hb₁.lookahead hk₁ z) hb₂.taken
          | ok w =>
              rw [hz] at hn
              exact hmore ho ho' hres hres' hb₂ hend hn

theorem parallel_chainTail {ℓ' : Level} {t t' : Token}
    (hop : L.Parallel n (ruleAt source d ℓ') (ruleAt source' d ℓ')) (ht : L.token t t')
    (hk : t.kind ≠ .endOfInput) (rounds : List Item) :
    ∀ {rounds' : List Item} {v : Int} {r r' : Reader}, Ample ℓ.operation? rounds r →
      Ample ℓ.operation? rounds' r' → L.Beside n r r' → L.Ended r r' →
      (after (chainTail source ℓ.operation? (ruleAt source d ℓ') t.span.start rounds v r)).taken
        ≤ n →
      L.Matches n
        (chainTail source ℓ.operation? (ruleAt source d ℓ') t.span.start rounds v r)
        (chainTail source' ℓ.operation? (ruleAt source' d ℓ') t'.span.start rounds' v r') := by
  -- On the rounds of the first reader. Those of the second need not be as many, but they are ample.
  induction rounds with
  | nil =>
      intro rounds' v r r' hample _ h hend hn
      have hnone : ℓ.operation? r.lookahead.kind = none := by
        by_contra hne
        exact absurd (hample hne) (Nat.not_lt_zero _)
      rw [chainTail_of_none hnone, chainTail_of_none (by rw [L.kind_eq h.lookahead]; exact hnone)]
      exact .ok h hend
  | cons item rounds ih =>
      intro rounds' v r r' hample hample' h hend hn
      have hsame : ℓ.operation? r'.lookahead.kind = ℓ.operation? r.lookahead.kind := by
        rw [L.kind_eq h.lookahead]
      cases hoperation : ℓ.operation? r.lookahead.kind with
      | none =>
          rw [chainTail_of_none hoperation, chainTail_of_none (hsame.trans hoperation)]
          exact .ok h hend
      | some op =>
          have hsome : ℓ.operation? r.lookahead.kind ≠ none := by rw [hoperation]; simp
          have hsome' : ℓ.operation? r'.lookahead.kind ≠ none := hsame ▸ hsome
          obtain ⟨item', rounds', rfl⟩ : ∃ item' more, rounds' = item' :: more := by
            cases rounds' with
            | nil => exact absurd (hample' hsome') (Nat.not_lt_zero _)
            | cons item' more => exact ⟨item', more, rfl⟩
          have hr : r.lookahead.kind ≠ .endOfInput := by
            intro hr
            rw [hr] at hoperation
            cases ℓ <;> cases hoperation
          rw [chainTail_eq_round, hoperation] at hn ⊢
          rw [chainTail_eq_round, hsame, hoperation]
          have hle := taken_le_ruleAt source d ℓ'
          refine parallel_round hop ht hk (taken_le_chainTail hle _ _) ?_ h hr hn
          intro o o' r₁ r₁' b w r₂ r₂' ho ho' hres hres' hb₂ hend₂ hn₂
          obtain ⟨us, hus, -, hnone⟩ := exists_eats_of_ok hres
          obtain ⟨us', hus', -, hnone'⟩ := exists_eats_of_ok hres'
          exact ih (hample.next hsome ho (hnone ℓ) hus) (hample'.next hsome' ho' (hnone' ℓ) hus')
            hb₂ hend₂ hn₂

theorem parallel_chain {ℓ' : Level} (hℓ : ℓ.operand? = some ℓ')
    (h : L.Parallel n (ruleAt source d ℓ') (ruleAt source' d ℓ')) :
    L.Parallel n (ruleAt source d ℓ) (ruleAt source' d ℓ) := by
  intro r r' hb hn
  rw [ruleAt_eq_chain hℓ, chain_eq] at hn ⊢
  rw [ruleAt_eq_chain hℓ, chain_eq]
  have hle : (after (ruleAt source d ℓ' r)).taken ≤ n := by
    cases hv : ruleAt source d ℓ' r with
    | error e r₁ => rw [hv] at hn; exact hn
    | ok v r₁ =>
        rw [hv] at hn
        exact Nat.le_trans (taken_le_chainTail (taken_le_ruleAt source d ℓ') _ _ v r₁) hn
  have hmatch := h _ _ hb hle
  generalize hres : ruleAt source d ℓ' r = x at hmatch hn ⊢
  generalize ruleAt source' d ℓ' r' = x' at hmatch ⊢
  cases hmatch with
  | error he htaken => exact .error he htaken
  | ok hb₁ hend =>
      obtain ⟨-, -, hk, -⟩ := exists_eats_of_ok hres
      exact parallel_chainTail h hb.lookahead hk _ (ample_upcoming _) (ample_upcoming _) hb₁ hend hn

/-- The rules of all levels do the same on streams that are alike. -/
theorem parallel_ruleAt (L : Likeness source source') (n d : Nat) (ℓ : Level) :
    L.Parallel n (ruleAt source d ℓ) (ruleAt source' d ℓ) := by
  have hlevels : ∀ d, L.Parallel n (ruleAt source d .factor) (ruleAt source' d .factor) →
      ∀ ℓ, L.Parallel n (ruleAt source d ℓ) (ruleAt source' d ℓ) := by
    intro d hfactor ℓ
    have hterm := parallel_chain (ℓ := .term) rfl hfactor
    cases ℓ with
    | factor => exact hfactor
    | term => exact hterm
    | expression => exact parallel_chain (ℓ := .expression) rfl hterm
  -- On the parentheses that can still be opened, as the rules are built.
  induction d generalizing ℓ with
  | zero =>
      refine hlevels 0 (parallel_factorOf (fun r => Nat.le_refl _) ?_) ℓ
      intro r r' h _
      exact .error (L.nesting h.lookahead) h.taken
  | succ d ih =>
      refine hlevels (d + 1) (parallel_factorOf (taken_le_ruleAt source d .expression) ?_) ℓ
      exact ih .expression

end Likeness

/-! ## Whole streams -/

/-- What reading a stream comes to, and how many of its items are taken. -/
def TokenStream.run [Host] (s : TokenStream) (source : String) (allowTrailing : Bool) :
    Except Failure Int × Nat :=
  match ofStream s with
  | .error e => (.error e, 1)
  | .ok r =>
    match Reader.evaluate source allowTrailing r with
    | .ok v r' => (.ok v, r'.taken)
    | .error e r' => (.error e, r'.taken)

/-- The same with at most `limit` parentheses open at a time. -/
def TokenStream.runWithin (s : TokenStream) (limit : Nat) (source : String) (allowTrailing : Bool) :
    Except Failure Int × Nat :=
  match ofStream s with
  | .error e => (.error e, 1)
  | .ok r =>
    match evaluateWithin source limit allowTrailing r with
    | .ok v r' => (.ok v, r'.taken)
    | .error e r' => (.error e, r'.taken)

theorem TokenStream.runWithin_maxDepth [Host] (s : TokenStream) (source : String)
    (allowTrailing : Bool) :
    s.runWithin maxDepth source allowTrailing = s.run source allowTrailing :=
  rfl

theorem TokenStream.run_fst [Host] (s : TokenStream) (source : String) (allowTrailing : Bool) :
    (s.run source allowTrailing).1 = s.evaluate source allowTrailing := by
  rw [run, TokenStream.evaluate]
  cases ofStream s with
  | error e => rfl
  | ok r =>
      dsimp only
      cases Reader.evaluate source allowTrailing r <;> rfl

theorem TokenStream.runWithin_eq (s : TokenStream) (limit : Nat) (source : String)
    (allowTrailing : Bool) :
    s.runWithin limit source allowTrailing =
      match ofStream s with
      | .error e => (.error e, 1)
      | .ok r =>
        match ruleAt source limit .expression r with
        | .error e r' => (.error e, r'.taken)
        | .ok v r' =>
          if allowTrailing = false ∧ r'.lookahead.kind ≠ .endOfInput then
            (.error (.fault
              ⟨.mismatch (.token .endOfInput) r'.lookahead, r'.lookahead.span, source⟩), r'.taken)
          else (.ok v, r'.taken) := by
  rw [runWithin]
  cases ofStream s with
  | error e => rfl
  | ok r =>
      dsimp only
      rw [evaluateWithin_eq, ruleAt]
      cases expressionWithin source (limit + 1) r with
      | error e r' => rfl
      | ok v r' =>
          dsimp only
          by_cases hk : allowTrailing = false ∧ r'.lookahead.kind ≠ .endOfInput
          · rw [if_pos hk, if_pos hk]
          · rw [if_neg hk, if_neg hk]

theorem TokenStream.run_eq [Host] (s : TokenStream) (source : String) (allowTrailing : Bool) :
    s.run source allowTrailing =
      match ofStream s with
      | .error e => (.error e, 1)
      | .ok r =>
        match expression source r with
        | .error e r' => (.error e, r'.taken)
        | .ok v r' =>
          if allowTrailing = false ∧ r'.lookahead.kind ≠ .endOfInput then
            (.error (.fault
              ⟨.mismatch (.token .endOfInput) r'.lookahead, r'.lookahead.span, source⟩), r'.taken)
          else (.ok v, r'.taken) :=
  s.runWithin_eq maxDepth source allowTrailing

namespace Likeness

variable {source source' : String}

/-- Two readings come to the same value, or to failures that stand for each other. -/
inductive Same (L : Likeness source source') :
    Except Failure Int → Except Failure Int → Prop
  | value (v : Int) : L.Same (.ok v) (.ok v)
  | failure {e e' : Failure} (h : L.failure e e') : L.Same (.error e) (.error e')

variable {s s' : TokenStream} {n : Nat} {allowTrailing : Bool}

/-- Two readers that look at the first tokens of streams that are alike. -/
theorem Ahead.exists_reader (L : Likeness source source') {r : Reader} (h : L.Ahead n s s')
    (hn : 0 < n) (hr : ofStream s = .ok r) : ∃ r', ofStream s' = .ok r' ∧ L.Beside n r r' := by
  obtain ⟨m, rfl⟩ : ∃ m, n = m + 1 := ⟨n - 1, by omega⟩
  obtain ⟨halike, hahead⟩ := h
  have hnext := ofStream_eq_ok hr
  rw [ofStream_of_next hnext, Except.ok.injEq] at hr
  rw [hnext] at halike hahead
  generalize hnext' : s'.next = p at halike hahead
  obtain ⟨item, later⟩ := p
  cases halike with
  | token ht =>
      rw [← hr] at ht ⊢
      exact ⟨_, ofStream_of_next hnext', ht, rfl, hahead⟩

theorem taken_of_ofStream {r : Reader} (hr : ofStream s = .ok r) : r.taken = 1 := by
  rw [ofStream_of_next (ofStream_eq_ok hr), Except.ok.injEq] at hr
  rw [← hr]

theorem taken_after_expression {limit : Nat} {r : Reader} (hr : ofStream s = .ok r) :
    (after (ruleAt source limit .expression r)).taken =
      (s.runWithin limit source allowTrailing).2 := by
  rw [TokenStream.runWithin_eq, hr]
  dsimp only
  cases ruleAt source limit .expression r with
  | error e r' => rfl
  | ok v r' =>
      dsimp only
      split <;> rfl

theorem runWithin_of_ahead (L : Likeness source source') (limit : Nat) (allowTrailing : Bool)
    (h : L.Ahead n s s') (hn : (s.runWithin limit source allowTrailing).2 ≤ n) :
    L.Same (s.runWithin limit source allowTrailing).1
        (s'.runWithin limit source' allowTrailing).1 ∧
      (s'.runWithin limit source' allowTrailing).2 =
        (s.runWithin limit source allowTrailing).2 := by
  cases hr : ofStream s with
  | error e =>
      rw [TokenStream.runWithin_eq, hr] at hn ⊢
      obtain ⟨m, rfl⟩ : ∃ m, n = m + 1 := ⟨n - 1, by dsimp only at hn; omega⟩
      have halike := h.1
      rw [ofStream_eq_error_iff.1 hr] at halike
      generalize hnext' : s'.next.1 = item at halike
      cases halike with
      | failure he =>
          rw [TokenStream.runWithin_eq, ofStream_eq_error_iff.2 hnext']
          exact ⟨.failure he, rfl⟩
  | ok r =>
      have hle := taken_le_ruleAt source limit .expression r
      have hone := taken_of_ofStream hr
      have hlast : (after (ruleAt source limit .expression r)).taken =
        (s.runWithin limit source allowTrailing).2 := taken_after_expression hr
      obtain ⟨r', hr', hb⟩ := Ahead.exists_reader L h (by omega) hr
      have hmatch := parallel_ruleAt L n limit .expression r r' hb (by omega)
      rw [TokenStream.runWithin_eq, TokenStream.runWithin_eq, hr, hr']
      dsimp only
      generalize ruleAt source limit .expression r = x at hmatch ⊢
      generalize ruleAt source' limit .expression r' = x' at hmatch ⊢
      cases hmatch with
      | error he htaken => exact ⟨.failure he, htaken⟩
      | ok hb _ =>
          dsimp only
          rw [L.kind_eq hb.lookahead, hb.taken]
          split
          · exact ⟨.failure (L.mismatch _ hb.lookahead), rfl⟩
          · exact ⟨.value _, rfl⟩

theorem run_of_ahead [Host] (L : Likeness source source') (allowTrailing : Bool)
    (h : L.Ahead n s s') (hn : (s.run source allowTrailing).2 ≤ n) :
    L.Same (s.run source allowTrailing).1 (s'.run source' allowTrailing).1 ∧
      (s'.run source' allowTrailing).2 = (s.run source allowTrailing).2 :=
  L.runWithin_of_ahead maxDepth allowTrailing h hn

end Likeness

end Abacus

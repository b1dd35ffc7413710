import Abacus.Proofs.Bookkeeping
import Abacus.Proofs.Streams

/-!
# How far a rule advances

A rule is called somewhere in a stream of tokens. If it comes to a value it has consumed a phrase,
so at least one token; it stands right behind the phrase, and the token there does not make it
longer. If the token in view is refused, what was consumed before begins a phrase, but none that
goes on with that token.

Each call of a rule, and each round of a loop, begins behind the tokens that were consumed before,
and there is at least one of these between any two calls of the same rule. So the calls come to an
end. The rules are written with a limit on rounds and on parentheses that makes this plain; `Ends`
is what they come to if there are no such limits, as loops that go on while there is an operator and
rules that call each other, and where no more parentheses are opened than the limit allows the two
are the same.
-/

namespace Abacus

/-- The item of a stream at an index. -/
def TokenStream.item (s : TokenStream) (n : Nat) : Item :=
  (s.drop n).next.1

/-- No item of the stream is a failure. -/
def TokenStream.ErrorFree (s : TokenStream) : Prop :=
  ∀ n, ∃ t, s.item n = .ok t

/-- From the index on, and before the end of the input, at most `d` parentheses are open at a
time. -/
def TokenStream.NestedFrom (s : TokenStream) (k d : Nat) : Prop :=
  ∀ ts : List Token, (∀ t ∈ ts, t.kind ≠ .endOfInput) → (s.drop k).take ts.length = ts.map .ok →
    Nested d ts

theorem TokenStream.drop_succ (s : TokenStream) (n : Nat) : s.drop (n + 1) = (s.drop n).next.2 := by
  induction n generalizing s with
  | zero => rfl
  | succ n ih => exact ih s.next.2

theorem TokenStream.errorFree_ofList (ts : List Token) :
    (TokenStream.ofList (ts.map .ok)).ErrorFree := by
  intro n
  induction n generalizing ts with
  | zero =>
      cases ts with
      | nil => exact ⟨.endOfList, rfl⟩
      | cons t ts => exact ⟨t, rfl⟩
  | succ n ih =>
      cases ts with
      | nil => exact ih []
      | cons t ts => exact ih ts

theorem TokenStream.take_drop_succ (s : TokenStream) (k n : Nat) :
    (s.drop k).take (n + 1) = s.item k :: (s.drop (k + 1)).take n := by
  rw [take, item, drop_succ]

namespace Reader

/-- The reader looks at the item of a stream at an index, and the items behind it are left. -/
structure LooksAt (s : TokenStream) (k : Nat) (r : Reader) : Prop where
  lookahead : s.item k = .ok r.lookahead
  stream : r.stream = s.drop (k + 1)

/-- What has been read from index `k` to index `m` when a rule comes to a value. -/
structure Consumes (s : TokenStream) (d : Nat) (ℓ : Level) (k m : Nat) (v : Int) (r r' : Reader) :
    Prop where
  progress : k < m
  phrase : ∃ ts e, (s.drop k).take (m - k) = ts.map .ok ∧ Derives d ℓ ts e ∧ e.eval = .ok v
  looksAt : LooksAt s m r'
  taken : r'.taken = r.taken + (m - k)
  previousEnd : ∃ t, s.item (m - 1) = .ok t ∧ r'.previousEnd = t.span.stop
  stops : ℓ.Stops r'.lookahead.kind

/-- What has been read from index `k` to index `m` when a rule refuses the token there. -/
structure Refuses (s : TokenStream) (ℓ : Level) (k m : Nat) (f : Fault) (r r' : Reader) :
    Prop where
  le : k ≤ m
  looksAt : LooksAt s m r'
  taken : r'.taken = r.taken + (m - k)
  blames : ∃ x, f.cause = .mismatch x r'.lookahead ∧ f.span = r'.lookahead.span
  phrase : ∃ ts, (s.drop k).take (m - k) = ts.map .ok ∧ (∃ us, Phrase ℓ (ts ++ us)) ∧
    ∀ us, ¬ Phrase ℓ (ts ++ r'.lookahead :: us)

/-- What is called: a rule, or its loop behind what is worth `left`. -/
inductive Call where
  | rule (ℓ : Level)
  | loop (ℓ : Level) (start : Position) (left : Int)

/-- What a call comes to where the rules call each other, and the loops go on, without any limit.
The calls that a call makes need to come to an end only where they are made. -/
inductive Ends (source : String) : Call → Reader → EStateM.Result Failure Reader Int → Prop
  | factor {inner : Rule Int} {r : Reader}
      (hin : ∀ t r₁, r.lookahead.kind = .leftParen → eat r = .ok t r₁ →
        Ends source (.rule .expression) r₁ (inner r₁)) :
      Ends source (.rule .factor) r (factorOf source inner r)
  | chain {ℓ ℓ' : Level} {operand : Rule Int} {more : Int → Rule Int} {r : Reader}
      (hℓ : ℓ.operand? = some ℓ') (hfirst : Ends source (.rule ℓ') r (operand r))
      (hmore : ∀ v r₁, operand r = .ok v r₁ →
        Ends source (.loop ℓ r.lookahead.span.start v) r₁ (more v r₁)) :
      Ends source (.rule ℓ) r ((operand >>= more) r)
  | done {ℓ : Level} {start : Position} {left : Int} {r : Reader}
      (hop : ℓ.operation? r.lookahead.kind = none) :
      Ends source (.loop ℓ start left) r (.ok left r)
  | round {ℓ ℓ' : Level} {operand : Rule Int} {more : Int → Rule Int} {start : Position}
      {op : Operation} {left : Int} {r : Reader} (hℓ : ℓ.operand? = some ℓ')
      (hop : ℓ.operation? r.lookahead.kind = some op)
      (hright : ∀ t r₁, eat r = .ok t r₁ → Ends source (.rule ℓ') r₁ (operand r₁))
      (hmore : ∀ t r₁ b r₂ v, eat r = .ok t r₁ → operand r₁ = .ok b r₂ →
        op.meaning left b = .ok v → Ends source (.loop ℓ start v) r₂ (more v r₂)) :
      Ends source (.loop ℓ start left) r (roundOf source operand more start op left r)

/-- What can be consumed before the end of the input never has more than `d` parentheses open. -/
def Within (d : Nat) (r : Reader) : Prop :=
  ∀ ts r', Eats r ts r' → (∀ t ∈ ts, t.kind ≠ .endOfInput) → Nested d ts

variable {source : String} {s : TokenStream} {d k m : Nat} {ℓ ℓ' : Level} {r r₁ r' : Reader}
  {ts : List Token} {c : Call} {x x' : EStateM.Result Failure Reader Int}

/-! ## Positions -/

theorem LooksAt.eats (h : LooksAt s k r) (hts : Eats r ts r') :
    LooksAt s (k + ts.length) r' ∧ (s.drop k).take ts.length = ts.map .ok := by
  induction hts generalizing k with
  | nil r => exact ⟨h, rfl⟩
  | @cons r r₁ r' t ts heat _ ih =>
      obtain ⟨rfl, hnext, -, -⟩ := eat_ok heat
      have hstep : LooksAt s (k + 1) r₁ := by
        refine ⟨?_, ?_⟩
        · rw [TokenStream.item, ← h.stream, hnext]
        · rw [TokenStream.drop_succ, ← h.stream, hnext]
      obtain ⟨hlooks, htake⟩ := ih hstep
      refine ⟨by rwa [List.length_cons, Nat.add_comm ts.length, ← Nat.add_assoc], ?_⟩
      rw [List.length_cons, TokenStream.take_drop_succ, h.lookahead, htake, List.map_cons]

theorem LooksAt.within (h : LooksAt s k r) (hn : s.NestedFrom k d) : Within d r :=
  fun ts _ hts hkinds => hn ts hkinds (h.eats hts).2

theorem nested_of_length_le (h : ts.length ≤ d) : Nested d ts := by
  intro us hus
  have hle : opened us ≤ us.length := List.countP_le_length
  have hlen := hus.length_le
  omega

/-- Before the end of the input there are no more parentheses than tokens. -/
theorem LooksAt.within_of_endOfInput (h : LooksAt s k r) {n : Nat} {t : Token}
    (ht : s.item (k + n) = .ok t) (hk : t.kind = .endOfInput) : Within n r := by
  intro ts r' hts hkinds
  refine nested_of_length_le (Nat.le_of_not_lt fun hlt => ?_)
  -- The token at index `n` is the end of the input.
  rw [← List.take_append_drop n ts, List.drop_eq_getElem_cons hlt] at hts
  obtain ⟨r₁, hfront, hback⟩ := eats_append.1 hts
  have hlooks := (h.eats hfront).1.lookahead
  rw [List.length_take, Nat.min_eq_left (Nat.le_of_lt hlt), ht, hback.lookahead_eq] at hlooks
  cases hlooks
  exact hkinds _ (List.getElem_mem hlt) hk

theorem LooksAt.eat_ne_error (hs : s.ErrorFree) (h : LooksAt s k r) {e : Failure} :
    eat r ≠ .error e r' := by
  intro herror
  have hnext := eat_error herror
  obtain ⟨t, ht⟩ := hs (k + 1)
  rw [TokenStream.item, ← h.stream, hnext] at ht
  cases ht

/-! ## One end only

What a rule comes to depends on the calls that it makes, and on nothing that it does not call. -/

theorem factorOf_congr {inner inner' : Rule Int}
    (h : ∀ t r₁, r.lookahead.kind = .leftParen → eat r = .ok t r₁ → inner r₁ = inner' r₁) :
    factorOf source inner r = factorOf source inner' r := by
  rw [factorOf_eq, factorOf_eq]
  cases hk : r.lookahead.kind with
  | leftParen =>
      cases heat : eat r with
      | error e r₁ => rfl
      | ok t r₁ =>
          dsimp only
          rw [h t r₁ hk heat]
  | integer | plus | minus | times | divide | rightParen | endOfInput => rfl

theorem bind_congr {operand operand' : Rule Int} {more more' : Int → Rule Int}
    (hfirst : operand r = operand' r)
    (hmore : ∀ v r₁, operand r = .ok v r₁ → more v r₁ = more' v r₁) :
    (operand >>= more) r = (operand' >>= more') r := by
  rw [bind_apply, bind_apply, ← hfirst]
  cases h : operand r with
  | error e r₁ => rfl
  | ok v r₁ => exact hmore v r₁ h

theorem roundOf_congr {operand operand' : Rule Int} {more more' : Int → Rule Int}
    {start : Position} {op : Operation} {left : Int}
    (hright : ∀ t r₁, eat r = .ok t r₁ → operand r₁ = operand' r₁)
    (hmore : ∀ t r₁ b r₂ v, eat r = .ok t r₁ → operand r₁ = .ok b r₂ →
      op.meaning left b = .ok v → more v r₂ = more' v r₂) :
    roundOf source operand more start op left r =
      roundOf source operand' more' start op left r := by
  rw [roundOf_eq, roundOf_eq]
  cases heat : eat r with
  | error e r₁ => rfl
  | ok t r₁ =>
      dsimp only
      rw [← hright t r₁ heat]
      cases hb : operand r₁ with
      | error e r₂ => rfl
      | ok b r₂ =>
          dsimp only
          cases hv : op.meaning left b with
          | error z => rfl
          | ok v => exact hmore t r₁ b r₂ v heat hb hv

theorem Ends.unique (h : Ends source c r x) (h' : Ends source c r x') : x = x' := by
  induction h generalizing x' with
  | factor _ ih =>
      cases h' with
      | factor hin => exact factorOf_congr fun t r₁ hk heat => ih t r₁ hk heat (hin t r₁ hk heat)
      | chain hℓ => cases hℓ
  | chain hℓ _ _ ihfirst ihmore =>
      cases h' with
      | factor => cases hℓ
      | chain hℓ' hfirst hmore =>
          cases hℓ.symm.trans hℓ'
          have heq := ihfirst hfirst
          exact bind_congr heq fun v r₁ hv => ihmore v r₁ hv (hmore v r₁ (heq ▸ hv))
  | done hop =>
      cases h' with
      | done => rfl
      | round _ hop' => cases hop.symm.trans hop'
  | round hℓ hop _ _ ihright ihmore =>
      cases h' with
      | done hop' => cases hop.symm.trans hop'
      | round hℓ' hop' hright hmore =>
          cases hℓ.symm.trans hℓ'
          cases hop.symm.trans hop'
          have heq := fun t r₁ heat => ihright t r₁ heat (hright t r₁ heat)
          exact roundOf_congr heq fun t r₁ b r₂ v heat hb hv =>
            ihmore t r₁ b r₂ v heat hb hv (hmore t r₁ b r₂ v heat (heq t r₁ heat ▸ hb) hv)

/-! ## The limits -/

/-- What is left behind tokens that keep `j` parentheses open has `j` less to open. -/
theorem Within.eats {j : Nat} (h : Within (d + j) r) (hts : Eats r ts r')
    (hkinds : ∀ t ∈ ts, t.kind ≠ .endOfInput) (hb : opened ts = closed ts + j) : Within d r' := by
  intro us r'' hus husk
  refine Nested.right (h _ _ (hts.append hus) fun t ht => ?_) hb
  rcases List.mem_append.1 ht with ht | ht
  · exact hkinds t ht
  · exact husk t ht

theorem Within.operator {o : Token} {op : Operation} (h : Within d r) (ho : eat r = .ok o r₁)
    (hop : ℓ.operation? r.lookahead.kind = some op) : Within d r₁ := by
  obtain ⟨rfl, -⟩ := eat_ok ho
  have hstep := step_of_operator (operator_of_operation? hop) 0
  refine Within.eats (j := 0) h (.single ho) (fun t ht hk => ?_) ?_
  · rw [List.mem_singleton] at ht
    rw [← ht, hk] at hstep
    cases hstep
  · have hb := balance_of_step hstep
    omega

theorem Within.value {v : Int} (h : Within d r) (hv : ruleAt source d ℓ r = .ok v r') :
    Within d r' := by
  have hout : Outcome source d ℓ r (ruleAt source d ℓ r) := ruleAt_outcome d ℓ r
  rw [hv] at hout
  cases hout with
  | value hus hg _ _ =>
      exact h.eats (j := 0) hus hg.leads.kind_ne_endOfInput hg.leads.balance

theorem ends_chainTail (hℓ : ℓ.operand? = some ℓ')
    (h : ∀ r, Within d r → Ends source (.rule ℓ') r (ruleAt source d ℓ' r)) (start : Position)
    (rounds : List Item) :
    ∀ {left : Int} {r : Reader}, Ample ℓ.operation? rounds r → Within d r →
      Ends source (.loop ℓ start left) r
        (chainTail source ℓ.operation? (ruleAt source d ℓ') start rounds left r) := by
  -- On the rounds. They run out only where the loop ends anyway.
  induction rounds with
  | nil =>
      intro left r hample _
      refine .done ?_
      by_contra hne
      exact absurd (hample hne) (Nat.not_lt_zero _)
  | cons item rounds ih =>
      intro left r hample hn
      rw [chainTail_eq_round]
      cases hop : ℓ.operation? r.lookahead.kind with
      | none => exact .done hop
      | some op =>
          refine .round hℓ hop (fun o r₁ ho => h r₁ (hn.operator ho hop)) ?_
          intro o r₁ b r₂ v ho hb _
          have hout : Outcome source d ℓ' r₁ (ruleAt source d ℓ' r₁) := ruleAt_outcome d ℓ' r₁
          rw [hb] at hout
          cases hout with
          | value hus hg _ _ =>
              obtain ⟨t, us, rfl, ht⟩ := hg.exists_cons
              exact ih (hample.next (by rw [hop]; simp) ho (ht ℓ) hus)
                ((hn.operator ho hop).value hb)

theorem ends_chain (hℓ : ℓ.operand? = some ℓ')
    (h : ∀ r, Within d r → Ends source (.rule ℓ') r (ruleAt source d ℓ' r)) (hn : Within d r) :
    Ends source (.rule ℓ) r (ruleAt source d ℓ r) := by
  let more : Int → Rule Int := fun v r₁ => chainTail source ℓ.operation? (ruleAt source d ℓ')
    r.lookahead.span.start (.ok r₁.lookahead :: r₁.stream.upcoming) v r₁
  have heq : ruleAt source d ℓ r = (ruleAt source d ℓ' >>= more) r := by
    rw [ruleAt_eq_chain hℓ, chain_eq, bind_apply (ruleAt source d ℓ') more]
    cases ruleAt source d ℓ' r <;> rfl
  rw [heq]
  exact .chain hℓ (h r hn) fun v r₁ hv =>
    ends_chainTail hℓ h _ _ (ample_upcoming _) (hn.value hv)

/-- Where no more parentheses are opened than the limit allows, the limits change nothing. -/
theorem ends_ruleAt (hn : Within d r) (ℓ : Level) :
    Ends source (.rule ℓ) r (ruleAt source d ℓ r) := by
  have hlevels : ∀ {d}, (∀ r, Within d r → Ends source (.rule .factor) r
      (ruleAt source d .factor r)) → ∀ ℓ {r}, Within d r →
      Ends source (.rule ℓ) r (ruleAt source d ℓ r) := by
    intro d hfactor ℓ r hn
    have hterm := fun r (hn : Within d r) => ends_chain (ℓ := .term) rfl hfactor hn
    cases ℓ with
    | factor => exact hfactor r hn
    | term => exact hterm r hn
    | expression => exact ends_chain (ℓ := .expression) rfl hterm hn
  -- On the parentheses that can still be opened, as the rules are built.
  induction d generalizing ℓ r with
  | zero =>
      refine hlevels (fun r hn => .factor fun t r₁ hk heat => ?_) ℓ hn
      obtain ⟨rfl, -⟩ := eat_ok heat
      have hle := hn _ _ (.single heat) (by simp [hk]) _ (List.prefix_refl _)
      have hopen := (leads_leftParen hk).balance
      omega
  | succ d ih =>
      refine hlevels (fun r hn => .factor fun t r₁ hk heat => ?_) ℓ hn
      obtain ⟨rfl, -⟩ := eat_ok heat
      exact ih (hn.eats (.single heat) (by simp [hk]) (leads_leftParen hk).balance) .expression

/-! ## The law -/

/-- Where tokens are consumed from, and where that leads. -/
theorem LooksAt.read (h : LooksAt s k r) (hts : Eats r ts r') :
    ∃ m, m - k = ts.length ∧ k ≤ m ∧ LooksAt s m r' ∧ r'.taken = r.taken + (m - k) ∧
      (s.drop k).take (m - k) = ts.map .ok := by
  obtain ⟨hlooks, htake⟩ := h.eats hts
  have hlen : k + ts.length - k = ts.length := Nat.add_sub_cancel_left k ts.length
  refine ⟨k + ts.length, hlen, Nat.le_add_right _ _, hlooks, ?_, ?_⟩
  · rw [hlen, hts.taken_eq]
  · rw [hlen, htake]

/-- The text consumed last ends with the token before the one looked at. -/
theorem LooksAt.previousEnd (h : LooksAt s k r) (hts : Eats r ts r') (hne : ts ≠ []) :
    ∃ t, s.item (k + ts.length - 1) = .ok t ∧ r'.previousEnd = t.span.stop := by
  obtain ⟨front, t, rfl⟩ := (List.eq_nil_or_concat ts).resolve_left hne
  rw [List.concat_eq_append] at hts ⊢
  refine ⟨t, ?_, hts.previousEnd_eq⟩
  obtain ⟨r₁, hfront, hlast⟩ := eats_append.1 hts
  have hlooks := (h.eats hfront).1.lookahead
  rw [hlast.lookahead_eq] at hlooks
  rw [List.length_append, List.length_singleton, ← Nat.add_assoc, Nat.add_sub_cancel, hlooks]

theorem consumes_of_ok (h : LooksAt s k r) {v : Int} (hv : ruleAt source d ℓ r = .ok v r') :
    ∃ m, Consumes s d ℓ k m v r r' := by
  have hout : Outcome source d ℓ r (ruleAt source d ℓ r) := ruleAt_outcome d ℓ r
  rw [hv] at hout
  cases hout with
  | @value ts e _ _ hts he hv hstop =>
      obtain ⟨m, hm, hle, hlooks, htaken, htake⟩ := h.read hts
      obtain ⟨t, us, rfl, -⟩ := he.exists_cons
      have hend := h.previousEnd hts (List.cons_ne_nil t us)
      rw [← hm, Nat.add_sub_cancel' hle] at hend
      rw [List.length_cons] at hm
      exact ⟨m, by omega, ⟨_, e, htake, he, hv⟩, hlooks, htaken, hend, hstop⟩

/-- Tokens that begin a phrase, and a token behind them that no phrase goes on with. -/
theorem refuses_of_mismatch (h : LooksAt s k r) {due : Due} {x : Expectation}
    (hts : Eats r ts r') (hlead : Leads ts due m)
    (hstep : ∀ n, due.step r'.lookahead.kind (n + m) = none)
    (hlegal : ∀ t, t.kind ∈ x.kinds → ∃ us, Phrase ℓ (ts ++ t :: us)) :
    ∃ m, Refuses s ℓ k m ⟨.mismatch x r'.lookahead, r'.lookahead.span, source⟩ r r' := by
  obtain ⟨n, -, hle, hlooks, htaken, htake⟩ := h.read hts
  obtain ⟨kind, hkind⟩ : ∃ kind, kind ∈ x.kinds := by cases x <;> simp [Expectation.kinds]
  refine ⟨n, hle, hlooks, htaken, ⟨x, rfl, rfl⟩, ts, htake, ?_, fun us hus => ?_⟩
  · obtain ⟨us, hus⟩ := hlegal ⟨kind, none, "", .nowhere⟩ hkind
    exact ⟨_, hus⟩
  · rw [← List.singleton_append, ← List.append_assoc] at hus
    exact hus.scan_ne_none 0 (hlead.scan_eq_none (by simpa using hstep 0))

theorem refuses_of_error (hs : s.ErrorFree) (h : LooksAt s k r) (hn : s.NestedFrom k d)
    {e : Failure} (he : ruleAt source d ℓ r = .error e r') :
    ∃ f, e = .fault f ∧ (f.cause.isEvaluation = true ∨ ∃ m, Refuses s ℓ k m f r r') := by
  have hout : Outcome source d ℓ r (ruleAt source d ℓ r) := ruleAt_outcome d ℓ r
  rw [he] at hout
  cases hout with
  | failure hf =>
      cases hf with
      | item hts _ heat => exact absurd heat ((h.eats hts).1.eat_ne_error hs)
      | mismatch hts hlead _ hstep hlegal =>
          exact ⟨_, rfl, .inr (refuses_of_mismatch h hts hlead hstep hlegal)⟩
      | operation _ _ _ hb =>
          cases hb with
          | @intro _ _ _ _ _ _ _ _ _ z => exact ⟨_, rfl, .inl (by cases z <;> rfl)⟩
      | nesting hts hlead =>
          have hle := h.within hn _ _ hts hlead.kind_ne_endOfInput _ (List.prefix_refl _)
          have hopen := hlead.balance
          omega

/-- A rule that is called anywhere in a stream of tokens. With a value it has consumed a phrase of
that value, one token at least, and stands behind it where the phrase cannot be made longer. If it
fails, and no operation has failed, it stands at the first token with which no phrase goes on, and
what it has consumed begins a phrase. And it does come to an end: it is what the loops and calls
come to that nothing limits, as long as no more parentheses are opened than its limit allows. In a
stream that reaches its end there is always such a limit. -/
theorem consumes_or_refuses [Host] (source : String) {s : TokenStream} {k : Nat} {r : Reader}
    (hs : s.ErrorFree) (hr : LooksAt s k r) (ℓ : Level) :
    (∀ d v r', ruleAt source d ℓ r = .ok v r' → ∃ m, Consumes s d ℓ k m v r r') ∧
    (∀ d e r', s.NestedFrom k d → ruleAt source d ℓ r = .error e r' →
      ∃ f, e = .fault f ∧ (f.cause.isEvaluation = true ∨ ∃ m, Refuses s ℓ k m f r r')) ∧
    (∀ d, s.NestedFrom k d → ∀ x, Ends source (.rule ℓ) r x ↔ x = ruleAt source d ℓ r) ∧
    (∀ n t, s.item (k + n) = .ok t → t.kind = .endOfInput →
      ∀ x, Ends source (.rule ℓ) r x ↔ x = ruleAt source n ℓ r) ∧
    (ruleAt source maxDepth .expression = expression source ∧
      ruleAt source maxDepth .term = term source ∧
      ruleAt source maxDepth .factor = factor source) := by
  have hends : ∀ {d}, Within d r → ∀ x, Ends source (.rule ℓ) r x ↔ x = ruleAt source d ℓ r := by
    intro d hn x
    refine ⟨fun h => h.unique (ends_ruleAt hn ℓ), ?_⟩
    rintro rfl
    exact ends_ruleAt hn ℓ
  exact ⟨fun d v r' hv => consumes_of_ok hr hv, fun d e r' hn he => refuses_of_error hs hr hn he,
    fun d hn => hends (hr.within hn), fun n t ht hk => hends (hr.within_of_endOfInput ht hk),
    rfl, rfl, rfl⟩

/-- Within a product in parentheses, the rule for an expression reads the sum that begins there, and
stops at the parenthesis. -/
theorem consumes_or_refuses_sum :
    let s := TokenStream.ofList
      ((ones [.leftParen, .integer, .plus, .integer, .rightParen, .times]).map .ok)
    let r : Reader := ⟨⟨.integer, some 1, "", .nowhere⟩, s.drop 2, Span.nowhere.stop, 2⟩
    s.ErrorFree ∧ LooksAt s 1 r ∧
      ∃ r', expression "" r = .ok 2 r' ∧ Consumes s maxDepth .expression 1 4 2 r r' := by
  intro s r
  have hs : s.ErrorFree := TokenStream.errorFree_ofList _
  have hr : LooksAt s 1 r := ⟨rfl, rfl⟩
  obtain ⟨r', hexpr, htaken⟩ : ∃ r', expression "" r = .ok 2 r' ∧ r'.taken = 5 := ⟨_, rfl, rfl⟩
  obtain ⟨m, hm⟩ := (consumes_or_refuses "" hs hr .expression).1 maxDepth 2 r' hexpr
  obtain rfl : m = 4 := by
    have hpulled : r'.taken = 2 + (m - 1) := hm.taken
    have hlt := hm.progress
    omega
  exact ⟨hs, hr, r', hexpr, hm⟩

end Reader

end Abacus

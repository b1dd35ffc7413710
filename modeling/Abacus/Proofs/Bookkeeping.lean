import Abacus.Proofs.Lookahead

/-!
# What a reader has done

A reader need not be thrown away when a rule fails. Any rule can be tried on it next, or a single
token can be consumed, and so on for as long as one likes. Whatever was tried, the reader is in good
order, because nothing in it ever changes but by `eat`: a rule that fails has called `eat` a number
of times, and so has a rule that succeeds. `Moves` is the record of these calls, failed ones
included, with the token that each was handed and the item that it pulled.

The record says all there is to say about the reader. A call pulls the next item of the stream, so
the items are pulled in their order and none of them twice. If that item is no token the reader goes
on looking at the token it consumed, so it always looks at the last token that was pulled. The end
of the text consumed last moves with every call, the failed ones included.
-/

namespace Abacus

/-- What is left of a stream after the first `n` items. -/
def TokenStream.drop : Nat → TokenStream → TokenStream
  | 0, s => s
  | n + 1, s => s.next.2.drop n

/-- The last token among the items. -/
def lastToken? (items : List Item) : Option Token :=
  (items.filterMap Except.toOption).getLast?

namespace Reader

/-- A call of `eat`. -/
structure Move where
  handed : Token
  pulled : Item

/-- By calls of `eat`, one after the other and whether they fail or not, the reader gets from `r` to
`r'`. -/
inductive Moves : Reader → List Move → Reader → Prop
  | nil (r : Reader) : Moves r [] r
  | cons {r r' : Reader} {ms : List Move} (h : Moves (after (eat r)) ms r') :
      Moves r (⟨r.lookahead, r.stream.next.1⟩ :: ms) r'

variable {source : String} {allowTrailing : Bool} {s : TokenStream} {items : List Item}
  {r r₀ r₁ r₂ r' : Reader} {t : Token} {ts : List Token} {e : Failure} {ms ms' : List Move}
  {d : Nat} {ℓ : Level} {k : Token.Kind}

/-! ## One call -/

theorem after_eat (r : Reader) :
    after (eat r) = ⟨r.stream.next.1.toOption.getD r.lookahead, r.stream.next.2,
      r.lookahead.span.stop, r.taken + 1⟩ := by
  rw [eat]
  cases r.stream.next.1 with
  | ok t => rfl
  | error e => rfl

/-- A call that fails has pulled an item and consumed a token all the same. -/
theorem eat_error_eq (h : eat r = .error e r') :
    r.stream.next.1 = .error e ∧
      r' = ⟨r.lookahead, r.stream.next.2, r.lookahead.span.stop, r.taken + 1⟩ := by
  have hnext := eat_error h
  have hafter := after_eat r
  rw [h, hnext] at hafter
  exact ⟨hnext, hafter⟩

/-! ## The record -/

theorem Moves.single (r : Reader) : Moves r [⟨r.lookahead, r.stream.next.1⟩] (after (eat r)) :=
  .cons (.nil _)

theorem Moves.append (h : Moves r ms r₁) (h' : Moves r₁ ms' r₂) : Moves r (ms ++ ms') r₂ := by
  induction h with
  | nil r => exact h'
  | cons _ ih => exact .cons (ih h')

theorem moves_append :
    Moves r (ms ++ ms') r₂ ↔ ∃ r₁, Moves r ms r₁ ∧ Moves r₁ ms' r₂ := by
  refine ⟨fun h => ?_, fun ⟨r₁, h, h'⟩ => h.append h'⟩
  induction ms generalizing r with
  | nil => exact ⟨r, .nil r, h⟩
  | cons m ms ih =>
      cases h with
      | cons h =>
          obtain ⟨r₁, h₁, h₂⟩ := ih h
          exact ⟨r₁, .cons h₁, h₂⟩

theorem Moves.taken_eq (h : Moves r ms r') : r'.taken = r.taken + ms.length := by
  induction h with
  | nil r => rfl
  | cons _ ih =>
      rw [ih, after_eat, List.length_cons, Nat.add_right_comm, Nat.add_assoc]

theorem Moves.stream_eq (h : Moves r ms r') : r'.stream = r.stream.drop ms.length := by
  induction h with
  | nil r => rfl
  | cons _ ih =>
      rw [ih, after_eat, List.length_cons, TokenStream.drop]

theorem Moves.pulled_eq (h : Moves r ms r') :
    ms.map Move.pulled = r.stream.take ms.length := by
  induction h with
  | nil r => rfl
  | cons _ ih =>
      rw [List.map_cons, ih, after_eat, List.length_cons, TokenStream.take]

theorem lastToken?_cons_ok (items : List Item) :
    lastToken? (.ok t :: items) = some ((lastToken? items).getD t) := by
  rw [lastToken?, lastToken?, List.filterMap_cons_some (show Except.toOption _ = some t from rfl),
    List.getLast?_cons]

theorem Moves.lookahead_eq (h : Moves r ms r') :
    lastToken? (.ok r.lookahead :: ms.map Move.pulled) = some r'.lookahead := by
  induction h with
  | nil r => rfl
  | @cons r r' ms _ ih =>
      rw [← ih, after_eat, List.map_cons, lastToken?_cons_ok, lastToken?_cons_ok]
      cases r.stream.next.1 with
      | ok t => rw [lastToken?_cons_ok]; rfl
      | error e => rfl

theorem Moves.previousEnd_eq (h : Moves r ms r') :
    r'.previousEnd = (ms.getLast?.map (·.handed.span.stop)).getD r.previousEnd := by
  induction h with
  | nil r => rfl
  | @cons r r' ms _ ih =>
      rw [ih, after_eat, List.getLast?_cons]
      cases ms.getLast? <;> rfl

/-! ## Every rule -/

theorem exists_moves_of_eats (h : Eats r ts r') : ∃ ms, Moves r ms r' := by
  induction h with
  | nil r => exact ⟨[], .nil r⟩
  | @cons r r₁ r' t ts ht _ ih =>
      obtain ⟨ms, hms⟩ := ih
      have hone := Moves.single r
      rw [ht] at hone
      exact ⟨_, hone.append hms⟩

theorem exists_moves_of_fails (h : Fails source d ℓ r e r') : ∃ ms, Moves r ms r' := by
  cases h with
  | @item ts due m _ r₁ _ hts _ he =>
      obtain ⟨ms, hms⟩ := exists_moves_of_eats hts
      have hlast := Moves.single r₁
      rw [he] at hlast
      exact ⟨_, hms.append hlast⟩
  | mismatch hts | nesting hts => exact exists_moves_of_eats hts
  | operation hpre _ _ hb =>
      cases hb with
      | intro _ hts _ _ ho _ hus =>
          exact exists_moves_of_eats ((hpre.append hts).append (.cons ho hus))

theorem exists_moves_ruleAt (source : String) (d : Nat) (ℓ : Level) (r : Reader) :
    ∃ ms, Moves r ms (after (ruleAt source d ℓ r)) := by
  have hout : Outcome source d ℓ r (ruleAt source d ℓ r) := ruleAt_outcome d ℓ r
  generalize ruleAt source d ℓ r = result at hout
  cases hout with
  | value hts => exact exists_moves_of_eats hts
  | failure hf => exact exists_moves_of_fails hf

theorem after_evaluate [Host] (source : String) (allowTrailing : Bool) (r : Reader) :
    after (evaluate source allowTrailing r) = after (expression source r) := by
  rw [evaluate_eq]
  cases expression source r with
  | error e r₁ => rfl
  | ok v r₁ =>
      dsimp only
      split <;> rfl

theorem expect_of_ne (source : String) (h : r.lookahead.kind ≠ k) :
    expect source k r =
      .error (.fault ⟨.mismatch (.token k) r.lookahead, r.lookahead.span, source⟩) r := by
  rw [expect_eq, if_neg h]

theorem factor_of_not_mem [Host] (source : String)
    (h : r.lookahead.kind ∉ Expectation.operand.kinds) :
    factor source r =
      .error (.fault ⟨.mismatch .operand r.lookahead, r.lookahead.span, source⟩) r := by
  rw [factor, factorOf_eq]
  cases hk : r.lookahead.kind with
  | integer | leftParen =>
      rw [hk] at h
      simp [Expectation.kinds] at h
  | plus | minus | times | divide | rightParen | endOfInput => rfl

/-! ## Requests -/

/-- What can be asked of a reader. -/
inductive Request where
  | expression
  | term
  | factor
  | evaluate
  | eat
  | expect (kind : Token.Kind)

/-- The reader that is left when it has done what was asked, or has failed to. -/
def Request.leaves [Host] (source : String) (allowTrailing : Bool) : Request → Reader → Reader
  | .expression, r => after (Reader.expression source r)
  | .term, r => after (Reader.term source r)
  | .factor, r => after (Reader.factor source r)
  | .evaluate, r => after (Reader.evaluate source allowTrailing r)
  | .eat, r => after (Reader.eat r)
  | .expect kind, r => after (Reader.expect source kind r)

/-- The reader that is left after all requests, each made of the reader that the one before left. -/
def leftBy [Host] (source : String) (allowTrailing : Bool) (requests : List Request) (r : Reader) :
    Reader :=
  requests.foldl (fun r request => request.leaves source allowTrailing r) r

theorem exists_moves_leaves [Host] (source : String) (allowTrailing : Bool) (request : Request)
    (r : Reader) : ∃ ms, Moves r ms (request.leaves source allowTrailing r) := by
  cases request with
  | expression => exact exists_moves_ruleAt source maxDepth .expression r
  | term => exact exists_moves_ruleAt source maxDepth .term r
  | factor => exact exists_moves_ruleAt source maxDepth .factor r
  | evaluate =>
      rw [Request.leaves, after_evaluate]
      exact exists_moves_ruleAt source maxDepth .expression r
  | eat => exact ⟨_, .single r⟩
  | expect kind =>
      rw [Request.leaves]
      by_cases hk : r.lookahead.kind = kind
      · rw [expect_eq, if_pos hk]
        exact ⟨_, .single r⟩
      · rw [expect_of_ne source hk]
        exact ⟨[], .nil r⟩

theorem exists_moves_leftBy [Host] (source : String) (allowTrailing : Bool)
    (requests : List Request) (r : Reader) :
    ∃ ms, Moves r ms (leftBy source allowTrailing requests r) := by
  induction requests generalizing r with
  | nil => exact ⟨[], .nil r⟩
  | cons request requests ih =>
      obtain ⟨ms, hms⟩ := exists_moves_leaves source allowTrailing request r
      obtain ⟨ms', hms'⟩ := ih (request.leaves source allowTrailing r)
      exact ⟨ms ++ ms', hms.append hms'⟩

/-! ## From the beginning -/

/-- A reader of the stream, in terms of what has been done since it looked at the first token. -/
structure Accounts (s : TokenStream) (first : Token) (ms : List Move) (r : Reader) : Prop where
  /-- The items were pulled in their order, each of them once. -/
  pulled : .ok first :: ms.map Move.pulled = s.take r.taken
  stream : r.stream = s.drop r.taken
  lookahead : lastToken? (s.take r.taken) = some r.lookahead
  /-- The token handed over is the last one pulled before. -/
  handed : ∀ before m later, ms = before ++ m :: later →
    lastToken? (.ok first :: before.map Move.pulled) = some m.handed
  previousEnd : r.previousEnd =
    (ms.getLast?.map (·.handed.span.stop)).getD first.span.start

theorem accounts_of_moves (hr : ofStream s = .ok r₀) (h : Moves r₀ ms r) :
    Accounts s r₀.lookahead ms r := by
  have hnext := ofStream_eq_ok hr
  have htaken : r.taken = ms.length + 1 := by
    rw [h.taken_eq, Likeness.taken_of_ofStream hr, Nat.add_comm]
  have hend : r₀.previousEnd = r₀.lookahead.span.start := by
    rw [ofStream_of_next hnext, Except.ok.injEq] at hr
    rw [← hr]
  have hpulled : .ok r₀.lookahead :: ms.map Move.pulled = s.take r.taken := by
    rw [htaken, TokenStream.take, hnext, h.pulled_eq]
  refine ⟨hpulled, ?_, ?_, fun before m later hms => ?_, ?_⟩
  · rw [htaken, TokenStream.drop, hnext, h.stream_eq]
  · rw [← hpulled, h.lookahead_eq]
  · obtain ⟨r₁, hbefore, hlater⟩ := moves_append.1 (hms ▸ h)
    rw [hbefore.lookahead_eq]
    cases hlater with
    | cons => rfl
  · rw [h.previousEnd_eq, hend]

/-- A reader of any stream that has been asked for anything, over and over, whether it could do it
or not. All that was done to it is a number of calls of `eat`, which account for its state: it looks
at the last token pulled, the items come in order and once each, and the text consumed last ends
with the token handed over last. And so it goes on: a pull that fails leaves the token looked at,
and a reader that refuses that token is left as it is. -/
theorem leftBy_accounts [Host] {s : TokenStream} {r₀ : Reader} (hr : ofStream s = .ok r₀)
    (source : String) (allowTrailing : Bool) (requests : List Request) :
    let r := leftBy source allowTrailing requests r₀
    (∃ ms, Moves r₀ ms r ∧ Accounts s r₀.lookahead ms r) ∧
    (∀ e r', eat r = .error e r' → r.stream.next.1 = .error e ∧
      r' = ⟨r.lookahead, r.stream.next.2, r.lookahead.span.stop, r.taken + 1⟩) ∧
    (∀ k, r.lookahead.kind ≠ k → expect source k r =
      .error (.fault ⟨.mismatch (.token k) r.lookahead, r.lookahead.span, source⟩) r) ∧
    (r.lookahead.kind ∉ Expectation.operand.kinds → factor source r =
      .error (.fault ⟨.mismatch .operand r.lookahead, r.lookahead.span, source⟩) r) := by
  intro r
  obtain ⟨ms, hms⟩ := exists_moves_leftBy source allowTrailing requests r₀
  exact ⟨⟨ms, hms, accounts_of_moves hr hms⟩, fun _ _ => eat_error_eq, fun _ => expect_of_ne source,
    factor_of_not_mem source⟩

/-- The sum breaks off at an item that is no token. The reader still looks at the operator, refuses
it twice, and hands it over a second time. -/
theorem leftBy_accounts_again :
    let token (kind : Token.Kind) (i : Nat) : Token :=
      ⟨kind, none, "", ⟨.onLine 1 i, .onLine 1 (i + 1)⟩⟩
    let s := TokenStream.ofList [.ok (token .integer 0), .ok (token .plus 1),
      .error (.overlong 4301), .ok (token .rightParen 3)]
    let r₀ : Reader := ⟨token .integer 0, s.next.2, .onLine 1 0, 1⟩
    let r := leftBy "" false [.expression, .expect .rightParen, .factor] r₀
    let r' := leftBy "" false [.expression, .expect .rightParen, .factor, .eat] r₀
    ofStream s = .ok r₀ ∧
    r.lookahead = token .plus 1 ∧ r.previousEnd = .onLine 1 2 ∧ r.taken = 3 ∧
    (∃ ms, Moves r₀ ms r ∧ Accounts s (token .integer 0) ms r) ∧
    r'.lookahead = token .rightParen 3 ∧ r'.previousEnd = .onLine 1 2 ∧ r'.taken = 4 ∧
    ∃ ms, Moves r₀ ms r' ∧ Accounts s (token .integer 0) ms r' := by
  intro token s r₀ r r'
  exact ⟨rfl, rfl, rfl, rfl, (leftBy_accounts rfl "" false _).1, rfl, rfl, rfl,
    (leftBy_accounts rfl "" false _).1⟩

end Reader

end Abacus

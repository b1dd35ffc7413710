import Abacus.Proofs.Streams

/-!
# Which token is blamed

A list of tokens is either a sentence or it is not, and the reader says which; if it is not, one
token is the first with which no sentence goes on, and that is the token the reader complains of.
Two halves make this up. The tokens before it begin a sentence, because the reader was inside a
rule that had phrases to complete. The tokens up to it begin none, because the walk over them,
which every sentence survives, does not.
-/

namespace Abacus

open Reader

/-- The complete inputs that the grammar allows. -/
def Sentence (ts : List Token) : Prop :=
  Phrase .expression ts

/-- Some sentence begins with the tokens. -/
def Viable (ts : List Token) : Prop :=
  ∃ us, Sentence (ts ++ us)

/-- The token at an index, with the end of the input behind the list. -/
def tokenAt (ts : List Token) (n : Nat) : Token :=
  ts[n]?.getD .endOfList

/-- The token at index `n` is the first one out of place: sentences begin with what stands before
it, none begins with it included, and if it is the end of the input, there would have to be more.
Everything that is said to be expected in its place could stand there. -/
structure Blames (ts : List Token) (n : Nat) (x : Expectation) : Prop where
  le_length : n ≤ ts.length
  before : ∀ m ≤ n, Viable (ts.take m)
  misplaced : n < ts.length → ¬ Viable (ts.take (n + 1))
  unfinished : n = ts.length → ¬ Sentence ts
  expected : ∀ t, t.kind ∈ x.kinds → t.kind ≠ .endOfInput → Viable (ts.take n ++ [t])
  complete : .endOfInput ∈ x.kinds → Sentence (ts.take n)

/-- The fault complains of the first token out of place, and says what could stand there. -/
def Complains (ts : List Token) (f : Fault) : Prop :=
  ∃ n x, Blames ts n x ∧ f.cause = .mismatch x (tokenAt ts n) ∧ f.span = (tokenAt ts n).span ∧
    f.cause.message = s!"expected {x.name}, found {(tokenAt ts n).describe}"

variable {source : String} {ts us : List Token} {k : Token} {x : Expectation} {n : Nat}

theorem Viable.of_append (us : List Token) (h : Viable (ts ++ us)) : Viable ts := by
  obtain ⟨vs, h⟩ := h
  exact ⟨us ++ vs, by rwa [← List.append_assoc]⟩

theorem Sentence.viable (h : Sentence ts) : Viable ts :=
  ⟨[], by rwa [List.append_nil]⟩

theorem Viable.scan_ne_none (h : Viable ts) : scan (.operand, 0) ts ≠ none := by
  obtain ⟨us, h⟩ := h
  exact Phrase.scan_ne_none h 0

theorem Sentence.scan_eq (h : Sentence ts) : scan (.operand, 0) ts = some (.operator, 0) := by
  obtain ⟨d, e, h⟩ := h
  exact h.leads 0

theorem Blames.not_sentence (h : Blames ts n x) : ¬ Sentence ts := by
  intro hs
  rcases Nat.lt_or_ge n ts.length with hlt | hge
  · refine h.misplaced hlt (Viable.of_append (ts.drop (n + 1)) ?_)
    rw [List.take_append_drop]
    exact hs.viable
  · exact h.unfinished (Nat.le_antisymm h.le_length hge) hs

theorem Blames.complains (h : Blames ts n x) (hk : tokenAt ts n = k) :
    Complains ts ⟨.mismatch x k, k.span, source⟩ :=
  ⟨n, x, h, by rw [hk], by rw [hk], by rw [hk]; rfl⟩

theorem Complains.not_sentence {f : Fault} (h : Complains ts f) : ¬ Sentence ts := by
  obtain ⟨n, x, h, -⟩ := h
  exact h.not_sentence

/-- What the items of a list of tokens say about the list. -/
theorem take_of_isPrefix (h : us.map .ok ++ [.ok k] <+: ts.map .ok ++ [(.ok .endOfList : Item)]) :
    us.length ≤ ts.length ∧ ts.take us.length = us ∧ tokenAt ts us.length = k := by
  induction us generalizing ts with
  | nil =>
      cases ts with
      | nil =>
          have h := (List.cons_prefix_cons.1 h).1
          exact ⟨Nat.le_refl 0, rfl, (Except.ok.inj h).symm⟩
      | cons t ts =>
          have h := (List.cons_prefix_cons.1 h).1
          exact ⟨Nat.zero_le _, rfl, (Except.ok.inj h).symm⟩
  | cons u us ih =>
      cases ts with
      | nil =>
          have h := (List.cons_prefix_cons.1 h).2
          simp at h
      | cons t ts =>
          have h := List.cons_prefix_cons.1 h
          obtain ⟨hle, htake, hk⟩ := ih h.2
          obtain rfl : u = t := Except.ok.inj h.1
          refine ⟨Nat.succ_le_succ hle, ?_, hk⟩
          rw [List.length_cons, List.take_succ_cons, htake]

/-- The end of the input follows the whole list only. -/
theorem eq_of_endOfInput (hts : ∀ t ∈ ts, t.kind ≠ .endOfInput)
    (h : us.map .ok ++ [.ok k] <+: ts.map .ok ++ [(.ok .endOfList : Item)])
    (hk : k.kind = .endOfInput) : us = ts := by
  obtain ⟨hle, htake, hat⟩ := take_of_isPrefix h
  rcases Nat.lt_or_ge us.length ts.length with hlt | hge
  · rw [tokenAt, List.getElem?_eq_getElem hlt, Option.getD_some] at hat
    exact absurd (hat ▸ hk) (hts _ (List.getElem_mem hlt))
  · rw [← htake, List.take_of_length_le hge]

/-- Tokens that lead somewhere, and a token after them that leads nowhere. -/
theorem blames_of_scan {s : Due × Nat}
    (h : us.map .ok ++ [.ok k] <+: ts.map .ok ++ [(.ok .endOfList : Item)])
    (hs : scan (.operand, 0) us = some s) (hstep : s.1.step k.kind s.2 = none)
    (hend : us.length = ts.length → s ≠ (.operator, 0)) (hviable : Viable us)
    (hexpected : ∀ t, t.kind ∈ x.kinds → t.kind ≠ .endOfInput → Viable (us ++ [t]))
    (hcomplete : .endOfInput ∈ x.kinds → Sentence us) : Blames ts us.length x := by
  obtain ⟨hle, htake, hk⟩ := take_of_isPrefix h
  refine ⟨hle, fun m hm => ?_, fun hlt hv => ?_, fun heq hsent => ?_, ?_, ?_⟩
  · have hmtake := congrArg (List.take m) htake
    rw [List.take_take, Nat.min_eq_left hm] at hmtake
    refine Viable.of_append (us.drop m) ?_
    rw [hmtake, List.take_append_drop]
    exact hviable
  · have hget : ts[us.length]? = some k := by
      rw [tokenAt, List.getElem?_eq_getElem hlt] at hk
      rw [List.getElem?_eq_getElem hlt]
      exact congrArg some hk
    rw [List.take_add_one, htake, hget] at hv
    refine hv.scan_ne_none ?_
    rw [scan_append, hs, Option.bind_some, Option.toList, scan, hstep]
    rfl
  · have heq' : us = ts := by rw [← htake, heq, List.take_length]
    rw [← heq'] at hsent
    exact hend heq (Option.some.inj (hs.symm.trans hsent.scan_eq))
  · rw [htake]
    exact hexpected
  · rw [htake]
    exact hcomplete

/-! ## The reader of a list of tokens -/

/-- No item of the stream is a failure. -/
def Flawless (s : TokenStream) : Prop :=
  ∃ ts : List Token, s = .ofList (ts.map .ok)

theorem Flawless.next {s : TokenStream} (h : Flawless s) :
    ∃ t later, s.next = (.ok t, later) ∧ Flawless later := by
  obtain ⟨ts, rfl⟩ := h
  cases ts with
  | nil => exact ⟨.endOfList, _, rfl, [], rfl⟩
  | cons t ts => exact ⟨t, _, rfl, ts, rfl⟩

theorem Flawless.exists_reader {s : TokenStream} (h : Flawless s) :
    ∃ r, ofStream s = .ok r ∧ Flawless r.stream := by
  obtain ⟨t, later, hn, hlater⟩ := h.next
  exact ⟨_, ofStream_of_next hn, hlater⟩

theorem Flawless.of_eats {r r' : Reader} (hr : Flawless r.stream) (h : Eats r us r') :
    Flawless r'.stream := by
  induction h with
  | nil r => exact hr
  | cons ht _ ih =>
      obtain ⟨t, later, hn, hlater⟩ := hr.next
      have hnext := (eat_ok ht).2.1
      rw [hn, Prod.mk.injEq] at hnext
      exact ih (hnext.2 ▸ hlater)

theorem Flawless.eat_ne_error {r r' : Reader} {e : Failure} (hr : Flawless r.stream) :
    eat r ≠ .error e r' := by
  intro h
  obtain ⟨t, later, hn, -⟩ := hr.next
  have herror := eat_error h
  rw [hn] at herror
  cases herror

theorem isEvaluation_of_breaks {d : Nat} {ℓ : Level} {r r' : Reader} {e : Failure}
    (h : Breaks source d ℓ r e r') : ∃ f, e = .fault f ∧ f.cause.isEvaluation = true := by
  cases h with
  | @intro _ _ _ _ _ _ _ _ _ z => exact ⟨_, rfl, by cases z <;> rfl⟩

/-! ## Blame -/

/-- A complete expression, and a token after it that the strict policy does not let pass. -/
theorem complains_of_stop (source : String) {r r' : Reader} {d : Nat} {e : Expr}
    (hr : ofStream (.ofList (ts.map .ok)) = .ok r) (hus : Eats r us r')
    (he : Derives d .expression us e) (hstop : Level.expression.Stops r'.lookahead.kind)
    (hk : r'.lookahead.kind ≠ .endOfInput) :
    Complains ts
      ⟨.mismatch (.token .endOfInput) r'.lookahead, r'.lookahead.span, source⟩ := by
  have hahead := (ofList_eats_iff he.leads.kind_ne_endOfInput).1 ⟨r, r', hr, hus, rfl⟩
  have hat := (take_of_isPrefix hahead).2.2
  have hsent : Sentence us := he.phrase
  refine (blames_of_scan hahead (he.leads 0) (step_operator_zero hstop) (fun heq => ?_)
    hsent.viable (fun t ht hne => ?_) fun _ => hsent).complains hat
  · rw [heq, tokenAt, List.getElem?_eq_none (Nat.le_refl _)] at hat
    exact absurd (congrArg Token.kind hat.symm) hk
  · rw [Expectation.kinds, List.mem_singleton] at ht
    exact absurd ht hne

/-- A token that does not fit, within the rule for an expression. -/
theorem complains_of_mismatch (source : String) {r r' : Reader} {due : Due} {m : Nat}
    (hr : ofStream (.ofList (ts.map .ok)) = .ok r) (hus : Eats r us r') (hlead : Leads us due m)
    (hm : due = .operator → m ≠ 0) (hstep : ∀ n, due.step r'.lookahead.kind (n + m) = none)
    (hlegal : ∀ t, t.kind ∈ x.kinds → ∃ vs, Phrase .expression (us ++ t :: vs)) :
    Complains ts ⟨.mismatch x r'.lookahead, r'.lookahead.span, source⟩ := by
  have hahead := (ofList_eats_iff hlead.kind_ne_endOfInput).1 ⟨r, r', hr, hus, rfl⟩
  have hexpected : ∀ t, t.kind ∈ x.kinds → Viable (us ++ [t]) := by
    intro t ht
    obtain ⟨vs, hvs⟩ := hlegal t ht
    exact ⟨vs, by rwa [List.append_assoc, List.singleton_append]⟩
  obtain ⟨kind, hkind⟩ : ∃ kind, kind ∈ x.kinds := by cases x <;> simp [Expectation.kinds]
  have hviable : Viable us := (hexpected ⟨kind, none, "", .nowhere⟩ hkind).of_append _
  refine (blames_of_scan hahead (hlead 0) (hstep 0) (fun _ heq => ?_) hviable
    (fun t ht _ => hexpected t ht) (fun hend => ?_)).complains (take_of_isPrefix hahead).2.2
  · rw [Prod.mk.injEq] at heq
    exact hm heq.1 (by omega)
  · obtain ⟨vs, d, e, he⟩ := hlegal .endOfList hend
    exact absurd rfl (he.leads.kind_ne_endOfInput .endOfList (by simp))

/-- Too many open parentheses do not occur within the limit. -/
theorem not_leads_of_nested {r r' : Reader} {d m : Nat}
    (hr : ofStream (.ofList (ts.map .ok)) = .ok r) (hus : Eats r us r')
    (hlead : Leads us .operand m) (hn : Nested d ts) : m ≤ d := by
  have hahead := (ofList_eats_iff hlead.kind_ne_endOfInput).1 ⟨r, r', hr, hus, rfl⟩
  have hle := hn us (by rw [← (take_of_isPrefix hahead).2.1]; exact List.take_prefix _ _)
  have hb := hlead.balance
  omega

/-- Strict reading of a list of tokens, with the end of the input behind it, comes to one of three
ends: a value, and the list is a sentence; a complaint of the first token out of place, and the
list is none; or the failure of an operation. -/
theorem evaluate_strict_tokens [Host] (source : String) {ts : List Token}
    (hts : ∀ t ∈ ts, t.kind ≠ .endOfInput) (hn : Nested maxDepth ts) :
    (∃ v, (TokenStream.ofList (ts.map .ok)).evaluate source false = .ok v ∧ Sentence ts) ∨
    (∃ f, (TokenStream.ofList (ts.map .ok)).evaluate source false = .error (.fault f) ∧
      Complains ts f ∧ ¬ Sentence ts) ∨
    (∃ f, (TokenStream.ofList (ts.map .ok)).evaluate source false = .error (.fault f) ∧
      f.cause.isEvaluation = true) := by
  obtain ⟨r, hr, hflaw⟩ := Flawless.exists_reader ⟨ts, rfl⟩
  have hout := expression_outcome source r
  cases hexpr : expression source r with
  | ok v r' =>
      rw [hexpr] at hout
      have heval := (evaluate_policies hr hexpr).2
      cases hout with
      | @value us e _ _ hus he hv hstop =>
          by_cases hk : r'.lookahead.kind = .endOfInput
          · rw [if_pos hk] at heval
            obtain rfl := eq_of_endOfInput hts
              ((ofList_eats_iff he.leads.kind_ne_endOfInput).1 ⟨r, r', hr, hus, rfl⟩) hk
            exact .inl ⟨v, heval, he.phrase⟩
          · rw [if_neg hk] at heval
            have hc := complains_of_stop source hr hus he hstop hk
            exact .inr (.inl ⟨_, heval, hc, hc.not_sentence⟩)
  | error e r' =>
      rw [hexpr] at hout
      have heval := evaluate_of_no_expression hr hexpr false
      cases hout with
      | failure hf =>
          cases hf with
          | item hus _ he => exact absurd he (hflaw.of_eats hus).eat_ne_error
          | mismatch hus hlead hm hstep hlegal =>
              have hc := complains_of_mismatch source hr hus hlead hm hstep hlegal
              exact .inr (.inl ⟨_, heval, hc, hc.not_sentence⟩)
          | operation _ _ _ hb =>
              obtain ⟨f, rfl, hf⟩ := isEvaluation_of_breaks hb
              exact .inr (.inr ⟨f, heval, hf⟩)
          | nesting hus hlead =>
              have := not_leads_of_nested hr hus hlead hn
              omega

/-- An operator without a right operand: the parenthesis after it is to blame. -/
theorem evaluate_strict_dangling_operator :
    (∀ t ∈ ones [.leftParen, .integer, .plus, .rightParen], t.kind ≠ .endOfInput) ∧
    Nested maxDepth (ones [.leftParen, .integer, .plus, .rightParen]) ∧
    ∃ f, (TokenStream.ofList
        ((ones [.leftParen, .integer, .plus, .rightParen]).map .ok)).evaluate "" false =
          .error (.fault f) ∧
      Complains (ones [.leftParen, .integer, .plus, .rightParen]) f ∧
      ¬ Sentence (ones [.leftParen, .integer, .plus, .rightParen]) := by
  have hts : ∀ t ∈ ones [.leftParen, .integer, .plus, .rightParen], t.kind ≠ .endOfInput := by
    decide
  have hn : Nested maxDepth (ones [.leftParen, .integer, .plus, .rightParen]) := by decide
  refine ⟨hts, hn, ?_⟩
  rcases evaluate_strict_tokens "" hts hn with ⟨v, h, -⟩ | h | ⟨f, h, hf⟩
  · cases h
  · exact h
  · cases h
    cases hf

end Abacus

import Abacus.Proofs.Streams

/-!
# What may follow an expression

Reading stops at the first token that does not make the expression longer. Whatever the items are,
there is at most one place where an expression with a value ends and such a token follows, because
the reader finds every such place and is found at one of them only. The policy on trailing tokens
comes in after that place has been found, and decides nothing but whether its token has to be the
end of the input.
-/

namespace Abacus

open Reader

/-- The items begin with an expression that is worth `v`, and after it with a token that is no
operator. -/
structure Cut (items : List Item) (ts : List Token) (v : Int) (k : Token) : Prop where
  ahead : ts.map .ok ++ [.ok k] <+: items ++ [.ok .endOfList]
  worth : ∃ d e, Derives d .expression ts e ∧ e.eval = .ok v
  stop : k.kind ∉ [.plus, .minus, .times, .divide]

variable {source : String} {items : List Item} {ts ts' : List Token} {v v' : Int} {k k' : Token}
  {r r' : Reader}

/-- An expression that was read ends at a cut. -/
theorem cut_of_expression [Host] (hr : ofStream (.ofList items) = .ok r)
    (h : expression source r = .ok v r') : ∃ ts, Cut items ts v r'.lookahead := by
  have hout := expression_outcome source r
  rw [h] at hout
  cases hout with
  | @value ts e _ _ hts he hv hstop =>
      refine ⟨ts, ?_, ⟨maxDepth, e, he, hv⟩, Level.stops_expression_iff.1 hstop⟩
      exact (ofList_eats_iff he.leads.kind_ne_endOfInput).1 ⟨r, r', hr, hts, rfl⟩

/-- A cut is where reading ends, with any rule that allows enough parentheses. -/
theorem Cut.exists_reader (h : Cut items ts v k) (source : String) : ∃ r r',
    ofStream (.ofList items) = .ok r ∧ Eats r ts r' ∧ r'.lookahead = k ∧
      ∃ D, ∀ d, (D ≤ d ∨ Nested d ts) → ruleAt source d .expression r = .ok v r' := by
  obtain ⟨D, e, he, hv⟩ := h.worth
  obtain ⟨r, r', hr, hts, rfl⟩ := (ofList_eats_iff he.leads.kind_ne_endOfInput).2 h.ahead
  refine ⟨r, r', hr, hts, rfl, D, fun d hd => ?_⟩
  refine ruleAt_of_derives ?_ hts (Level.stops_expression_iff.2 h.stop) hv
  rcases hd with hd | hd
  · exact he.mono hd
  · exact he.within hd

theorem Cut.unique (h : Cut items ts v k) (h' : Cut items ts' v' k') : ts = ts' := by
  obtain ⟨r, r₁, hr, hts, -, D, hrule⟩ := h.exists_reader ""
  obtain ⟨r', r₁', hr', hts', -, D', hrule'⟩ := h'.exists_reader ""
  cases hr.symm.trans hr'
  -- A rule that allows the parentheses of both reads both, and has one result only.
  have h₁ := hrule (D + D') (.inl (by omega))
  have h₂ := hrule' (D + D') (.inl (by omega))
  cases h₁.symm.trans h₂
  have hlen : ts.length = ts'.length := by
    have h₁ := hts.taken_eq
    have h₂ := hts'.taken_eq
    omega
  have hpre := List.prefix_of_prefix_length_le h.ahead h'.ahead (by simp [hlen])
  have heq := (hpre.eq_of_length (by simp [hlen]))
  have hmap := (List.append_inj heq (by simp [hlen])).1
  exact (List.map_inj_right fun _ _ h => Except.ok.inj h).1 hmap

/-- Nothing after the cut matters. -/
theorem Cut.evaluate_lenient [Host] (h : Cut items ts v k) (hn : Nested maxDepth ts) :
    (TokenStream.ofList items).evaluate source true = .ok v := by
  obtain ⟨r, r', hr, -, -, D, hrule⟩ := h.exists_reader source
  have hexpr : expression source r = .ok v r' := hrule maxDepth (.inr hn)
  rw [TokenStream.evaluate_eq, hr]
  dsimp only
  rw [hexpr]
  simp

theorem Cut.nested [Host] (h : Cut items ts v k) (hn : Nested maxDepth (leadingTokens items)) :
    Nested maxDepth ts := by
  have hts : ts.map .ok <+: items := by
    rcases List.prefix_concat_iff.1 h.ahead with heq | hpre
    · exact ⟨[], (List.append_nil _).trans (List.append_inj' heq rfl).1⟩
    · exact (List.prefix_append _ _).trans hpre
  exact fun us hus => hn us (hus.trans (isPrefix_leadingTokens hts))

theorem evaluate_lenient_iff [Host] (hn : Nested maxDepth (leadingTokens items)) :
    (TokenStream.ofList items).evaluate source true = .ok v ↔ ∃ ts k, Cut items ts v k := by
  constructor
  · intro h
    cases hr : ofStream (.ofList items) with
    | error e => rw [TokenStream.evaluate_eq, hr] at h; cases h
    | ok r =>
        cases hexpr : expression source r with
        | error e r' => rw [evaluate_of_no_expression hr hexpr] at h; cases h
        | ok w r' =>
            rw [(evaluate_policies hr hexpr).1] at h
            cases h
            obtain ⟨ts, hcut⟩ := cut_of_expression hr hexpr
            exact ⟨ts, _, hcut⟩
  · rintro ⟨ts, k, hcut⟩
    exact hcut.evaluate_lenient (hcut.nested hn)

/-- The strict policy, at a place where the lenient one comes to a value. -/
theorem Cut.evaluate_strict [Host] (h : Cut items ts v k) (source : String)
    (hn : Nested maxDepth ts) :
    (TokenStream.ofList items).evaluate source false =
      if k.kind = .endOfInput then .ok v
      else .error (.fault ⟨.mismatch (.token .endOfInput) k, k.span, source⟩) := by
  obtain ⟨r, r', hr, -, rfl, D, hrule⟩ := h.exists_reader source
  exact (evaluate_policies hr (hrule maxDepth (.inr hn))).2

theorem evaluate_strict_of_lenient_error [Host] {e : Failure}
    (h : (TokenStream.ofList items).evaluate source true = .error e) :
    (TokenStream.ofList items).evaluate source false = .error e := by
  cases hr : ofStream (.ofList items) with
  | error f =>
      rw [TokenStream.evaluate_eq, hr] at h ⊢
      exact h
  | ok r =>
      cases hexpr : expression source r with
      | error f r' =>
          rw [evaluate_of_no_expression hr hexpr] at h ⊢
          exact h
      | ok w r' =>
          rw [(evaluate_policies hr hexpr).1] at h
          cases h

/-- The two policies. Without the strict one, a list of items has the value `v` exactly if it can be
cut after an expression that is worth `v`; there is one such place at most, and nothing behind the
token that follows it matters. The strict policy asks in addition that this token be the end of the
input, blames it if it is not, and otherwise fails just as the other policy does. -/
theorem evaluate_trailing [Host] (source : String) {items : List Item}
    (hn : Nested maxDepth (leadingTokens items)) :
    (∀ v, (TokenStream.ofList items).evaluate source true = .ok v ↔
      ∃ ts k, Cut items ts v k) ∧
    (∀ ts v k ts' v' k', Cut items ts v k → Cut items ts' v' k' → ts = ts') ∧
    (∀ ts v k items', Cut items ts v k →
      ts.map .ok ++ [.ok k] <+: items' ++ [.ok .endOfList] →
      (TokenStream.ofList items').evaluate source true = .ok v) ∧
    (∀ v, (TokenStream.ofList items).evaluate source false = .ok v ↔
      ∃ ts k, Cut items ts v k ∧ k.kind = .endOfInput) ∧
    (∀ v, (TokenStream.ofList items).evaluate source true = .ok v →
      (TokenStream.ofList items).evaluate source false ≠ .ok v →
      ∃ ts k, Cut items ts v k ∧ k.kind ≠ .endOfInput ∧
        (TokenStream.ofList items).evaluate source false =
          .error (.fault ⟨.mismatch (.token .endOfInput) k, k.span, source⟩)) ∧
    (∀ e, (TokenStream.ofList items).evaluate source true = .error e →
      (TokenStream.ofList items).evaluate source false = .error e) := by
  refine ⟨fun v => evaluate_lenient_iff hn, fun ts v k ts' v' k' h h' => h.unique h',
    fun ts v k items' h hahead => ?_, fun v => ⟨fun h => ?_, ?_⟩, fun v h hne => ?_,
    fun e h => evaluate_strict_of_lenient_error h⟩
  · have h' : Cut items' ts v k := ⟨hahead, h.worth, h.stop⟩
    exact h'.evaluate_lenient (h.nested hn)
  · cases hl : (TokenStream.ofList items).evaluate source true with
    | error e => rw [evaluate_strict_of_lenient_error hl] at h; cases h
    | ok w =>
        obtain ⟨ts, k, hcut⟩ := (evaluate_lenient_iff hn).1 hl
        rw [hcut.evaluate_strict source (hcut.nested hn)] at h
        split at h
        · next hk => cases h; exact ⟨ts, k, hcut, hk⟩
        · cases h
  · rintro ⟨ts, k, hcut, hk⟩
    rw [hcut.evaluate_strict source (hcut.nested hn), if_pos hk]
  · obtain ⟨ts, k, hcut⟩ := (evaluate_lenient_iff hn).1 h
    have hstrict := hcut.evaluate_strict source (hcut.nested hn)
    split at hstrict
    · exact absurd hstrict hne
    · next hk => exact ⟨ts, k, hcut, hk, hstrict⟩

/-- One and one, a parenthesis too many, and then no token at all: the sum for one policy, and the
parenthesis to blame for the other. -/
theorem evaluate_trailing_parenthesis :
    Nested maxDepth (leadingTokens ((ones [.integer, .plus, .integer, .rightParen]).map .ok ++
      [.error (.overlong 5000)])) ∧
    ∃ ts k, Cut ((ones [.integer, .plus, .integer, .rightParen]).map .ok ++
        [.error (.overlong 5000)]) ts 2 k ∧ k.kind ≠ .endOfInput ∧
      (TokenStream.ofList ((ones [.integer, .plus, .integer, .rightParen]).map .ok ++
        [.error (.overlong 5000)])).evaluate "" false =
          .error (.fault ⟨.mismatch (.token .endOfInput) k, k.span, ""⟩) := by
  have hn : Nested maxDepth (leadingTokens
      ((ones [.integer, .plus, .integer, .rightParen]).map .ok ++ [.error (.overlong 5000)])) := by
    decide
  refine ⟨hn, (evaluate_trailing "" hn).2.2.2.2.1 2 rfl fun h => ?_⟩
  cases h

end Abacus

import Abacus.Proofs.Completeness

/-!
# Reading a whole stream

A stream is read by a reader that looks at its first token. Where a list of tokens stands in the
stream is said in terms of the items of the stream, not of readers: the tokens are the first items,
and one more token follows. For a list of items that goes on with the end of the input for ever,
that is a statement about the list with one end of the input behind it.
-/

namespace Abacus

open Reader

/-- What reading a stream comes to; `source` is the text that faults are reported on. -/
def TokenStream.evaluate [Host] (s : TokenStream) (source : String) (allowTrailing : Bool) :
    Except Failure Int :=
  match ofStream s with
  | .error e => .error e
  | .ok r =>
    match Reader.evaluate source allowTrailing r with
    | .ok v _ => .ok v
    | .error e _ => .error e

theorem evaluate_eq_stream [Host] (source : String) (line : Int) (allowTrailing : Bool) :
    evaluate source line allowTrailing =
      (Cursor.ofSource source line).toStream.evaluate source allowTrailing :=
  rfl

variable {s : TokenStream} {source : String} {r r' : Reader} {ts us : List Token} {t k : Token}
  {items : List Item} {e : Failure} {v : Int}

theorem TokenStream.evaluate_eq [Host] (s : TokenStream) (source : String) (allowTrailing : Bool) :
    s.evaluate source allowTrailing =
      match ofStream s with
      | .error e => .error e
      | .ok r =>
        match expression source r with
        | .error e _ => .error e
        | .ok v r' =>
          if allowTrailing = false ∧ r'.lookahead.kind ≠ .endOfInput then
            .error (.fault
              ⟨.mismatch (.token .endOfInput) r'.lookahead, r'.lookahead.span, source⟩)
          else .ok v := by
  rw [TokenStream.evaluate]
  cases ofStream s with
  | error e => rfl
  | ok r =>
      dsimp only
      rw [Reader.evaluate_eq]
      cases expression source r with
      | error e r' => rfl
      | ok v r' =>
          dsimp only
          by_cases hk : allowTrailing = false ∧ r'.lookahead.kind ≠ .endOfInput
          · rw [if_pos hk, if_pos hk]
          · rw [if_neg hk, if_neg hk]

theorem ofStream_eq_ok (h : ofStream s = .ok r) : s.next = (.ok r.lookahead, r.stream) := by
  rw [ofStream] at h
  cases hn : s.next with
  | mk item later =>
      rw [hn] at h
      cases item with
      | error e => cases h
      | ok t => cases h; rfl

theorem ofStream_of_next {later : TokenStream} (h : s.next = (.ok t, later)) :
    ofStream s = .ok ⟨t, later, t.span.start, 1⟩ := by
  rw [ofStream, h]

theorem ofStream_eq_error_iff : ofStream s = .error e ↔ s.next.1 = .error e := by
  rw [ofStream]
  cases s.next with
  | mk item later =>
      cases item with
      | error e' => simp
      | ok t => simp

theorem evaluate_of_no_reader [Host] (h : ofStream s = .error e) (allowTrailing : Bool) :
    s.evaluate source allowTrailing = .error e := by
  rw [TokenStream.evaluate_eq, h]

theorem evaluate_of_expression [Host] (hr : ofStream s = .ok r) (h : expression source r = .ok v r')
    (allowTrailing : Bool) :
    s.evaluate source allowTrailing =
      if allowTrailing = false ∧ r'.lookahead.kind ≠ .endOfInput then
        .error (.fault
          ⟨.mismatch (.token .endOfInput) r'.lookahead, r'.lookahead.span, source⟩)
      else .ok v := by
  rw [TokenStream.evaluate_eq, hr]
  dsimp only
  rw [h]

/-- How the two policies go on from the place where reading ends. -/
theorem evaluate_policies [Host] (hr : ofStream s = .ok r) (h : expression source r = .ok v r') :
    s.evaluate source true = .ok v ∧
      s.evaluate source false =
        if r'.lookahead.kind = .endOfInput then .ok v
        else .error (.fault
          ⟨.mismatch (.token .endOfInput) r'.lookahead, r'.lookahead.span, source⟩) := by
  rw [evaluate_of_expression hr h, evaluate_of_expression hr h]
  by_cases hk : r'.lookahead.kind = .endOfInput <;> simp [hk]

theorem evaluate_of_endOfInput [Host] (hr : ofStream s = .ok r) (h : expression source r = .ok v r')
    (hk : r'.lookahead.kind = .endOfInput) (allowTrailing : Bool) :
    s.evaluate source allowTrailing = .ok v := by
  rw [evaluate_of_expression hr h, if_neg]
  rintro ⟨-, hne⟩
  exact hne hk

theorem evaluate_of_no_expression [Host] (hr : ofStream s = .ok r)
    (h : expression source r = .error e r') (allowTrailing : Bool) :
    s.evaluate source allowTrailing = .error e := by
  rw [TokenStream.evaluate_eq, hr]
  dsimp only
  rw [h]

/-- The first items of a stream are the tokens that its reader can consume, and the one that it
looks at then. -/
theorem ofStream_eats_iff :
    (∃ r r', ofStream s = .ok r ∧ Eats r ts r' ∧ r'.lookahead = k) ↔
      s.take (ts.length + 1) = ts.map .ok ++ [.ok k] := by
  rw [TokenStream.take]
  constructor
  · rintro ⟨r, r', hr, h⟩
    rw [ofStream_eq_ok hr]
    exact eats_iff.1 ⟨r', h⟩
  · intro h
    cases hn : s.next with
    | mk item later =>
        rw [hn] at h
        cases item with
        | error e => cases ts <;> cases h
        | ok t =>
            obtain ⟨r', h⟩ := (eats_iff (r := ⟨t, later, t.span.start, 1⟩)).2 h
            exact ⟨_, r', ofStream_of_next hn, h⟩

/-! ## Lists of items -/

/-- The tokens before the first failure. -/
def leadingTokens : List Item → List Token
  | .ok t :: items => t :: leadingTokens items
  | _ => []

theorem leadingTokens_append (ts : List Token) (items : List Item) :
    leadingTokens (ts.map .ok ++ items) = ts ++ leadingTokens items := by
  induction ts with
  | nil => rfl
  | cons t ts ih => rw [List.map_cons, List.cons_append, leadingTokens, ih, List.cons_append]

theorem isPrefix_leadingTokens (h : ts.map .ok <+: items) : ts <+: leadingTokens items := by
  obtain ⟨vs, rfl⟩ := h
  rw [leadingTokens_append]
  exact List.prefix_append _ _

theorem take_ofList_iff (hts : ∀ t ∈ ts, t.kind ≠ .endOfInput) :
    (TokenStream.ofList items).take (ts.length + 1) = ts.map .ok ++ [.ok k] ↔
      ts.map .ok ++ [.ok k] <+: items ++ [.ok .endOfList] := by
  induction ts generalizing items with
  | nil =>
      cases items with
      | nil =>
          simp only [List.length_nil, TokenStream.take, TokenStream.ofList, TokenStream.next,
            List.map_nil, List.nil_append, List.cons_prefix_cons, List.nil_prefix, and_true]
          constructor
          · intro h; cases h; rfl
          · intro h; cases h; rfl
      | cons item items =>
          simp only [List.length_nil, TokenStream.take, TokenStream.ofList, TokenStream.next,
            List.map_nil, List.nil_append, List.cons_append, List.cons_prefix_cons,
            List.nil_prefix, and_true]
          constructor
          · intro h; cases h; rfl
          · intro h; cases h; rfl
  | cons t ts ih =>
      have ht : t.kind ≠ .endOfInput := hts t (by simp)
      rw [List.length_cons, TokenStream.take, List.map_cons, List.cons_append]
      cases items with
      | nil =>
          have hne : t ≠ .endOfList := fun h => ht (by rw [h]; rfl)
          simp only [TokenStream.ofList, TokenStream.next, List.cons.injEq, Except.ok.injEq,
            List.nil_append, List.cons_prefix_cons, hne, hne.symm, false_and]
      | cons item items =>
          have h := @ih items fun u hu => hts u (by simp [hu])
          rw [List.cons_append, List.cons_prefix_cons, ← h]
          simp only [TokenStream.ofList, TokenStream.next, List.cons.injEq]
          exact ⟨fun h => ⟨h.1.symm, h.2⟩, fun h => ⟨h.1.symm, h.2⟩⟩

/-- Where the reader of a list of items stands after consuming tokens. -/
theorem ofList_eats_iff (hts : ∀ t ∈ ts, t.kind ≠ .endOfInput) :
    (∃ r r', ofStream (.ofList items) = .ok r ∧ Eats r ts r' ∧ r'.lookahead = k) ↔
      ts.map .ok ++ [.ok k] <+: items ++ [.ok .endOfList] :=
  ofStream_eats_iff.trans (take_ofList_iff hts)

/-- Tokens of the given kinds, found nowhere; the integers among them are all one. -/
def ones (kinds : List Token.Kind) : List Token :=
  kinds.map fun k => ⟨k, some 1, "", .nowhere⟩

end Abacus

import Abacus.Proofs.Items

/-!
# One item ahead

The reader takes an item only when it consumes the token before it, and it consumes nothing but
tokens that can stand where they stand. So the items that it has taken when it comes to its end are
tokens, none of them the end of the input, and then one item more, which it has looked at. That item
decides: if it is no token the reading fails with it, whatever the tokens before it would have come
to, and the failure of an operation comes out only if the item after the right operand is a token.
What lies behind has not been taken and cannot matter.
-/

namespace Abacus

open Reader

/-- The tokens end with an operation that has no value, although both its operands have one. -/
inductive EndsInFailure (source : String) : List Token → Fault → Prop
  | intro {d : Nat} {ℓ ℓ' : Level} {pre ls ms : List Token} {l o m : Token} {op : Operation}
      {e g : Expr} {a b : Int} {z : Operation.Failure} (hℓ : ℓ.operand? = some ℓ')
      (he : Derives d ℓ (l :: ls) e) (ha : e.eval = .ok a) (hop : ℓ.operation? o.kind = some op)
      (hg : Derives d ℓ' (m :: ms) g) (hb : g.eval = .ok b) (hz : op.meaning a b = .error z) :
      EndsInFailure source (pre ++ (l :: ls ++ o :: m :: ms)) ⟨z.cause, z.span l.span.start
        m.span.start ((m :: ms).getLast (List.cons_ne_nil m ms)).span.stop, source⟩

/-- The items that a reading takes, and what it comes to. -/
inductive Takes [Host] (source : String) : List Item → Except Failure Int → Prop
  | failure {ts : List Token} {e : Failure} (hts : ∀ t ∈ ts, t.kind ≠ .endOfInput) :
      Takes source (ts.map .ok ++ [.error e]) (.error e)
  | value {ts : List Token} {k : Token} {e : Expr} {v : Int}
      (he : Derives maxDepth .expression ts e) (hv : e.eval = .ok v) :
      Takes source (ts.map .ok ++ [.ok k]) (.ok v)
  | form {ts : List Token} {k : Token} {f : Fault} (hts : ∀ t ∈ ts, t.kind ≠ .endOfInput)
      (hf : f.cause.isEvaluation = false) :
      Takes source (ts.map .ok ++ [.ok k]) (.error (.fault f))
  | operation {ts : List Token} {k : Token} {f : Fault} (hts : ∀ t ∈ ts, t.kind ≠ .endOfInput)
      (h : EndsInFailure source ts f) :
      Takes source (ts.map .ok ++ [.ok k]) (.error (.fault f))

variable {s s' : TokenStream} {source : String} {allowTrailing : Bool} {r r' : Reader}
  {ts : List Token} {items : List Item} {result : Except Failure Int} {e : Failure} {n m : Nat}

/-! ## The first items of a stream -/

theorem TokenStream.length_take (n : Nat) (s : TokenStream) : (s.take n).length = n := by
  induction n generalizing s with
  | zero => rfl
  | succ n ih => rw [TokenStream.take, List.length_cons, ih]

theorem TokenStream.take_take (h : m ≤ n) (s : TokenStream) : (s.take n).take m = s.take m := by
  induction n generalizing s m with
  | zero =>
      obtain rfl : m = 0 := by omega
      rfl
  | succ n ih =>
      cases m with
      | zero => rfl
      | succ m => rw [TokenStream.take, TokenStream.take, List.take_succ_cons, ih (by omega)]

theorem TokenStream.take_ofList (h : n ≤ items.length) :
    (TokenStream.ofList items).take n = items.take n := by
  induction items generalizing n with
  | nil =>
      obtain rfl : n = 0 := by simpa using h
      rfl
  | cons item items ih =>
      cases n with
      | zero => rfl
      | succ n => exact congrArg (item :: ·) (ih (by simpa using h))

/-- The items that a reader has before it are the tokens that it consumes, the one that it looks at
then, and what is left. -/
theorem take_of_eats (h : Eats r ts r') (n : Nat) :
    .ok r.lookahead :: r.stream.take (ts.length + n) =
      ts.map .ok ++ .ok r'.lookahead :: r'.stream.take n := by
  induction h with
  | nil r => rw [List.length_nil, Nat.zero_add]; rfl
  | cons ht hs ih =>
      obtain ⟨rfl, hnext, -, -⟩ := eat_ok ht
      rw [List.length_cons, Nat.add_right_comm, TokenStream.take, hnext, ih]
      rfl

theorem take_of_no_reader (hr : ofStream s = .error e) : s.take 1 = [.error e] := by
  rw [TokenStream.take, TokenStream.take, ofStream_eq_error_iff.1 hr]

theorem take_of_ofStream (hr : ofStream s = .ok r) (h : Eats r ts r') :
    s.take r'.taken = ts.map .ok ++ [.ok r'.lookahead] := by
  have htaken := h.taken_eq
  rw [Likeness.taken_of_ofStream hr, Nat.add_comm] at htaken
  rw [htaken, TokenStream.take, ofStream_eq_ok hr]
  exact take_of_eats h 0

theorem take_of_ofStream_error (hr : ofStream s = .ok r) (h : Eats r ts r')
    {r'' : Reader} (he : eat r' = .error e r'') :
    s.take r''.taken = (ts ++ [r'.lookahead]).map .ok ++ [.error e] := by
  have htaken := h.taken_eq
  rw [Likeness.taken_of_ofStream hr, Nat.add_comm] at htaken
  rw [Likeness.taken_of_eat_error he, htaken, TokenStream.take, ofStream_eq_ok hr]
  refine (take_of_eats h 1).trans ?_
  simp [TokenStream.take, eat_error he]

/-! ## What is taken -/

theorem endsInFailure_of_breaks {d : Nat} {ℓ : Level} (pre : List Token)
    (h : Breaks source d ℓ r e r') :
    ∃ f us, e = .fault f ∧ Eats r us r' ∧ Leads us .operator 0 ∧
      EndsInFailure source (pre ++ us) f := by
  cases h with
  | @intro ℓ' ts us o op e g a b z r₁ r₂ _ hℓ hts he ha ho hop hus hg hb hz =>
      have hlead := (he.leads.operator (operator_of_operation? hop)).append hg.leads
      rw [List.append_assoc] at hlead
      have hall := hts.append (.cons ho hus)
      obtain ⟨l, ls, rfl, -⟩ := he.exists_cons
      obtain ⟨m, ms, rfl, -⟩ := hg.exists_cons
      have hend : r'.previousEnd = ((m :: ms).getLast (List.cons_ne_nil m ms)).span.stop := by
        have hlast := List.dropLast_concat_getLast (List.cons_ne_nil m ms)
        rw [← hlast] at hus
        exact hus.previousEnd_eq
      refine ⟨_, _, rfl, hall, hlead, ?_⟩
      rw [hts.lookahead_eq, hus.lookahead_eq, hend]
      exact .intro hℓ he ha hop hg hb hz

theorem takes_of_fails [Host] (hr : ofStream s = .ok r)
    (h : Fails source maxDepth .expression r e r') : Takes source (s.take r'.taken) (.error e) := by
  cases h with
  | item hts hlead he =>
      rw [take_of_ofStream_error hr hts he]
      exact .failure hlead.kind_ne_endOfInput
  | mismatch hts hlead | nesting hts hlead =>
      rw [take_of_ofStream hr hts]
      exact .form hlead.kind_ne_endOfInput rfl
  | @operation pre _ _ _ _ _ _ hpre hlead _ hb =>
      obtain ⟨f, us, rfl, hus, hlead', hf⟩ := endsInFailure_of_breaks pre hb
      rw [take_of_ofStream hr (hpre.append hus)]
      exact .operation (hlead.append hlead').kind_ne_endOfInput hf

/-- The items that are taken, for every stream and either policy. -/
theorem takes_run [Host] (s : TokenStream) (source : String) (allowTrailing : Bool) :
    Takes source (s.take (s.run source allowTrailing).2) (s.run source allowTrailing).1 := by
  rw [TokenStream.run_eq]
  cases hr : ofStream s with
  | error e =>
      dsimp only
      rw [take_of_no_reader hr]
      exact @Takes.failure _ source [] e (by simp)
  | ok r =>
      have hout := expression_outcome source r
      dsimp only
      generalize expression source r = x at hout ⊢
      cases hout with
      | failure hf => exact takes_of_fails hr hf
      | value hts he hv _ =>
          dsimp only
          split
          · dsimp only
            rw [take_of_ofStream hr hts]
            exact .form he.leads.kind_ne_endOfInput rfl
          · dsimp only
            rw [take_of_ofStream hr hts]
            exact .value he hv

theorem Takes.exists_eq [Host] (h : Takes source items result) :
    ∃ (ts : List Token) (item : Item), items = ts.map .ok ++ [item] ∧
      (∀ t ∈ ts, t.kind ≠ .endOfInput) ∧ ∀ e, item = .error e → result = .error e := by
  cases h with
  | failure hts => exact ⟨_, _, rfl, hts, fun e he => by cases he; rfl⟩
  | value he _ => exact ⟨_, _, rfl, he.leads.kind_ne_endOfInput, fun e he => by cases he⟩
  | form hts _ | operation hts _ => exact ⟨_, _, rfl, hts, fun e he => by cases he⟩

theorem Takes.value_eq [Host] {v : Int} (h : Takes source items (.ok v)) :
    ∃ (ts : List Token) (k : Token) (e : Expr), items = ts.map .ok ++ [.ok k] ∧
      Derives maxDepth .expression ts e ∧ e.eval = .ok v := by
  cases h with
  | value he hv => exact ⟨_, _, _, rfl, he, hv⟩

theorem Takes.endsInFailure [Host] {k : Token} {f : Fault}
    (h : Takes source items (.error (.fault f))) (hitems : items = ts.map .ok ++ [.ok k])
    (hf : f.cause.isEvaluation = true) : EndsInFailure source ts f := by
  cases h with
  | failure =>
      have hlast := (List.append_inj' hitems rfl).2
      cases hlast
  | form _ hf' =>
      rw [hf] at hf'
      cases hf'
  | operation _ h =>
      have hts := (List.append_inj' hitems rfl).1
      rw [← (List.map_inj_right fun _ _ h => Except.ok.inj h).1 hts]
      exact h

/-! ## What is not taken -/

/-- Everything stands for itself and nothing else. -/
def Likeness.identity (source : String) : Likeness source source where
  token t t' := t = t'
  failure e e' := e = e'
  kind_eq h := by rw [h]
  number_eq h := by rw [h]
  mismatch _ h := by rw [h]
  nesting h := by rw [h]
  operation _ h h' _ _ := by rw [h, h']

theorem ahead_identity_of_take (h : s'.take n = s.take n) :
    (Likeness.identity source).Ahead n s s' := by
  induction n generalizing s s' with
  | zero => trivial
  | succ n ih =>
      rw [TokenStream.take, TokenStream.take, List.cons.injEq] at h
      refine ⟨?_, ih h.2⟩
      rw [h.1]
      cases s.next.1 with
      | ok t => exact .token rfl
      | error e => exact .failure rfl

/-- A reading is settled by the items that it takes. -/
theorem runWithin_eq_of_take (limit : Nat)
    (h : s'.take (s.runWithin limit source allowTrailing).2 =
      s.take (s.runWithin limit source allowTrailing).2) :
    s'.runWithin limit source allowTrailing = s.runWithin limit source allowTrailing := by
  obtain ⟨hsame, htaken⟩ := Likeness.runWithin_of_ahead (.identity source) limit allowTrailing
    (ahead_identity_of_take h) (Nat.le_refl _)
  refine Prod.ext ?_ htaken
  generalize (s.runWithin limit source allowTrailing).1 = result at hsame
  generalize (s'.runWithin limit source allowTrailing).1 = result' at hsame
  cases hsame with
  | value v => rfl
  | failure h => exact congrArg Except.error h.symm

theorem run_eq_of_take [Host] (h : s'.take (s.run source allowTrailing).2 =
      s.take (s.run source allowTrailing).2) :
    s'.run source allowTrailing = s.run source allowTrailing :=
  runWithin_eq_of_take maxDepth h

/-- An item that is taken and is no token is what the reading comes to. -/
theorem run_eq_of_error [Host] {i : Nat} (hi : i < (s.run source allowTrailing).2)
    (h : s'.take (i + 1) = s.take i ++ [.error e]) :
    s'.run source allowTrailing = (.error e, i + 1) := by
  obtain ⟨ts, item, htake, hts, hitem⟩ := (takes_run s' source allowTrailing).exists_eq
  have hlen := congrArg List.length htake
  rw [TokenStream.length_take, List.length_append, List.length_map, List.length_singleton] at hlen
  have hlt : i < (s'.run source allowTrailing).2 := by
    -- A reading of the other stream that stopped before would be the reading of this one.
    by_contra hge
    have hsame : s.take (s'.run source allowTrailing).2 =
        s'.take (s'.run source allowTrailing).2 := by
      have hcut := congrArg (List.take (s'.run source allowTrailing).2) h
      rw [TokenStream.take_take (by omega), List.take_append_of_le_length
        (by rw [TokenStream.length_take]; omega), TokenStream.take_take (by omega)] at hcut
      exact hcut.symm
    rw [run_eq_of_take hsame] at hi
    omega
  have hget : (s'.take (s'.run source allowTrailing).2)[i]? = some (.error e) := by
    have hcut := TokenStream.take_take (show i + 1 ≤ _ from hlt) s'
    rw [h] at hcut
    have hat := congrArg (fun l => l[i]?) hcut
    rw [List.getElem?_take, if_pos (by omega)] at hat
    rw [hat, List.getElem?_append_right (by rw [TokenStream.length_take]),
      TokenStream.length_take, Nat.sub_self]
    rfl
  have hi_eq : i = ts.length := by
    by_contra hne
    rw [htake, List.getElem?_append_left (by rw [List.length_map]; omega)] at hget
    simp at hget
  rw [htake, hi_eq, List.getElem?_append_right (by simp)] at hget
  simp only [List.length_map, Nat.sub_self, List.getElem?_cons_zero, Option.some.injEq] at hget
  exact Prod.ext (hitem e hget) (by omega)

/-! ## The tokens of a text -/

theorem Cursor.exists_item (c : Cursor) :
    ∃ item ∈ c.items, ∀ t, item = .ok t → t.kind = .endOfInput := by
  induction c using listing_induction with
  | error c e h =>
      refine ⟨.error e, by simp [items_of_error h], fun t ht => by cases ht⟩
  | endOfInput c t h hk =>
      refine ⟨.ok t, by simp [items_of_endOfInput h hk], fun u hu => ?_⟩
      cases hu
      exact hk
  | token c t h hk ih =>
      obtain ⟨item, hmem, hitem⟩ := ih
      exact ⟨item, by simp [items_of_token h hk, hmem], hitem⟩

/-- No reading goes beyond the listing of a text. -/
theorem Cursor.run_le_items [Host] (c : Cursor) (source : String) (allowTrailing : Bool) :
    (c.toStream.run source allowTrailing).2 ≤ c.items.length := by
  by_contra hlt
  obtain ⟨ts, item, htake, hts, -⟩ := (takes_run c.toStream source allowTrailing).exists_eq
  have hlen := congrArg List.length htake
  rw [TokenStream.length_take, List.length_append, List.length_map, List.length_singleton] at hlen
  have hitems : c.items = (ts.map .ok).take c.items.length := by
    have hcut := congrArg (List.take c.items.length) htake
    rw [TokenStream.take_take (by omega), c.take_toStream,
      List.take_append_of_le_length (by rw [List.length_map]; omega)] at hcut
    exact hcut
  obtain ⟨item, hmem, hitem⟩ := c.exists_item
  rw [hitems] at hmem
  obtain ⟨t, ht, rfl⟩ := List.mem_map.1 (List.mem_of_mem_take hmem)
  exact hts t ht (hitem t rfl)

theorem Cursor.run_items [Host] (c : Cursor) (source : String) (allowTrailing : Bool) :
    (TokenStream.ofList c.items).run source allowTrailing =
      c.toStream.run source allowTrailing := by
  have hle := c.run_le_items source allowTrailing
  refine run_eq_of_take ?_
  rw [TokenStream.take_ofList hle, ← c.take_toStream, TokenStream.take_take hle]

/-! ## Together -/

/-- What it means that reading the stream comes to `result` on its first `n` items. -/
structure Settles [Host] (s : TokenStream) (source : String) (allowTrailing : Bool)
    (result : Except Failure Int) (n : Nat) : Prop where
  /-- Nothing is taken after a failure, or after the end of the input. -/
  taken : ∃ (ts : List Token) (item : Item), s.take n = ts.map .ok ++ [item] ∧
    ts.length + 1 = n ∧ ∀ t ∈ ts, t.kind ≠ .endOfInput
  /-- If there is a value, the tokens of the expression are taken and one item more. -/
  value : ∀ v, result = .ok v → ∃ (ts : List Token) (k : Token) (e : Expr),
    s.take n = ts.map .ok ++ [.ok k] ∧ ts.length + 1 = n ∧
      Derives maxDepth .expression ts e ∧ e.eval = .ok v
  /-- Items that were not taken do not matter. -/
  same : ∀ s' : TokenStream, s'.take n = s.take n → s'.run source allowTrailing = (result, n)
  /-- A failure to read a token, in the place of any item that is taken, is the result. -/
  failure : ∀ i < n, ∀ (s' : TokenStream) (e : Failure),
    s'.take (i + 1) = s.take i ++ [.error e] →
    s'.run source allowTrailing = (.error e, i + 1)
  /-- The failure of an operation is found when the token after the right operand has been taken; a
  failure to read that token goes before it. -/
  operation : ∀ (ts : List Token) (k : Token) (f : Fault), s.take n = ts.map .ok ++ [.ok k] →
    result = .error (.fault f) → f.cause.isEvaluation = true →
    EndsInFailure source ts f ∧ ∀ (s' : TokenStream) (e : Failure),
      s'.take n = ts.map .ok ++ [.error e] → s'.run source allowTrailing = (.error e, n)

theorem settles_run [Host] (s : TokenStream) (source : String) (allowTrailing : Bool) :
    Settles s source allowTrailing (s.run source allowTrailing).1
      (s.run source allowTrailing).2 := by
  have htakes := takes_run s source allowTrailing
  have hlength : ∀ {ts : List Token} {item : Item},
      s.take (s.run source allowTrailing).2 = ts.map .ok ++ [item] →
        ts.length + 1 = (s.run source allowTrailing).2 := by
    intro ts item h
    have hlen := congrArg List.length h
    simpa [TokenStream.length_take] using hlen.symm
  refine ⟨?_, fun v hv => ?_, fun s' h => run_eq_of_take h, fun i hi s' e h => run_eq_of_error hi h,
    fun ts k f htake hf heval => ⟨?_, fun s' e h => ?_⟩⟩
  · obtain ⟨ts, item, htake, hts, -⟩ := htakes.exists_eq
    exact ⟨ts, item, htake, hlength htake, hts⟩
  · rw [hv] at htakes
    obtain ⟨ts, k, e, htake, he, hv⟩ := htakes.value_eq
    exact ⟨ts, k, e, htake, hlength htake, he, hv⟩
  · rw [hf] at htakes
    exact htakes.endsInFailure htake heval
  · have hn := hlength htake
    have hinit : s.take ts.length = ts.map .ok := by
      have hcut := congrArg (List.take ts.length) htake
      rwa [TokenStream.take_take (by omega), List.take_left' (by simp)] at hcut
    rw [← hn] at h ⊢
    exact run_eq_of_error (s := s) (by omega) (by rw [h, hinit])

/-- The reader looks one item ahead and no further. It takes nothing after a failure or the end of
the input; with a value it has taken the tokens of the expression and one item more; and what it
comes to, with the items it takes, is settled by the items it takes. A failure to read a token comes
out exactly if its item is taken: then it goes before everything that would be found later, the
failure of the operation that the tokens before it end with among them. So for a text it is the same
whether its tokens are read one by one as they are asked for, or all before, down to the first
failure. -/
theorem run_one_ahead [Host] :
    (∀ s source allowTrailing, Settles s source allowTrailing
      (s.run source allowTrailing).1 (s.run source allowTrailing).2) ∧
    (∀ source line allowTrailing,
      evaluate source line allowTrailing =
        ((Cursor.ofSource source line).toStream.run source allowTrailing).1 ∧
      (TokenStream.ofList (Cursor.ofSource source line).items).run source allowTrailing =
        (Cursor.ofSource source line).toStream.run source allowTrailing) := by
  refine ⟨settles_run, fun source line allowTrailing => ⟨?_, Cursor.run_items _ _ _⟩⟩
  rw [TokenStream.run_fst, evaluate_eq_stream]

end Abacus

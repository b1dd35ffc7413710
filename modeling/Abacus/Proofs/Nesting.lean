import Abacus.Proofs.Diagnoses
import Abacus.Proofs.LineByLine
import Abacus.Proofs.Limits
import Abacus.Proofs.Lookahead

/-!
# The limit on parentheses

A reader that may keep `limit` parentheses open at a time differs from one that may keep more of
them open in one situation only: `limit` of them are open and the next token is a left parenthesis.
That parenthesis is still consumed, so that one item behind it is taken, and then the reader gives
up and puts the blame on that item. Parentheses that have been closed do not count, however many
there were.

So the limit shows in what a reading comes to in one way, a fault of form; and a reading that never
has more parentheses open than the limit does not know the limit. What holds of every limit holds of
the one that lines are read with: a line that nests too deep gets the code of a fault of form, and
an editor is told of an error.
-/

namespace Abacus

open Editor (Diagnostic Finds diagnose diagnoseLine mem_diagnose)
open Reader
open Session (answer faultCode formCode processLine refuse)

/-- What would have been accepted, in words. No token is expected instead of one too many. -/
def Cause.expected : Cause → String
  | .mismatch expected _ => expected.name
  | .form _ expected _ => expected
  | _ => ""

/-- What is said of a parenthesis too many. -/
def nestingMessage : String := "expression nested too deeply"

/-- The first tokens of the stream are `us`, which leave `limit` parentheses open, one more left
parenthesis, and then the token `k`. -/
structure Exceeds (s : TokenStream) (limit : Nat) (us : List Token) (t k : Token) : Prop where
  items : s.take (us.length + 2) = us.map .ok ++ [.ok t, .ok k]
  opened_eq : opened us = closed us + limit
  kind_eq : t.kind = .leftParen

/-! ## Whole streams -/

/-- What the limit means for the reading of a stream. -/
structure Heeds (s : TokenStream) (source : String) (limit : Nat) (allowTrailing : Bool) :
    Prop where
  /-- As long as no more parentheses are open than the limit allows, the reading does not complain
  of them (only the source of the tokens can), and it is the same under every greater limit. -/
  handled : (∀ n, Nested limit (leadingTokens (s.take n))) →
    (∀ f, (s.runWithin limit source allowTrailing).1 = .error (.fault f) →
      f.cause.message = nestingMessage →
        .error (.fault f) ∈ s.take (s.runWithin limit source allowTrailing).2) ∧
    ∀ limit' ≥ limit,
      s.runWithin limit' source allowTrailing = s.runWithin limit source allowTrailing
  /-- If the reading comes to consume a parenthesis too many, that is what it reports, on the token
  behind. No item after that one is taken, or matters. -/
  reported : ∀ us t k, Exceeds s limit us t k →
    us.length + 1 < (s.runWithin limit source allowTrailing).2 →
    ∃ f, f.cause = .nesting k ∧ f.cause.heading = "syntax error" ∧
      f.cause.message = nestingMessage ∧ f.cause.expected = "" ∧ f.span = k.span ∧
      ∀ s' : TokenStream, s'.take (us.length + 2) = s.take (us.length + 2) →
        s'.runWithin limit source allowTrailing = (.error (.fault f), us.length + 2)
  /-- It does come to that if the tokens before are in order, unless an operation among them fails
  before. -/
  reached : ∀ us t k, Exceeds s limit us t k → Leads us .operand limit → Nested limit us →
    us.length + 1 < (s.runWithin limit source allowTrailing).2 ∨
    ∃ m f, m ≤ us.length ∧ EndsInFailure source (us.take m) f ∧
      s.runWithin limit source allowTrailing = (.error (.fault f), m + 1)
  /-- Nothing else comes of the limit: a greater one changes nothing, unless there was a parenthesis
  too many. -/
  otherwise : ∀ limit' ≥ limit,
    s.runWithin limit' source allowTrailing = s.runWithin limit source allowTrailing ∨
    ∃ us t k, Exceeds s limit us t k ∧ s.runWithin limit source allowTrailing =
      (.error (.fault ⟨.nesting k, k.span, source⟩), us.length + 2)

section

variable {s s' : TokenStream} {source : String} {allowTrailing : Bool} {limit limit' n : Nat}
  {us vs ts : List Token} {t t' k k' : Token}

theorem Exceeds.isPrefix (h : Exceeds s limit us t k) (hn : us.length + 2 ≤ n) :
    us ++ [t, k] <+: leadingTokens (s.take n) := by
  refine isPrefix_leadingTokens ?_
  have hitems := TokenStream.take_take hn s
  rw [h.items] at hitems
  rw [List.map_append]
  exact hitems ▸ List.take_prefix _ _

theorem Exceeds.not_nested (h : Exceeds s limit us t k) (hpre : us ++ [t] <+: ts) :
    ¬ Nested limit ts := by
  intro hn
  have hle := hn _ hpre
  have hopen := (leads_leftParen h.kind_eq).balance
  rw [opened_append, closed_append, h.opened_eq] at hle
  omega

/-- One parenthesis is the first that is too many. -/
theorem Exceeds.unique (h : Exceeds s limit us t k) (h' : Exceeds s limit vs t' k')
    (hvs : Nested limit vs) (hle : us.length ≤ vs.length) : us = vs ∧ k = k' := by
  have hpre := h.isPrefix (Nat.add_le_add_right hle 2)
  rw [h'.items, leadingTokens_append] at hpre
  rcases Nat.lt_or_eq_of_le hle with hlt | heq
  · refine absurd hvs (h.not_nested (List.prefix_of_prefix_length_le ?_
      (List.prefix_append vs [t', k']) (by simpa using Nat.succ_le_of_lt hlt)))
    exact (by simp : us ++ [t] <+: us ++ [t, k]).trans hpre
  · have hall := hpre.eq_of_length (by simp [heq, leadingTokens])
    obtain ⟨hus, htk⟩ := List.append_inj hall heq
    exact ⟨hus, by simpa [leadingTokens] using (List.cons.inj htk).2⟩

/-- What has been taken where a rule ends. -/
theorem Reader.Compares.taken {r : Reader} {x x' : EStateM.Result Failure Reader Int}
    (h : Compares source limit r x x') (hr : ofStream s = .ok r)
    (hvalue : ∀ v r', x = .ok v r' → ∃ ts, Eats r ts r' ∧ Nested limit ts) :
    (x' = x ∧ Nested limit (leadingTokens (s.take (Reader.after x).taken)).dropLast) ∨
    ∃ us t r', Exceeds s limit us t r'.lookahead ∧ Nested limit us ∧ r'.taken = us.length + 2 ∧
      x = .error (.fault ⟨.nesting r'.lookahead, r'.lookahead.span, source⟩) r' := by
  have hplain : ∀ {ts r'}, Eats r ts r' → Nested limit ts →
      Nested limit (leadingTokens (s.take r'.taken)).dropLast := by
    intro ts r' hts hn
    rw [take_of_ofStream hr hts, leadingTokens_append]
    simpa [leadingTokens] using hn
  cases h with
  | @value v r' =>
      obtain ⟨ts, hts, hn⟩ := hvalue v r' rfl
      exact .inl ⟨rfl, hplain hts hn⟩
  | failure hts hn => exact .inl ⟨rfl, hplain hts hn⟩
  | item hts hn he =>
      refine .inl ⟨rfl, ?_⟩
      rw [Reader.after, take_of_ofStream_error hr hts he, leadingTokens_append]
      simpa [leadingTokens] using hn
  | @nesting us t r' _ hus hn hopen ht =>
      have htaken := hus.taken_eq
      rw [Likeness.taken_of_ofStream hr, List.length_append, List.length_singleton] at htaken
      have htwo : r'.taken = us.length + 2 := by omega
      have hitems := take_of_ofStream hr hus
      rw [htwo] at hitems
      exact .inr ⟨us, t, r', ⟨by simpa using hitems, hopen, ht⟩, hn, htwo, rfl⟩

/-- What a greater limit changes, and what has been taken if it changes nothing. -/
theorem runWithin_compares (s : TokenStream) (source : String) (allowTrailing : Bool)
    (hle : limit ≤ limit') :
    (s.runWithin limit' source allowTrailing = s.runWithin limit source allowTrailing ∧
      Nested limit
        (leadingTokens (s.take (s.runWithin limit source allowTrailing).2)).dropLast) ∨
    ∃ us t k, Exceeds s limit us t k ∧ Nested limit us ∧
      s.runWithin limit source allowTrailing =
        (.error (.fault ⟨.nesting k, k.span, source⟩), us.length + 2) := by
  cases hr : ofStream s with
  | error e =>
      rw [TokenStream.runWithin_eq, TokenStream.runWithin_eq, hr]
      refine .inl ⟨rfl, ?_⟩
      rw [take_of_no_reader hr]
      exact nested_nil
  | ok r =>
      have hcompares : Compares source limit r _ _ := compares_ruleAt hle .expression r
      rcases hcompares.taken hr fun v r' hv => (nested_of_ok hv).imp fun ts h => ⟨h.1, h.2.1⟩ with
        ⟨hsame, hn⟩ | ⟨us, t, r', hexceeds, hn, htaken, hx⟩
      · rw [← Likeness.taken_after_expression hr]
        refine .inl ⟨?_, hn⟩
        rw [TokenStream.runWithin_eq, TokenStream.runWithin_eq, hr]
        dsimp only
        rw [hsame]
      · refine .inr ⟨us, t, _, hexceeds, hn, ?_⟩
        rw [TokenStream.runWithin_eq, hr]
        dsimp only
        rw [hx]
        dsimp only
        rw [htaken]

/-! ## What is reported -/

theorem message_mismatch_ne (x : Expectation) (t : Token) :
    (Cause.mismatch x t).message ≠ nestingMessage := by
  intro h
  have hlist : ("expected " ++ x.name ++ ", found " ++ t.describe).toList = nestingMessage.toList :=
    congrArg String.toList h
  rw [String.toList_append, String.toList_append, String.toList_append, List.append_assoc,
    List.append_assoc] at hlist
  -- The two begin alike, up to the fourth character.
  have hfourth := congrArg (fun l => l[3]?) hlist
  rw [List.getElem?_append_left (by decide)] at hfourth
  exact absurd hfourth (by decide)

theorem message_operation_ne (z : Operation.Failure) : z.cause.message ≠ nestingMessage := by
  intro h
  cases z with
  | zeroDivisor => exact absurd h (by decide)
  | tooLarge n =>
      have hlist : (toString n ++ " does not fit in a signed 64-bit integer").toList =
          nestingMessage.toList := congrArg String.toList h
      have hend : " does not fit in a signed 64-bit integer".toList.getLast? = some 'r' := by decide
      have hlast := congrArg List.getLast? hlist
      rw [String.toList_append, List.getLast?_append, hend, Option.some_or] at hlast
      exact absurd hlast (by decide)

/-- A complaint about nesting is about a parenthesis too many, or it comes from the source. -/
theorem fails_nestingMessage {r r' : Reader} {f : Fault} (hr : ofStream s = .ok r)
    (h : Fails source limit .expression r (.fault f) r') (hf : f.cause.message = nestingMessage) :
    .error (.fault f) ∈ s.take r'.taken ∨ ¬ Nested limit (leadingTokens (s.take r'.taken)) := by
  cases h with
  | item hts _ he =>
      refine .inl ?_
      rw [take_of_ofStream_error hr hts he]
      simp
  | mismatch => exact absurd hf (message_mismatch_ne _ _)
  | operation _ _ _ hb =>
      cases hb with
      | intro => exact absurd hf (message_operation_ne _)
  | @nesting ts _ hts hlead =>
      refine .inr fun hn => ?_
      rw [take_of_ofStream hr hts, leadingTokens_append] at hn
      have hle := hn.left ts (List.prefix_refl ts)
      have hopen := hlead.balance
      omega

theorem handled_of_nested (hn : ∀ n, Nested limit (leadingTokens (s.take n))) {f : Fault}
    (hf : (s.runWithin limit source allowTrailing).1 = .error (.fault f))
    (hmessage : f.cause.message = nestingMessage) :
    .error (.fault f) ∈ s.take (s.runWithin limit source allowTrailing).2 := by
  rw [TokenStream.runWithin_eq] at hf ⊢
  cases hr : ofStream s with
  | error e =>
      rw [hr] at hf
      cases hf
      rw [take_of_no_reader hr]
      exact List.mem_singleton_self _
  | ok r =>
      have hout : Outcome source limit .expression r _ := ruleAt_outcome limit .expression r
      rw [hr] at hf
      dsimp only at hf ⊢
      generalize ruleAt source limit .expression r = x at hout hf ⊢
      cases hout with
      | failure h =>
          cases hf
          exact (fails_nestingMessage hr h hmessage).resolve_right (not_not_intro (hn _))
      | value =>
          dsimp only at hf
          split at hf
          · cases hf
            exact absurd hmessage (message_mismatch_ne _ _)
          · cases hf

theorem reported_of_exceeds (h : Exceeds s limit us t k)
    (hrun : us.length + 1 < (s.runWithin limit source allowTrailing).2) :
    s.runWithin limit source allowTrailing =
      (.error (.fault ⟨.nesting k, k.span, source⟩), us.length + 2) := by
  rcases runWithin_compares s source allowTrailing (Nat.le_refl limit) with
    ⟨-, hn⟩ | ⟨vs, t', k', h', hvs, hreport⟩
  · obtain ⟨ws, hws⟩ := h.isPrefix (Nat.succ_le_of_lt hrun)
    rw [← hws, List.append_assoc, List.dropLast_append_of_ne_nil (by simp)] at hn
    refine absurd hn (h.not_nested ((List.prefix_append_right_inj us).2 ?_))
    exact ⟨(k :: ws).dropLast, rfl⟩
  · rw [hreport] at hrun
    obtain ⟨rfl, rfl⟩ := h.unique h' hvs (by omega)
    exact hreport

theorem Exceeds.take_eq (h : Exceeds s limit us t k) (hn : n ≤ us.length + 1) :
    s.take n = ((us ++ [t]).take n).map .ok := by
  have hitems : s.take (us.length + 2) = (us ++ [t]).map .ok ++ [.ok k] := by
    rw [h.items]
    simp
  have hcut := congrArg (List.take n) hitems
  rwa [TokenStream.take_take (by omega), List.take_append_of_le_length (by simpa using hn),
    ← List.map_take] at hcut

theorem Exceeds.error_not_mem (h : Exceeds s limit us t k) (hn : n ≤ us.length + 1) (e : Failure) :
    .error e ∉ s.take n := by
  intro hmem
  rw [h.take_eq hn] at hmem
  obtain ⟨u, -, hu⟩ := List.mem_map.1 hmem
  cases hu

theorem Exceeds.scan_ne_none (h : Exceeds s limit us t k) (hlead : Leads us .operand limit)
    (hpre : ts <+: us ++ [t]) : scan (.operand, 0) ts ≠ none := by
  obtain ⟨vs, hvs⟩ := hpre
  have hall : scan (.operand, 0) (ts ++ vs) ≠ none := by
    rw [hvs, hlead.append (leads_leftParen h.kind_eq) 0]
    simp
  exact scan_ne_none_of_append hall

/-- What a reader consumes before that is the beginning of these tokens. -/
theorem Exceeds.of_eats {r r' : Reader} (h : Exceeds s limit us t k) (hr : ofStream s = .ok r)
    (hts : Eats r ts r') (hn : r'.taken ≤ us.length + 1) :
    ts ++ [r'.lookahead] <+: us ++ [t] ∧ ts <+: us := by
  have htake := take_of_ofStream hr hts
  rw [h.take_eq hn] at htake
  have hall : ts ++ [r'.lookahead] = (us ++ [t]).take r'.taken := by
    have hinj : Function.Injective (Except.ok : Token → Item) := fun _ _ h => Except.ok.inj h
    refine List.map_injective_iff.2 hinj ?_
    rw [htake, List.map_append]
    rfl
  have hpre : ts ++ [r'.lookahead] <+: us ++ [t] := by
    rw [hall]
    exact List.take_prefix _ _
  refine ⟨hpre, List.prefix_of_prefix_length_le ((List.prefix_append ts _).trans hpre)
    (List.prefix_append us [t]) ?_⟩
  have hlen := hpre.length_le
  simpa using hlen

/-- Before a parenthesis too many, where the tokens are in order, a reading can only stop because
an operation among them fails. -/
theorem endsInFailure_of_exceeds (h : Exceeds s limit us t k) (hlead : Leads us .operand limit)
    (hn : Nested limit us)
    (hrun : ¬ us.length + 1 < (s.runWithin limit source allowTrailing).2) :
    ∃ m f, m ≤ us.length ∧ EndsInFailure source (us.take m) f ∧
      s.runWithin limit source allowTrailing = (.error (.fault f), m + 1) := by
  cases hr : ofStream s with
  | error e =>
      refine absurd ?_ (h.error_not_mem (Nat.succ_le_succ (Nat.zero_le us.length)) e)
      rw [take_of_no_reader hr]
      exact List.mem_singleton_self _
  | ok r =>
      have hout : Outcome source limit .expression r _ := ruleAt_outcome limit .expression r
      rw [← Likeness.taken_after_expression hr] at hrun
      rw [TokenStream.runWithin_eq, hr]
      dsimp only
      generalize ruleAt source limit .expression r = x at hout hrun ⊢
      have hle := Nat.le_of_not_lt hrun
      cases hout with
      | value hts he _ hstop =>
          have hpre := (h.of_eats hr hts hle).1
          exact absurd (he.leads.scan_eq_none (step_operator_zero hstop))
            (h.scan_ne_none hlead hpre)
      | @failure e r' hfails =>
          cases hfails with
          | item hts _ he =>
              refine absurd ?_ (h.error_not_mem hle e)
              rw [Reader.after, take_of_ofStream_error hr hts he]
              exact List.mem_append_right _ (List.mem_singleton_self _)
          | mismatch hts hlead' _ hstep _ =>
              have hpre := (h.of_eats hr hts hle).1
              have hnone := hstep 0
              rw [Nat.zero_add] at hnone
              exact absurd (hlead'.scan_eq_none hnone) (h.scan_ne_none hlead hpre)
          | nesting hts hlead' =>
              have hopen := hlead'.balance
              have hlim := hn _ (h.of_eats hr hts hle).2
              omega
          | @operation pre _ _ _ _ _ _ hpre _ _ hb =>
              obtain ⟨f, vs, rfl, hvs, -, hends⟩ := endsInFailure_of_breaks pre hb
              have hall := hpre.append hvs
              have hbefore := (h.of_eats hr hall hle).2
              have htaken := hall.taken_eq
              rw [Likeness.taken_of_ofStream hr, Nat.add_comm] at htaken
              rw [List.prefix_iff_eq_take.1 hbefore] at hends
              exact ⟨(pre ++ vs).length, f, hbefore.length_le, hends, by dsimp only; rw [htaken]⟩

theorem heeds_runWithin (s : TokenStream) (source : String) (limit : Nat) (allowTrailing : Bool) :
    Heeds s source limit allowTrailing := by
  refine ⟨fun hn => ⟨fun f => handled_of_nested hn, fun limit' hle => ?_⟩, fun us t k h hrun => ?_,
    fun us t k h hlead hn => ?_, fun limit' hle => ?_⟩
  · rcases runWithin_compares s source allowTrailing hle with ⟨hsame, -⟩ | ⟨us, t, k, h, -, -⟩
    · exact hsame
    · have hpre : us ++ [t] <+: us ++ [t, k] := (List.prefix_append_right_inj us).2 ⟨[k], rfl⟩
      exact absurd (hn (us.length + 2))
        (h.not_nested (hpre.trans (h.isPrefix (Nat.le_refl _))))
  · have hreport := reported_of_exceeds h hrun
    refine ⟨⟨.nesting k, k.span, source⟩, rfl, rfl, rfl, rfl, rfl, fun s' hs' => ?_⟩
    rw [← hreport]
    refine runWithin_eq_of_take limit ?_
    rw [hreport]
    exact hs'
  · by_cases hrun : us.length + 1 < (s.runWithin limit source allowTrailing).2
    · exact .inl hrun
    · exact .inr (endsInFailure_of_exceeds h hlead hn hrun)
  · rcases runWithin_compares s source allowTrailing hle with ⟨hsame, -⟩ | ⟨us, t, k, h, -, hreport⟩
    · exact .inl hsame
    · exact .inr ⟨us, t, k, h, hreport⟩

/-- One pair of parentheses after another takes no more room than one. -/
example : (TokenStream.ofList ((ones [.leftParen, .integer, .rightParen, .plus, .leftParen,
    .integer, .rightParen]).map .ok)).runWithin 1 "" false = (.ok 2, 8) := by
  decide +kernel

end

/-! ## Lines -/

/-- Reading the line ends with a parenthesis too many. -/
def TooDeep [Host] (source : String) (line : Int) (allowTrailing : Bool) : Prop :=
  ∃ f k, evaluate source line allowTrailing = .error (.fault f) ∧ f.cause = .nesting k

/-- What becomes of a line with a parenthesis too many. -/
structure Refuses [Host] (source : String) : Prop where
  /-- Lines are read with a limit like any other. -/
  run : ∀ line allowTrailing, evaluate source line allowTrailing =
    ((Cursor.ofSource source line).toStream.runWithin maxDepth source allowTrailing).1
  /-- The code is that of a fault of form, unless a listing of the tokens was asked for and has
  failed already. -/
  code : ∀ line settings filename, TooDeep source line settings.allowTrailing →
    (processLine settings source line filename).ended = .ok formCode ∨
    ∃ e, settings.debug = true ∧ (Token.table source line).2 = some e ∧
      (processLine settings source line filename).ended = (refuse filename e).ended
  /-- An editor is told of an error, of the line alone and as part of a document. -/
  line : ∀ number : Nat, TooDeep source number false →
    ∃ d, diagnoseLine source number = .ok (some d) ∧ d.severity = .error
  document : ∀ (text : String) (ds : List Diagnostic) (i : Nat), diagnose text = .ok ds →
    (Text.lines text)[i]? = some source → TooDeep source (i + 1) false →
      ∃ d ∈ ds, d.start.line = i ∧ d.severity = .error

variable {source : String} {line : Int} {allowTrailing : Bool}

/-- In a line without anything but white space an operand is missing, and that is said of it. -/
theorem isBlankLine_of_tooDeep [Host] (h : TooDeep source line allowTrailing) :
    Text.isBlankLine source = false := by
  by_contra hblank
  rw [Bool.not_eq_false, Text.isBlankLine, List.all_eq_true] at hblank
  obtain ⟨f, k, hf, hcause⟩ := h
  have hnext := (Cursor.Step.finish (c := .ofSource source line) hblank rfl).next_eq
  have hstream := (Cursor.ofSource source line).toStream_next
  rw [hnext] at hstream
  have hr := ofStream_of_next hstream
  have hfactor : ∀ r : Reader, r.lookahead.kind = .endOfInput →
      ruleAt source maxDepth .factor r =
        .error (.fault ⟨.mismatch .operand r.lookahead, r.lookahead.span, source⟩) r := by
    intro r hk
    rw [ruleAt, factorOf_eq, hk]
  rw [evaluate_eq_stream,
    evaluate_of_no_expression hr (expression_of_ruleAt_error (hfactor _ rfl))] at hf
  cases hf
  cases hcause

theorem refuses_tooDeep [Host] (source : String) : Refuses source where
  run line allowTrailing := by
    rw [TokenStream.runWithin_maxDepth, TokenStream.run_fst, evaluate_eq_stream]
  code line settings filename h := by
    obtain ⟨f, k, hf, hcause⟩ := h
    have hanswer : (answer settings source line filename).ended = .ok formCode := by
      have hcode : faultCode f = formCode := by
        rw [faultCode, hcause]
        rfl
      rw [answer, hf, ← hcode]
      rfl
    rw [processLine]
    split
    · next hdebug =>
        split
        · next table e htable => exact .inr ⟨e, hdebug, by rw [htable], rfl⟩
        · exact .inl hanswer
    · exact .inl hanswer
  line number h := by
    have hblank := isBlankLine_of_tooDeep h
    obtain ⟨f, k, hf, hcause⟩ := h
    refine ⟨.ofFault source f, ?_, ?_⟩
    · rw [diagnoseLine, hblank, if_neg (by simp), hf]
    · rw [Diagnostic.ofFault, hcause]
      rfl
  document text ds i hds htext h := by
    have hblank := isBlankLine_of_tooDeep h
    obtain ⟨f, k, hf, hcause⟩ := h
    have hfinds : Finds source (i + 1) (.ofFault source f) := .intro hblank hf
    refine ⟨_, (mem_diagnose hds).2 ⟨i, source, htext, hfinds⟩, ?_, ?_⟩
    · rw [hfinds.line_eq]
      omega
    · rw [Diagnostic.ofFault, hcause]
      rfl

/-- Parentheses are kept open up to the limit, whatever it is, and one more is reported; nothing
else comes of the limit, in a reading or for a line. -/
theorem nesting_handled_or_reported [Host] (s : TokenStream) (source : String) :
    (∀ limit allowTrailing, Heeds s source limit allowTrailing) ∧ Refuses source :=
  ⟨fun limit allowTrailing => heeds_runWithin s source limit allowTrailing,
    refuses_tooDeep source⟩

end Abacus

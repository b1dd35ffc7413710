import Mathlib.Control.Monad.Basic
import Abacus.Proofs.Completeness
import Abacus.Proofs.Scanning
import Abacus.Token.Listing

/-!
# A fault of value, on its own

The stretch of text that a fault of value is blamed on is all that it takes to see the fault again.
For a numeral that is plain. For an operation the stretch runs from the first token of an operand to
the last one consumed, however many rules were under way around it, and that is a whole phrase: the
parentheses that close inside it belong to it, and neither the token looked at nor the white space
before it does. So the stretch is cut out, read as a text of its own, and the same phrase is found
in it. It then fails at the same operation, or, if it is a divisor, comes to zero.
-/

namespace Abacus

open Reader

/-- The text that a span of `source` covers. -/
def Span.text (span : Span) (source : String) : String :=
  String.ofList ((source.toList.drop span.start.offset).take
    (span.stop.offset - span.start.offset))

/-- An integer does not fit: that of a numeral, or the result of an operation. -/
def Cause.isOverflow : Cause → Bool
  | .numeral _ | .result _ => true
  | _ => false

variable {source : String} {line line' : Int} {c c₀ c₁ : Cursor} {t : Token}
  {pre ts us : List Token} {s mid rest : List Char} {f : Fault} {r r' : Reader}

theorem text_of_append (h : source.toList = s ++ (mid ++ rest)) {p q : Position}
    (hp : p.offset = s.length) (hq : q.offset = s.length + mid.length) :
    Span.text ⟨p, q⟩ source = String.ofList mid := by
  rw [Span.text, h]
  simp only [hp, hq, Nat.add_sub_cancel_left, List.drop_left, List.take_left]

namespace Cursor

/-- The cursor stands somewhere in the text. -/
structure On (c : Cursor) (source : String) (line : Int) : Prop where
  source_eq : c.source = source
  line_eq : c.line = line
  rest_eq : ∃ s, source.toList = s ++ c.rest ∧ c.offset = s.length

theorem On.onto (h : c.On source line) (hrest : c.rest = mid ++ rest) :
    (c.onto mid.length rest).On source line := by
  obtain ⟨s, hs, hlen⟩ := h.rest_eq
  refine ⟨h.source_eq, h.line_eq, s ++ mid, ?_, ?_⟩
  · rw [hs, hrest, List.append_assoc]
    rfl
  · rw [List.length_append, ← hlen]
    rfl

theorem on_ofSource : (Cursor.ofSource source line).On source line :=
  ⟨rfl, rfl, [], rfl, rfl⟩

theorem On.passes (hon : c.On source line) (h : Passes c ts c₁) : c₁.On source line := by
  obtain ⟨mid, hrest, hc₁⟩ := h.exists_rest
  rw [hc₁]
  exact hon.onto hrest

/-- Cut out of a text, tokens are read again, from the beginning to the end. -/
theorem Passes.piece (hon : c₀.On source line) (h : Passes c₀ (t :: ts) c₁) (line' : Int) :
    Passes (.ofSource (Span.text ⟨t.span.start, c₁.position⟩ source) line')
      ((t :: ts).map (Token.moved line' t.span.start.offset))
      ⟨Span.text ⟨t.span.start, c₁.position⟩ source, line',
        (Span.text ⟨t.span.start, c₁.position⟩ source).length, []⟩ := by
  cases h with
  | cons ht hs =>
      -- The piece begins with the first token, not with the white space before it.
      obtain ⟨w, rest, -, hrest, hstart, ht⟩ := ht.from_start
      have hall := Passes.cons ht hs
      obtain ⟨mid, hmid, hc₁⟩ := hall.exists_rest
      obtain ⟨s, hsource, hoffset⟩ := (hon.onto hrest).rest_eq
      have hstop : c₁.offset = (c₀.onto w.length rest).offset + mid.length := congrArg offset hc₁
      have htext : Span.text ⟨t.span.start, c₁.position⟩ source = String.ofList mid := by
        rw [hmid] at hsource
        refine text_of_append hsource ?_ ?_
        · rw [hstart]
          exact hoffset
        · rw [← hoffset]
          exact hstop
      have hn : t.span.start.offset = (c₀.onto w.length rest).offset := by rw [hstart]; rfl
      have hlength : (String.ofList mid).length =
          c₁.offset - (c₀.onto w.length rest).offset := by
        rw [String.length_ofList]
        omega
      rw [htext, hn, hlength]
      exact hall.moved (d := .ofSource (String.ofList mid) line') hmid
        String.toList_ofList (Nat.zero_add _)

theorem Passes.listing {ts : List Token} (h : Passes c ts c₁) (hrest : c₁.rest = []) :
    c.listing = (ts ++ [.endAt c₁.position], none) := by
  induction h with
  | nil c =>
      have hnext := (Step.finish (c := c) (w := []) (by simp [Blanks]) hrest).next_eq
      exact listing_of_endOfInput (congrArg Prod.fst hnext) rfl
  | cons ht _ ih =>
      obtain ⟨hnext, hk⟩ := reads_iff.1 ht
      rw [listing_of_token (congrArg Prod.fst hnext) hk, hnext, ih hrest]
      rfl

theorem Passes.ofSource_eq (h : Passes (.ofSource source line) ts c) (hrest : c.rest = []) :
    Token.ofSource source line = .ok (ts ++ [.endAt c.position]) := by
  rw [Token.ofSource, h.listing hrest]

/-- Where a reader has consumed tokens of a text, the last one ends before the cursor. -/
theorem Passes.previousEnd_eq (h : Passes c (t :: ts) c₁) (hts : Eats r (t :: ts) r') :
    r'.previousEnd = c₁.position := by
  have hlast := List.dropLast_concat_getLast (List.cons_ne_nil t ts)
  rw [← hlast] at h hts
  rw [hts.previousEnd_eq, h.stop_eq]

/-- The reader of a piece consumes the tokens of the piece, from its first character to its last. -/
theorem Passes.exists_reader_piece (hon : c₀.On source line) (h : Passes c₀ (t :: ts) c₁)
    {piece : String} (hpiece : piece = Span.text ⟨t.span.start, c₁.position⟩ source)
    (line' : Int) :
    ∃ r r', ofStream (Cursor.ofSource piece line').toStream = .ok r ∧
      Eats r ((t :: ts).map (Token.moved line' t.span.start.offset)) r' ∧
      r'.lookahead.kind = .endOfInput ∧ r.lookahead.span.start = .onLine line' 0 ∧
      r'.previousEnd = .onLine line' piece.length := by
  have hmoved := h.piece hon line'
  rw [← hpiece] at hmoved
  have hnext := congrArg Prod.fst
    (Step.finish (c := ⟨piece, line', piece.length, []⟩) (w := []) (by simp [Blanks]) rfl).next_eq
  obtain ⟨r, r', hr, hts, hk⟩ := hmoved.exists_reader hnext
  refine ⟨r, r', hr, hts, by rw [hk]; rfl, ?_, hmoved.previousEnd_eq hts⟩
  rw [hts.lookahead_eq]
  show Position.onLine line' (t.span.start.offset - t.span.start.offset) = _
  rw [Nat.sub_self]

end Cursor

theorem Derives.moved {d : Nat} {ℓ : Level} {e : Expr} (h : Derives d ℓ ts e) (line : Int)
    (n : Nat) : Derives d ℓ (ts.map (Token.moved line n)) e := by
  induction h with
  | @integer d t ht => exact .integer (t := t.moved line n) ht
  | @parens d l r ts e hl _ hr ih =>
      rw [List.map_cons, List.map_append]
      exact .parens (l := l.moved line n) (r := r.moved line n) hl ih hr
  | factor _ ih => exact .factor ih
  | @multiplicative d ts us o op e f _ ho _ ihl ihr =>
      rw [List.map_append, List.map_cons]
      exact .multiplicative (o := o.moved line n) ihl ho ihr
  | term _ ih => exact .term ih
  | @additive d ts us o op e f _ ho _ ihl ihr =>
      rw [List.map_append, List.map_cons]
      exact .additive (o := o.moved line n) ihl ho ihr

/-! ## The fault again -/

/-- The text, read as the given line, is a complete factor, and worth zero. -/
structure ZeroFactor [Host] (text : String) (line : Int) : Prop where
  tokens : ∃ ts k, Token.ofSource text line = .ok (ts ++ [k]) ∧ k.kind = .endOfInput ∧
    Phrase .factor ts
  value : ∀ allowTrailing, evaluate text line allowTrailing = .ok 0

/-- The text under the span of the fault shows it again: a zero divisor is a factor worth zero, and
what does not fit does not fit again, with the whole text to blame. -/
structure Reproduces [Host] (source : String) (f : Fault) : Prop where
  zeroDivisor : f.cause = .zeroDivisor → ∀ line, ZeroFactor (f.span.text source) line
  overflow : f.cause.isOverflow = true → ∀ line allowTrailing,
    evaluate (f.span.text source) line allowTrailing = .error (.fault ⟨f.cause,
      ⟨.onLine line 0, .onLine line (f.span.text source).length⟩, f.span.text source⟩)

/-- A factor worth zero, cut out of the text. -/
theorem zeroFactor_of_passes [Host] {d : Nat} {e : Expr} (hon : c₀.On source line)
    (h : Cursor.Passes c₀ (t :: ts) c₁) (he : Derives d .factor (t :: ts) e) (hd : d ≤ maxDepth)
    (hv : e.eval = .ok 0) (line' : Int) :
    ZeroFactor (Span.text ⟨t.span.start, c₁.position⟩ source) line' := by
  obtain ⟨r, r', hr, hts, hk, -, -⟩ := h.exists_reader_piece hon rfl line'
  have hmoved := he.moved line' t.span.start.offset
  refine ⟨⟨_, _, (h.piece hon line').ofSource_eq rfl, rfl, hmoved.phrase⟩, fun policy => ?_⟩
  rw [evaluate_eq_stream]
  refine evaluate_of_endOfInput hr ?_ hk policy
  exact ruleAt_of_derives (hmoved.toExpression.mono hd) hts (Level.stops_of_endOfInput hk _) hv

/-- An operation whose result does not fit, with its operands cut out. -/
theorem evaluate_piece_of_tooLarge [Host] {d : Nat} {ℓ ℓ' : Level} {o : Token} {op : Operation}
    {e g : Expr} {a b x : Int} (hon : c₀.On source line)
    (h : Cursor.Passes c₀ (t :: (ts ++ o :: us)) c₁) (hℓ : ℓ.operand? = some ℓ')
    (he : Derives d ℓ (t :: ts) e) (ha : e.eval = .ok a) (hop : ℓ.operation? o.kind = some op)
    (hg : Derives d ℓ' us g) (hb : g.eval = .ok b) (hx : op.meaning a b = .error (.tooLarge x))
    (hd : d ≤ maxDepth) {piece : String}
    (hpiece : piece = Span.text ⟨t.span.start, c₁.position⟩ source) (line' : Int)
    (allowTrailing : Bool) :
    evaluate piece line' allowTrailing =
      .error (.fault ⟨.result x, ⟨.onLine line' 0, .onLine line' piece.length⟩, piece⟩) := by
  obtain ⟨r, r', hr, hall, hk, hstart, hend⟩ := h.exists_reader_piece hon hpiece line'
  rw [← List.cons_append, List.map_append] at hall
  obtain ⟨r₁, hts, hrest⟩ := eats_append.1 hall
  obtain ⟨r₂, ho, hus⟩ := eats_cons.1 hrest
  have hbreaks : Breaks piece maxDepth ℓ r _ r' := .intro hℓ hts ((he.moved line' _).mono hd) ha ho
    hop hus ((hg.moved line' _).mono hd) hb hx
  have hrule := expression_of_ruleAt_error
    (ruleAt_of_breaks hbreaks fun ℓ' _ => Level.stops_of_endOfInput hk ℓ')
  rw [evaluate_eq_stream, evaluate_of_no_expression hr hrule, ← hstart, ← hend]
  rfl

theorem operation?_eq_divide {ℓ ℓ' : Level} {k : Token.Kind} (hℓ : ℓ.operand? = some ℓ')
    (hop : ℓ.operation? k = some .divide) : ℓ' = .factor := by
  cases ℓ with
  | factor => cases hℓ
  | term => cases hℓ; rfl
  | expression => cases k <;> cases hop

theorem Cause.isEvaluation_of_isOverflow {x : Cause} (h : x.isOverflow = true) :
    x.isEvaluation = true := by
  cases x with
  | numeral | result => rfl
  | character | mismatch | nesting | form | zeroDivisor | evaluation | general => cases h

theorem reproduces_of_form [Host] (h : f.cause.isEvaluation = false) : Reproduces source f := by
  constructor
  · intro hcause
    rw [hcause] at h
    cases h
  · intro hcause
    rw [Cause.isEvaluation_of_isOverflow hcause] at h
    cases h

/-- An operation without a value, wherever it stands in the text. -/
theorem reproduces_of_breaks [Host] {d : Nat} {ℓ : Level} (hon : c.On source line) (hc : c.Shows r)
    (hd : d ≤ maxDepth) (h : Breaks source d ℓ r (.fault f) r') : Reproduces source f := by
  cases h with
  | @intro ℓ' ts us o op e g a b z r₁ r₂ _ hℓ hts he ha ho hop hus hg hb hz =>
      have hlead := (he.leads.operator (operator_of_operation? hop)).append hg.leads
      obtain ⟨c₃, hpasses, -⟩ := hc.passes ((hts.append (.single ho)).append hus)
        hlead.kind_ne_endOfInput
      obtain ⟨t, ts, rfl, -⟩ := he.exists_cons
      obtain ⟨u, us, rfl, -⟩ := hg.exists_cons
      obtain ⟨c₂, hpre, hpus⟩ := Cursor.passes_append.1 hpasses
      have hstop : r'.previousEnd = c₃.position := hpus.previousEnd_eq hus
      cases z with
      | zeroDivisor =>
          refine ⟨fun _ line' => ?_, fun hcause => ?_⟩
          · -- Only a division fails like this, and its right operand is a factor.
            obtain ⟨rfl, rfl⟩ := Operation.eq_divide_of_meaning hz
            obtain rfl := operation?_eq_divide hℓ hop
            show ZeroFactor (Span.text ⟨r₂.lookahead.span.start, r'.previousEnd⟩ source) line'
            rw [hus.lookahead_eq, hstop]
            exact zeroFactor_of_passes (hon.passes hpre) hpus hg hd hb line'
          · cases hcause
      | tooLarge x =>
          refine ⟨fun hcause => ?_, fun _ line' allowTrailing => ?_⟩
          · cases hcause
          · rw [List.append_assoc] at hpasses
            refine evaluate_piece_of_tooLarge hon hpasses hℓ he ha hop hg hb hz hd ?_ line'
              allowTrailing
            show Span.text ⟨r.lookahead.span.start, r'.previousEnd⟩ source = _
            rw [hts.lookahead_eq, hstop]

theorem evaluate_tooLarge_numeral [Host] {ds : List Char} (hds : Digits ds)
    (hn : Text.Numeral.ofDigits ds = .tooLarge) (line : Int) (allowTrailing : Bool) :
    evaluate (String.ofList ds) line allowTrailing = .error (.fault ⟨.numeral (String.ofList ds),
      ⟨.onLine line 0, .onLine line ds.length⟩, String.ofList ds⟩) := by
  have hrest : (Cursor.ofSource (String.ofList ds) line).rest = [] ++ (ds ++ []) := by
    simp [Cursor.ofSource]
  have hnext := (Cursor.Step.numeral (w := []) (by simp [Blanks]) hds startsWithout_nil
    hrest).next_eq
  rw [Cursor.numeral, hn] at hnext
  have hitem := (Cursor.toStream_next_fst _).trans (congrArg Prod.fst hnext)
  rw [evaluate_eq_stream, evaluate_of_no_reader (ofStream_eq_error_iff.2 hitem)]
  simp [Cursor.ofSource, Cursor.stretch]

/-- A numeral that does not fit, wherever it stands in the text. -/
theorem reproduces_of_next [Host] (hon : c.On source line) (h : c.next = (.error (.fault f), c₁)) :
    Reproduces source f := by
  rw [Cursor.next_eq_iff] at h
  generalize hitem : (.error (.fault f) : Item) = item at h
  cases h with
  | finish => cases hitem
  | symbol => cases hitem
  | stray => cases hitem; exact reproduces_of_form rfl
  | @numeral w ds rest hw hds hend hrest =>
      rw [Cursor.numeral] at hitem
      split at hitem
      · cases hitem
      · next hn =>
          cases hitem
          obtain ⟨s, hsource, hoffset⟩ := (hon.onto hrest).rest_eq
          have htext : Span.text (c.stretch w.length ds.length) source = String.ofList ds :=
            text_of_append hsource hoffset (congrArg (· + ds.length) hoffset)
          refine ⟨fun hcause => ?_, fun _ line' allowTrailing => ?_⟩
          · cases hcause
          · rw [htext, String.length_ofList]
            exact evaluate_tooLarge_numeral hds hn line' allowTrailing
      · cases hitem

/-- A fault of value can be seen again in the text under its span. An integer that does not fit, be
it a numeral or the result of an operation at any depth, does not fit again, with the whole text to
blame; a divisor that is zero is a complete factor with the value zero. -/
theorem evaluate_reproduces [Host] {allowTrailing : Bool}
    (h : evaluate source line allowTrailing = .error (.fault f)) : Reproduces source f := by
  have hon : (Cursor.ofSource source line).On source line := Cursor.on_ofSource
  rw [evaluate_eq_stream] at h
  cases hr : ofStream (Cursor.ofSource source line).toStream with
  | error e =>
      rw [evaluate_of_no_reader hr] at h
      cases h
      have hnext := ofStream_eq_error_iff.1 hr
      rw [Cursor.toStream_next_fst] at hnext
      exact reproduces_of_next hon (Prod.ext hnext rfl)
  | ok r =>
      have hc : (Cursor.ofSource source line).Shows r := ofStream_eq_ok hr
      cases hexpr : expression source r with
      | ok v r' =>
          rw [evaluate_of_expression hr hexpr] at h
          split at h
          · cases h; exact reproduces_of_form rfl
          · cases h
      | error e r' =>
          rw [evaluate_of_no_expression hr hexpr] at h
          cases h
          have hout := expression_outcome source r
          rw [hexpr] at hout
          cases hout with
          | failure hf =>
              cases hf with
              | @item ts due m _ r₁ _ hts hlead he =>
                  have hkind := hlead.kind_ne_endOfInput
                  obtain ⟨c₁, hpasses, hc₁⟩ := hc.passes hts fun t ht => hkind t (by simp [ht])
                  obtain ⟨c₂, hreads, hstream⟩ := hc₁.reads (hkind _ (by simp))
                  have hnext := eat_error he
                  rw [hstream, Cursor.toStream_next_fst] at hnext
                  have hon₂ := (hon.passes hpasses).passes (.cons hreads (.nil c₂))
                  exact reproduces_of_next hon₂ (Prod.ext hnext rfl)
              | mismatch => exact reproduces_of_form rfl
              | operation hpre hlead hd hb =>
                  obtain ⟨c₀, hpasses, hc₀⟩ := hc.passes hpre hlead.kind_ne_endOfInput
                  exact reproduces_of_breaks (hon.passes hpasses) hc₀ hd hb
              | nesting => exact reproduces_of_form rfl

/-- A product that is greater by one than what fits. Its own parentheses belong to it, those around
it and the sum do not. -/
theorem evaluate_reproduces_product :
    evaluate "1 + (4611686018427387904 * (1+1) ) x" 1 false = .error (.fault
      ⟨.result 9223372036854775808, ⟨.onLine 1 5, .onLine 1 32⟩,
        "1 + (4611686018427387904 * (1+1) ) x"⟩) ∧
    evaluate "4611686018427387904 * (1+1)" 7 false = .error (.fault
      ⟨.result 9223372036854775808, ⟨.onLine 7 0, .onLine 7 27⟩,
        "4611686018427387904 * (1+1)"⟩) := by
  have h : evaluate "1 + (4611686018427387904 * (1+1) ) x" 1 false = .error (.fault
      ⟨.result 9223372036854775808, ⟨.onLine 1 5, .onLine 1 32⟩,
        "1 + (4611686018427387904 * (1+1) ) x"⟩) := by decide +kernel
  exact ⟨h, (evaluate_reproduces h).overflow rfl 7 false⟩

end Abacus

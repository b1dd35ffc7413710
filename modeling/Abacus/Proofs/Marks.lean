import Abacus.Proofs.Placement

/-!
# What a fault points at

A fault of a text points at a stretch of it. Mostly that is a token, or the tokens from the first of
an operand to the last one consumed, and then a cursor has moved over the whole stretch and over
everything before it; the stretch ends with the last character of a token, so that no white space is
left at its end, and it is empty only where the text ends. The exception is a character of no token.
The cursor stands before it, and the fault points at that character alone.

Which tokens they are depends on the rules that were under way. What is said here of the stretch
does not: where it lies, how long it is, and what characters are found up to its end.
-/

namespace Abacus

open Reader

/-- A stretch of the text that a cursor has moved over, up to the end of a token, or the end of the
text. -/
inductive Stretch (source : String) (line : Int) : Span → Prop
  | intro {s mid rest : List Char} (hsource : source.toList = s ++ (mid ++ rest))
      (hpass : ∀ ch ∈ s ++ mid, Passable ch)
      (hlast : ∀ ch ∈ mid.getLast?, Text.isBlank ch = false) (hnil : mid = [] → rest = []) :
      Stretch source line ⟨.onLine line s.length, .onLine line (s.length + mid.length)⟩

/-- What a fault of the text points at. -/
inductive Marks (source : String) (line : Int) : Fault → Prop
  | stray {s rest : List Char} {ch : Char} (hsource : source.toList = s ++ ch :: rest)
      (hpass : ∀ c ∈ s, Passable c) (hch : ¬ Passable ch) :
      Marks source line (.character (String.singleton ch) (.onLine line s.length) source)
  | stretch {cause : Cause} {span : Span} (h : Stretch source line span)
      (hcause : ∀ text, cause ≠ .character text) (hplain : cause.Plain) :
      Marks source line ⟨cause, span, source⟩

variable {source : String} {line : Int} {c c₁ c' : Cursor} {t : Token} {ts : List Token}
  {mid rest raw : List Char} {k : Token.Kind} {value : Option Int} {f : Fault} {r r' : Reader}

theorem Marks.source_eq (h : Marks source line f) : f.source = source := by
  cases h <;> rfl

theorem Marks.plain (h : Marks source line f) : f.cause.Plain := by
  cases h with
  | stray => exact trivial
  | stretch _ _ hplain => exact hplain

theorem span_character (text : String) (n : Nat) :
    (Fault.character text (.onLine line n) source).span =
      ⟨.onLine line n, .onLine line (n + 1)⟩ := by
  simp [Fault.character, Position.succ, Position.onLine]

/-- Either way it is a piece of the text that does not end with white space. -/
theorem Marks.exists_piece (h : Marks source line f) :
    ∃ s mid rest : List Char, source.toList = s ++ (mid ++ rest) ∧
      f.span = ⟨.onLine line s.length, .onLine line (s.length + mid.length)⟩ ∧
      (∀ ch ∈ mid.getLast?, Text.isBlank ch = false) ∧ (mid = [] → rest = []) := by
  cases h with
  | @stray s rest ch hsource _ hch =>
      refine ⟨s, [ch], rest, hsource, span_character _ _, ?_, by simp⟩
      intro ch' hlast
      cases hlast
      by_contra hblank
      exact hch (.inl (by simpa using hblank))
  | stretch h =>
      cases h with
      | @intro s mid rest hsource _ hlast hnil => exact ⟨s, mid, rest, hsource, rfl, hlast, hnil⟩

theorem Digits.exists_concat {ds : List Char} (h : Digits ds) :
    ∃ front ch, ds = front ++ [ch] ∧ Text.isBlank ch = false := by
  obtain ⟨front, ch, rfl⟩ := (List.eq_nil_or_concat ds).resolve_left h.1
  rw [List.concat_eq_append] at h ⊢
  exact ⟨front, ch, rfl, Text.isBlank_eq_false_of_isDigit (h.2 ch (by simp))⟩

theorem Lexeme.exists_concat (h : Lexeme raw k value) :
    ∃ front ch, raw = front ++ [ch] ∧ Text.isBlank ch = false := by
  cases h with
  | integer hds _ => exact hds.exists_concat
  | @symbol ch _ hk => exact ⟨[], ch, rfl, symbol_not_blank hk⟩

theorem Lexeme.passable (h : Lexeme raw k value) : ∀ ch ∈ raw, Passable ch := by
  cases h with
  | integer hds _ => exact hds.passable
  | symbol hk =>
      intro ch hch
      rw [List.mem_singleton] at hch
      exact .inr (.inr ⟨k, hch ▸ hk⟩)

namespace Cursor

theorem Reads.exists_concat (h : c.Reads t c') :
    ∃ front ch, c.rest = front ++ ch :: c'.rest ∧ Text.isBlank ch = false := by
  cases h with
  | @intro w raw rest k value _ hraw _ hrest =>
      obtain ⟨front, ch, rfl, hch⟩ := hraw.exists_concat
      exact ⟨w ++ front, ch, by simp [hrest, onto], hch⟩

/-- The text that is passed over ends with the last character of a token. -/
theorem Passes.exists_concat (h : Passes c (t :: ts) c') :
    ∃ front ch, c.rest = front ++ ch :: c'.rest ∧ Text.isBlank ch = false := by
  rw [← List.dropLast_concat_getLast (List.cons_ne_nil t ts)] at h
  obtain ⟨c₁, hinit, hlast⟩ := passes_append.1 h
  obtain ⟨mid, hmid, -⟩ := hinit.exists_rest
  cases hlast with
  | cons ht hs =>
      cases hs
      obtain ⟨front, ch, hfront, hch⟩ := ht.exists_concat
      exact ⟨mid ++ front, ch, by rw [hmid, hfront, List.append_assoc], hch⟩

theorem Cleared.reads (h : c.Cleared source line) (ht : c.Reads t c') :
    c'.Cleared source line := by
  cases ht with
  | @intro w raw rest k value hw hraw _ hrest =>
      have hafter := (h.onto hw.passable hrest).onto hraw.passable rfl
      simpa [Cursor.onto, Nat.add_assoc] using hafter

theorem Cleared.passes (h : c.Cleared source line) (hts : Passes c ts c') :
    c'.Cleared source line := by
  induction hts with
  | nil c => exact h
  | cons ht _ ih => exact ih (h.reads ht)

/-- What a cursor moves over from one place to another. -/
theorem Cleared.stretch (h : c.Cleared source line) (mid : List Char)
    (h' : (c.onto mid.length rest).Cleared source line) (hrest : c.rest = mid ++ rest)
    (hlast : ∀ ch ∈ mid.getLast?, Text.isBlank ch = false) (hnil : mid = [] → rest = []) :
    Stretch source line ⟨c.position, (c.onto mid.length rest).position⟩ := by
  obtain ⟨s, hs, hlen⟩ := h.on.rest_eq
  have hpass := h'.passable
  have hoffset : (c.onto mid.length rest).offset = (s ++ mid).length := by
    rw [List.length_append, ← hlen]
    rfl
  rw [hs, hrest, ← List.append_assoc, hoffset, List.take_left] at hpass
  have hspan : (⟨c.position, (c.onto mid.length rest).position⟩ : Span) =
      ⟨.onLine line s.length, .onLine line (s.length + mid.length)⟩ := by
    show (⟨.onLine c.line c.offset, .onLine c.line (c.offset + mid.length)⟩ : Span) = _
    rw [h.on.line_eq, hlen]
  rw [hspan]
  exact .intro (by rw [hs, hrest]) hpass hlast hnil

/-- The token that a cursor reads next, the end of the text perhaps. -/
theorem Cleared.stretch_of_next (h : c.Cleared source line) (hn : c.next.1 = .ok t) :
    Stretch source line t.span ∧ OneLine t.raw := by
  have hstep := c.step_next
  rw [hn] at hstep
  generalize hitem : (.ok t : Item) = item at hstep
  generalize c.next.2 = c' at hstep
  cases hstep with
  | @finish w hw hrest =>
      cases hitem
      have hclear := h.onto hw.passable (show c.rest = w ++ [] by rw [hrest, List.append_nil])
      refine ⟨?_, by simp [OneLine, Token.endAt]⟩
      exact hclear.stretch [] hclear rfl (by simp) fun _ => rfl
  | @numeral w ds rest hw hds hend hrest =>
      have hclear := h.onto hw.passable hrest
      rw [Cursor.numeral] at hitem
      split at hitem
      · cases hitem
        obtain ⟨front, ch, rfl, hch⟩ := hds.exists_concat
        refine ⟨?_, oneLine_ofDigits hds.2⟩
        exact hclear.stretch _ (hclear.onto hds.passable rfl) rfl (by simpa using hch) (by simp)
      · cases hitem
      · cases hitem
  | @symbol w rest ch k hw hk hrest =>
      cases hitem
      have hclear := h.onto hw.passable hrest
      refine ⟨?_, oneLine_symbol hk⟩
      exact hclear.stretch [ch] (hclear.onto (w := [ch]) (Lexeme.symbol hk).passable rfl)
        rfl (by simpa using symbol_not_blank hk) (by simp)
  | stray => cases hitem

/-- Some tokens, from the first character of the first one to the last character of the last one. -/
theorem Cleared.stretch_of_passes (h : c.Cleared source line) (hts : Passes c (t :: ts) c') :
    Stretch source line ⟨t.span.start, c'.position⟩ := by
  have hafter := h.passes hts
  cases hts with
  | cons ht hs =>
      -- The stretch begins with the first token, not with the white space before it.
      obtain ⟨w, rest, hw, hrest, hstart, ht⟩ := ht.from_start
      have hbefore := h.onto hw.passable hrest
      have hall := Passes.cons ht hs
      obtain ⟨mid, hmid, hc'⟩ := hall.exists_rest
      obtain ⟨front, ch, hfront, hch⟩ := hall.exists_concat
      obtain rfl : mid = front ++ [ch] := by
        rw [hmid, List.append_cons] at hfront
        exact List.append_cancel_right hfront
      rw [hc'] at hafter
      rw [hstart, hc']
      exact hbefore.stretch _ hafter hmid (by simpa using hch) (by simp)

theorem Cleared.marks_of_next (h : c.Cleared source line) (hn : c.next.1 = .error (.fault f)) :
    Marks source line f := by
  have hstep := c.step_next
  rw [hn] at hstep
  generalize hitem : (.error (.fault f) : Item) = item at hstep
  generalize c.next.2 = c' at hstep
  cases hstep with
  | finish => cases hitem
  | symbol => cases hitem
  | @numeral w ds rest hw hds hend hrest =>
      have hclear := h.onto hw.passable hrest
      rw [Cursor.numeral] at hitem
      split at hitem
      · cases hitem
      · cases hitem
        obtain ⟨front, ch, rfl, hch⟩ := hds.exists_concat
        rw [h.on.source_eq]
        refine .stretch ?_ (by simp) (oneLine_ofDigits hds.2)
        exact hclear.stretch _ (hclear.onto hds.passable rfl) rfl (by simpa using hch) (by simp)
      · cases hitem
  | @stray w rest ch hw hb hd hk hrest =>
      cases hitem
      have hclear := h.onto hw.passable hrest
      obtain ⟨s, hs, hlen⟩ := hclear.on.rest_eq
      have hpass := hclear.passable
      rw [hs, hlen, List.take_left] at hpass
      have hline := h.on.line_eq
      have hstart : c.offset + w.length = s.length := hlen
      rw [h.on.source_eq, hline, hstart]
      refine .stray hs hpass ?_
      rintro (hblank | hdigit | ⟨k, hk'⟩)
      · rw [hb] at hblank
        cases hblank
      · rw [hd] at hdigit
        cases hdigit
      · rw [hk] at hk'
        cases hk'

end Cursor

theorem marks_of_shows {x : Expectation} (h : c.Cleared source line) (hc : c.Shows r) :
    Marks source line ⟨.mismatch x r.lookahead, r.lookahead.span, source⟩ := by
  obtain ⟨hstretch, hraw⟩ := h.stretch_of_next hc.next_fst
  exact .stretch hstretch (by simp) hraw

theorem marks_of_breaks {d : Nat} {ℓ : Level} (h : c.Cleared source line) (hc : c.Shows r)
    (hb : Breaks source d ℓ r (.fault f) r') : Marks source line f := by
  cases hb with
  | @intro ℓ' ts us o op e g a b z r₁ r₂ _ hℓ hts he ha ho hop hus hg hb hz =>
      have hall := (hts.append (.single ho)).append hus
      have hlead := (he.leads.operator (operator_of_operation? hop)).append hg.leads
      obtain ⟨c₃, hpasses, -⟩ := hc.passes hall hlead.kind_ne_endOfInput
      obtain ⟨t, ts, rfl, -⟩ := he.exists_cons
      obtain ⟨u, us, rfl, -⟩ := hg.exists_cons
      obtain ⟨c₂, hleft, hright⟩ := Cursor.passes_append.1 hpasses
      have hstop : r'.previousEnd = c₃.position := hright.previousEnd_eq hus
      refine .stretch ?_ (by cases z <;> simp [Operation.Failure.cause])
        (by cases z <;> exact trivial)
      cases z with
      | zeroDivisor =>
          show Stretch source line ⟨r₂.lookahead.span.start, r'.previousEnd⟩
          rw [hus.lookahead_eq, hstop]
          exact (h.passes hleft).stretch_of_passes hright
      | tooLarge x =>
          show Stretch source line ⟨r.lookahead.span.start, r'.previousEnd⟩
          rw [hts.lookahead_eq, hstop]
          exact h.stretch_of_passes hpasses

theorem marks_of_fails {d : Nat} {ℓ : Level} (h : c.Cleared source line) (hc : c.Shows r)
    (hf : Fails source d ℓ r (.fault f) r') : Marks source line f := by
  cases hf with
  | @item ts due m _ r₁ _ hts hlead he =>
      have hkind := hlead.kind_ne_endOfInput
      obtain ⟨c₁, hpasses, hc₁⟩ := hc.passes hts fun t ht => hkind t (by simp [ht])
      obtain ⟨c₂, hreads, hstream⟩ := hc₁.reads (hkind _ (by simp))
      have hnext := eat_error he
      rw [hstream, Cursor.toStream_next_fst] at hnext
      exact ((h.passes hpasses).reads hreads).marks_of_next hnext
  | mismatch hts hlead =>
      obtain ⟨c₁, hpasses, hc₁⟩ := hc.passes hts hlead.kind_ne_endOfInput
      exact marks_of_shows (h.passes hpasses) hc₁
  | operation hpre hlead _ hb =>
      obtain ⟨c₁, hpasses, hc₁⟩ := hc.passes hpre hlead.kind_ne_endOfInput
      exact marks_of_breaks (h.passes hpasses) hc₁ hb
  | nesting hts hlead =>
      obtain ⟨c₁, hpasses, hc₁⟩ := hc.passes hts hlead.kind_ne_endOfInput
      obtain ⟨hstretch, -⟩ := (h.passes hpasses).stretch_of_next hc₁.next_fst
      exact .stretch hstretch (by simp) trivial

/-- The fault of a text points at a stretch of it, or at the character it is about. -/
theorem marks_of_evaluate [Host] {allowTrailing : Bool}
    (h : evaluate source line allowTrailing = .error (.fault f)) : Marks source line f := by
  have hclear : (Cursor.ofSource source line).Cleared source line := Cursor.cleared_ofSource
  rw [evaluate_eq_stream] at h
  cases hr : ofStream (Cursor.ofSource source line).toStream with
  | error e =>
      rw [evaluate_of_no_reader hr] at h
      cases h
      have hnext := ofStream_eq_error_iff.1 hr
      rw [Cursor.toStream_next_fst] at hnext
      exact hclear.marks_of_next hnext
  | ok r =>
      have hc : (Cursor.ofSource source line).Shows r := ofStream_eq_ok hr
      cases hexpr : expression source r with
      | ok v r' =>
          have hout := expression_outcome source r
          rw [hexpr] at hout
          rw [evaluate_of_expression hr hexpr] at h
          split at h
          · cases h
            cases hout with
            | value hts he =>
                obtain ⟨c', hpasses, hc'⟩ := hc.passes hts he.leads.kind_ne_endOfInput
                exact marks_of_shows (hclear.passes hpasses) hc'
          · cases h
      | error e r' =>
          rw [evaluate_of_no_expression hr hexpr] at h
          cases h
          have hout := expression_outcome source r
          rw [hexpr] at hout
          cases hout with
          | failure hf => exact marks_of_fails hclear hc hf

end Abacus

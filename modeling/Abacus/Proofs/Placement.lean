import Abacus.Proofs.Insertion
import Abacus.Proofs.Numerals
import Abacus.Proofs.Reproduction
import Abacus.Proofs.Titles
import Abacus.Text.Utf16

/-!
# What is known of tokens is known of faults

A fault is put together from what the reader has seen: a token to blame, or the first and the last
of several, or else it is the failure of a cursor to read one. So whatever holds of each token that
a text has, and of each failure to read one, gives something that holds of the failure of the whole
text. It is the same argument as for two readings, with one reading put beside itself.

Put to use, it places the fault of a line in the line. A cursor moves on only over white space,
digits and the characters of tokens, so there is nothing else before the fault. Where the fault
begins is an offset in the line, and it is the last one just if the end of the input is to blame.
-/

namespace Abacus

/-- Facts about tokens, and about the failures that come of such tokens. -/
structure Inheritance (source : String) where
  token : Token → Prop
  failure : Failure → Prop
  mismatch : ∀ {t} (x : Expectation), token t →
    failure (.fault ⟨.mismatch x t, t.span, source⟩)
  nesting : ∀ {t}, token t → failure (.fault ⟨.nesting t, t.span, source⟩)
  operation : ∀ {t u} (z : Operation.Failure), token t → token u → t.kind ≠ .endOfInput →
    u.kind ≠ .endOfInput → failure (.fault ⟨z.cause, ⟨t.span.start, u.span.stop⟩, source⟩)

namespace Inheritance

variable {source : String}

/-- An item of which the facts hold. -/
def item (H : Inheritance source) : Item → Prop
  | .ok t => H.token t
  | .error e => H.failure e

/-- Every token stands for itself, if the facts hold of it. -/
def likeness (H : Inheritance source) : Likeness source source where
  token t t' := t' = t ∧ H.token t
  failure e e' := e' = e ∧ H.failure e
  kind_eq h := by rw [h.1]
  number_eq h := by rw [h.1]
  mismatch x h := ⟨by rw [h.1], H.mismatch x h.2⟩
  nesting h := ⟨by rw [h.1], H.nesting h.2⟩
  operation z h h' hk hk' := ⟨by rw [h.1, h'.1], H.operation z h.2 h'.2 hk hk'⟩

/-- What holds of all items of a text holds of its failure. -/
theorem failure_of_evaluate [Host] (H : Inheritance source) {line : Int} {allowTrailing : Bool}
    {R : Cursor → Prop} (hstart : R (.ofSource source line))
    (hnext : ∀ c, R c → H.item c.next.1 ∧ R c.next.2) {e : Failure}
    (h : evaluate source line allowTrailing = .error e) : H.failure e := by
  have hstep : ∀ c d, (d = c ∧ R c) →
      H.likeness.Alike c.next.1 d.next.1 ∧ (d.next.2 = c.next.2 ∧ R c.next.2) := by
    intro c d h
    obtain ⟨hd, hc⟩ := h
    rw [hd]
    obtain ⟨hitem, hc'⟩ := hnext c hc
    refine ⟨?_, rfl, hc'⟩
    cases hn : c.next.1 with
    | ok t => exact .token ⟨rfl, by rw [hn] at hitem; exact hitem⟩
    | error e => exact .failure ⟨rfl, by rw [hn] at hitem; exact hitem⟩
  have hsame := Cursor.evaluate_same H.likeness hstep ⟨rfl, hstart⟩ allowTrailing
  rw [h] at hsame
  cases hsame with
  | failure hf => exact hf.2

end Inheritance

/-! ## The place of a fault -/

/-- A character that a cursor moves over. -/
def Passable (ch : Char) : Prop :=
  Text.isBlank ch = true ∨ ch.isDigit = true ∨ ∃ k, Token.Kind.ofSymbol? ch = some k

/-- No run of digits in the text is too long for its value to be worked out. -/
def NoneOverlong (text : List Char) : Prop :=
  ∀ s ds rest, text = s ++ (ds ++ rest) → Digits ds → ds.length ≤ 4300

/-- Something begins at `p`, with nothing before it that would stop a cursor: the end of the input,
or some part of the text. -/
structure Begins (source : String) (line : Int) (p : Position) (atEnd : Bool) : Prop where
  eq_onLine : p = .onLine line p.offset
  passable : ∀ ch ∈ source.toList.take p.offset, Passable ch
  inside : atEnd = false → p.offset < source.toList.length
  outside : atEnd = true → p.offset = source.toList.length

/-- The cursor has moved over everything before it. -/
structure Cursor.Cleared (c : Cursor) (source : String) (line : Int) : Prop where
  on : c.On source line
  passable : ∀ ch ∈ source.toList.take c.offset, Passable ch

variable {source : String} {line : Int} {c : Cursor} {w ds rest : List Char} {ch : Char}

theorem NoneOverlong.of_isInfix {text part : List Char} (h : NoneOverlong text)
    (hpart : part <:+: text) : NoneOverlong part := by
  obtain ⟨before, after, rfl⟩ := hpart
  intro s ds rest hs hds
  exact h (before ++ s) ds (rest ++ after) (by simp [hs]) hds

theorem noneOverlong_of_length {text : List Char} (h : text.length ≤ 4300) : NoneOverlong text := by
  intro s ds rest hs _
  have hlen := congrArg List.length hs
  simp only [List.length_append] at hlen
  omega

theorem Blanks.passable (hw : Blanks w) : ∀ ch ∈ w, Passable ch :=
  fun ch hch => .inl (hw ch hch)

theorem Digits.passable (hds : Digits ds) : ∀ ch ∈ ds, Passable ch :=
  fun ch hch => .inr (.inl (hds.2 ch hch))

namespace Cursor

theorem cleared_ofSource : (Cursor.ofSource source line).Cleared source line :=
  ⟨on_ofSource, by simp [Cursor.ofSource]⟩

theorem Cleared.onto (h : c.Cleared source line) (hw : ∀ ch ∈ w, Passable ch)
    (hrest : c.rest = w ++ rest) : (c.onto w.length rest).Cleared source line := by
  refine ⟨h.on.onto hrest, ?_⟩
  obtain ⟨s, hs, hlen⟩ := h.on.rest_eq
  have hpassable := h.passable
  rw [hs, hlen, List.take_left] at hpassable
  have hoffset : (c.onto w.length rest).offset = (s ++ w).length := by
    rw [List.length_append, ← hlen]
    rfl
  rw [hs, hrest, ← List.append_assoc, hoffset, List.take_left]
  intro ch hch
  rcases List.mem_append.1 hch with hch | hch
  · exact hpassable ch hch
  · exact hw ch hch

theorem Cleared.begins (h : c.Cleared source line) :
    Begins source line c.position c.rest.isEmpty := by
  obtain ⟨s, hs, hlen⟩ := h.on.rest_eq
  refine ⟨by rw [position, h.on.line_eq]; rfl, h.passable, fun hne => ?_, fun hnil => ?_⟩
  · have hpos : 0 < c.rest.length := List.length_pos_iff.2 (by simpa using hne)
    show c.offset < _
    rw [hs, List.length_append]
    omega
  · rw [List.isEmpty_iff] at hnil
    show c.offset = _
    rw [hs, hnil, List.append_nil, hlen]

theorem Cleared.begins_of_ne_nil (h : c.Cleared source line) (hne : c.rest ≠ []) :
    Begins source line c.position false := by
  have hbegins := h.begins
  rwa [List.isEmpty_eq_false_iff.2 hne] at hbegins

end Cursor

/-- Where the tokens and the faults of a line begin. -/
def openings (source : String) (line : Int) : Inheritance source where
  token t := Begins source line t.span.start (t.kind == .endOfInput)
  failure e := ∀ f, e = .fault f → Begins source line f.span.start f.cause.atEnd
  mismatch _ h f hf := by cases hf; exact h
  nesting h f hf := by cases hf; exact h
  operation {t u} z h _ hk _ f hf := by
    -- The fault begins with the left operand, which is not the end of the input.
    have hkind : (t.kind == .endOfInput) = false := by simpa using hk
    rw [hkind] at h
    cases hf
    cases z <;> exact h

theorem openings_numeral {span : Span} (hstart : Begins source line span.start false) :
    (openings source line).item (Cursor.numeral source ds span) := by
  rw [Cursor.numeral]
  cases Text.Numeral.ofDigits ds with
  | value n => exact hstart
  | tooLarge =>
      intro f hf
      cases hf
      exact hstart
  | overlong n =>
      intro f hf
      cases hf

theorem openings_next (h : c.Cleared source line) :
    (openings source line).item c.next.1 ∧ c.next.2.Cleared source line := by
  have hstep := c.step_next
  generalize c.next.1 = item at hstep
  generalize c.next.2 = c' at hstep
  cases hstep with
  | @finish w hw hrest =>
      have hclear := h.onto hw.passable (show c.rest = w ++ [] by rw [hrest, List.append_nil])
      exact ⟨hclear.begins, hclear⟩
  | @numeral w ds rest hw hds hend hrest =>
      have hclear := h.onto hw.passable hrest
      have hafter := hclear.onto hds.passable rfl
      have hne : ds ++ rest ≠ [] := by simp [hds.1]
      rw [h.on.source_eq]
      refine ⟨openings_numeral (hclear.begins_of_ne_nil hne), ?_⟩
      simpa [Cursor.onto, Nat.add_assoc] using hafter
  | @symbol w rest ch k hw hk hrest =>
      have hclear := h.onto hw.passable hrest
      have hafter := hclear.onto (w := [ch]) (by simpa using .inr (.inr ⟨k, hk⟩)) rfl
      have hbegins := hclear.begins_of_ne_nil (List.cons_ne_nil ch rest)
      have hkind : (k == .endOfInput) = false := by
        simpa using (Lexeme.symbol hk).kind_ne_endOfInput
      refine ⟨?_, ?_⟩
      · show Begins source line _ (k == .endOfInput)
        rw [hkind]
        exact hbegins
      · simpa [Cursor.onto, Nat.add_assoc] using hafter
  | @stray w rest ch hw hb hd hk hrest =>
      have hclear := h.onto hw.passable hrest
      refine ⟨fun f hf => ?_, hclear⟩
      cases hf
      exact hclear.begins_of_ne_nil (List.cons_ne_nil ch rest)

/-- What is known of the tokens and faults of a line in which no run of digits is too long. -/
def placement (source : String) (line : Int) : Inheritance source where
  token t := Begins source line t.span.start (t.kind == .endOfInput) ∧ OneLine t.raw
  failure e := ∃ f, e = .fault f ∧ Begins source line f.span.start f.cause.atEnd ∧ f.cause.Plain
  mismatch _ h := ⟨_, rfl, h.1, h.2⟩
  nesting h := ⟨_, rfl, h.1, trivial⟩
  operation {t u} z h _ hk _ := by
    have hkind : (t.kind == .endOfInput) = false := by simpa using hk
    rw [hkind] at h
    cases z <;> exact ⟨_, rfl, h.1, trivial⟩

theorem oneLine_symbol {k : Token.Kind} (hk : Token.Kind.ofSymbol? ch = some k) :
    OneLine (String.singleton ch) := by
  rw [← Token.Kind.symbol?_eq_some_iff] at hk
  cases k <;> cases hk <;> decide

theorem placement_numeral {span : Span} (hlen : NoneOverlong source.toList) (hds : Digits ds)
    (hsource : ∃ s rest, source.toList = s ++ (ds ++ rest))
    (hopen : (openings source line).item (Cursor.numeral source ds span)) :
    (placement source line).item (Cursor.numeral source ds span) := by
  rw [Cursor.numeral] at hopen ⊢
  cases hn : Text.Numeral.ofDigits ds with
  | value n =>
      rw [hn] at hopen
      exact ⟨hopen, oneLine_ofDigits hds.2⟩
  | tooLarge =>
      rw [hn] at hopen
      exact ⟨_, rfl, hopen _ rfl, oneLine_ofDigits hds.2⟩
  | overlong n =>
      obtain ⟨s, rest, hs⟩ := hsource
      have hle := hlen s ds rest hs hds
      have hlt := Text.lt_length_of_overlong hn
      rw [Text.maxDigits] at hlt
      omega

theorem placement_next (hlen : NoneOverlong source.toList) (h : c.Cleared source line) :
    (placement source line).item c.next.1 ∧ c.next.2.Cleared source line := by
  obtain ⟨hopen, hclear⟩ := openings_next h
  refine ⟨?_, hclear⟩
  have hstep := c.step_next
  generalize c.next.1 = item at hstep hopen ⊢
  generalize c.next.2 = c' at hstep
  cases hstep with
  | finish => exact ⟨hopen, by simp [OneLine, Token.endAt]⟩
  | @numeral w ds rest hw hds hend hrest =>
      obtain ⟨s, hs, -⟩ := (h.onto hw.passable hrest).on.rest_eq
      rw [h.on.source_eq] at hopen ⊢
      exact placement_numeral hlen hds ⟨s, rest, hs⟩ hopen
  | symbol hw hk hrest => exact ⟨hopen, oneLine_symbol hk⟩
  | stray => exact ⟨_, rfl, hopen _ rfl, trivial⟩

/-- A line in which no run of digits is too long comes to a value or to a fault, and the fault
begins somewhere in the line, with nothing before it that would stop a cursor. -/
theorem exists_fault_of_evaluate [Host] {allowTrailing : Bool} {e : Failure}
    (hlen : NoneOverlong source.toList)
    (h : evaluate source line allowTrailing = .error e) :
    ∃ f, e = .fault f ∧ Begins source line f.span.start f.cause.atEnd ∧ f.cause.Plain :=
  (placement source line).failure_of_evaluate Cursor.cleared_ofSource
    (fun _ => placement_next hlen) h

/-! ## Columns -/

theorem Passable.units16 (h : Passable ch) : Text.units16 ch = 1 := by
  have hlt : ch.toNat < 0x10000 := by
    rcases h with hb | hd | ⟨k, hk⟩
    · simp only [Text.isBlank, Bool.or_eq_true, Bool.and_eq_true, decide_eq_true_eq,
        beq_iff_eq] at hb
      omega
    · have hd := Text.toNat_of_isDigit hd
      omega
    · rw [← Token.Kind.symbol?_eq_some_iff] at hk
      cases k <;> cases hk <;> decide
  rw [Text.units16, if_pos hlt]

theorem length16_of_passable {text : List Char} (h : ∀ ch ∈ text, Passable ch) :
    Text.length16 text = text.length := by
  induction text with
  | nil => rfl
  | cons ch text ih =>
      rw [Text.length16, (h ch (by simp)).units16, ih fun ch' hch => h ch' (by simp [hch]),
        List.length_cons, Nat.add_comm]

/-- Up to the place where something begins, units and characters are the same. -/
theorem Begins.utf16Column {p : Position} {atEnd : Bool} (h : Begins source line p atEnd) :
    Text.utf16Column source p.column = p.offset := by
  have hle : p.offset ≤ source.toList.length := by
    cases atEnd with
    | true => exact (h.outside rfl).le
    | false => exact (h.inside rfl).le
  have hcolumn : p.column = p.offset + 1 := by
    rw [h.eq_onLine]
    rfl
  rw [Text.utf16Column, Text.beforeColumn, if_pos (by omega), hcolumn, Int.add_sub_cancel,
    Int.toNat_natCast, length16_of_passable h.passable, List.length_take]
  omega

end Abacus

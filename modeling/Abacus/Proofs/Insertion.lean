import Abacus.Proofs.Items
import Abacus.Token.Listing

/-!
# White space that is put in

White space between two words of a text separates them already, or else they need none; so some more
of it, at any place that is not between two digits, changes nothing but offsets. The same goes for
the number of the line, which is copied into every position and never looked at. An `Insertion` has
both: a text into which white space is put, none at all perhaps, and the numbers of two lines.

Two cursors move along the two texts. Before the place of the insertion they stand at the same
offset, behind it at offsets that differ by the length of what was put in. What they find is alike,
and so the two readings are. Where a span touches the place, it depends on the end that touches it:
a word that begins there is moved, and a word that ends there is not. The end of the input has no
length and begins there.
-/

namespace Abacus

/-- The second text is the first one with some white space put in, not between two digits. -/
structure Insertion (source source' : String) where
  line : Int
  line' : Int
  front : List Char
  space : List Char
  back : List Char
  blanks : Blanks space
  source_eq : source.toList = front ++ back
  source'_eq : source'.toList = front ++ (space ++ back)
  apart : ∀ ch ∈ front.getLast?, ch.isDigit = true → StartsWithout Char.isDigit back

/-- The fault is found at the end of the input. -/
def Cause.atEnd : Cause → Bool
  | .mismatch _ found | .nesting found => found.kind == .endOfInput
  | _ => false

namespace Insertion

variable {source source' : String}

/-- Where a word begins that began at the offset `i`. -/
def startAt (I : Insertion source source') (i : Nat) : Nat :=
  if I.front.length ≤ i then i + I.space.length else i

/-- Where a word ends that ended at the offset `i`. -/
def stopAt (I : Insertion source source') (i : Nat) : Nat :=
  if I.front.length < i then i + I.space.length else i

/-- Where a span is found; one at the end of the input has no length. -/
def span (I : Insertion source source') (atEnd : Bool) (s : Span) : Span :=
  ⟨.onLine I.line' (I.startAt s.start.offset),
    .onLine I.line' (if atEnd then I.startAt s.stop.offset else I.stopAt s.stop.offset)⟩

/-- The same token in the other text. -/
def token (I : Insertion source source') (t : Token) : Token :=
  { t with span := I.span (t.kind == .endOfInput) t.span }

/-- The same cause, with the token to blame in the other text. -/
def cause (I : Insertion source source') : Cause → Cause
  | .mismatch expected found => .mismatch expected (I.token found)
  | .nesting found => .nesting (I.token found)
  | x => x

/-- The same fault in the other text. -/
def fault (I : Insertion source source') (f : Fault) : Fault :=
  ⟨I.cause f.cause, I.span f.cause.atEnd f.span, source'⟩

/-- The same failure in the other text. -/
def failure (I : Insertion source source') : Failure → Failure
  | .fault f => .fault (I.fault f)
  | .overlong digits => .overlong digits

/-- Tokens and failures stand for those in the other text. -/
def likeness (I : Insertion source source') : Likeness source source' where
  token t t' := t' = I.token t
  failure e e' := e' = I.failure e
  kind_eq h := by rw [h]; rfl
  number_eq h := by rw [h]; rfl
  mismatch x h := by rw [h]; rfl
  nesting h := by rw [h]; rfl
  operation {t t' u u'} z h h' _ hu := by
    have hend : (u.kind == .endOfInput) = false := by simpa using hu
    have hcause : I.cause z.cause = z.cause := by cases z <;> rfl
    have hatEnd : z.cause.atEnd = false := by cases z <;> rfl
    rw [h, h', failure, fault, hcause, hatEnd]
    simp [token, span, hend]

/-- Cursors in the same place of the two texts. -/
inductive Along (I : Insertion source source') : Cursor → Cursor → Prop
  | before {n : Nat} {rest rest' : List Char} (pre mid : List Char) (h : I.front = pre ++ mid)
      (hn : n = pre.length) (hrest : rest = mid ++ I.back)
      (hrest' : rest' = mid ++ (I.space ++ I.back)) :
      I.Along ⟨source, I.line, n, rest⟩ ⟨source', I.line', n, rest'⟩
  | behind {n n' : Nat} {rest : List Char} (h : I.front.length ≤ n)
      (hn : n' = n + I.space.length) :
      I.Along ⟨source, I.line, n, rest⟩ ⟨source', I.line', n', rest⟩

variable {I : Insertion source source'} {c c' d : Cursor} {w w' raw rest rest' : List Char}
  {item : Item}

/-- A word before which `c` stands, with white space between, and the same word for `d`. -/
structure Meets (I : Insertion source source') (c d : Cursor) (w raw rest w' rest' : List Char) :
    Prop where
  blanks : Blanks w'
  rest_eq : d.rest = w' ++ (raw ++ rest')
  digits : StartsWithout Char.isDigit rest → StartsWithout Char.isDigit rest'
  start : I.startAt (c.offset + w.length) = d.offset + w'.length
  stop : I.stopAt (c.offset + w.length + raw.length) = d.offset + w'.length + raw.length
  at_word : I.Along (c.onto w.length (raw ++ rest)) (d.onto w'.length (raw ++ rest'))
  after_word : I.Along (c.onto (w.length + raw.length) rest) (d.onto (w'.length + raw.length) rest')

theorem startAt_of_le {i : Nat} (h : I.front.length ≤ i) : I.startAt i = i + I.space.length :=
  if_pos h

theorem startAt_of_lt {i : Nat} (h : i < I.front.length) : I.startAt i = i :=
  if_neg (by omega)

theorem stopAt_of_lt {i : Nat} (h : I.front.length < i) : I.stopAt i = i + I.space.length :=
  if_pos h

theorem stopAt_of_le {i : Nat} (h : i ≤ I.front.length) : I.stopAt i = i :=
  if_neg (by omega)

theorem line_eq (h : I.Along c d) : c.line = I.line ∧ d.line = I.line' := by
  cases h <;> exact ⟨rfl, rfl⟩

theorem source_eq_of_along (h : I.Along c d) : c.source = source ∧ d.source = source' := by
  cases h <;> exact ⟨rfl, rfl⟩

/-- A word that has no place for white space: nothing but digits, or a single character. -/
def Whole (raw : List Char) : Prop :=
  Digits raw ∨ ∃ ch, raw = [ch]

theorem Whole.ne_nil (h : Whole raw) : raw ≠ [] := by
  rcases h with h | ⟨ch, rfl⟩
  · exact h.1
  · simp

/-- A word stands behind the place of the insertion, before it, or around it. -/
theorem append_eq_word {mid back : List Char} (h : mid ++ back = w ++ (raw ++ rest)) :
    (∃ v, w = mid ++ v ∧ back = v ++ (raw ++ rest)) ∨
    (∃ v, mid = w ++ (raw ++ v) ∧ rest = v ++ back) ∨
    (∃ x z, x ≠ [] ∧ z ≠ [] ∧ raw = x ++ z ∧ mid = w ++ x ∧ back = z ++ rest) := by
  rcases List.append_eq_append_iff.1 h with ⟨v, hw, hback⟩ | ⟨x, hmid, hraw⟩
  · exact .inl ⟨v, hw, hback⟩
  · rcases List.append_eq_append_iff.1 hraw with ⟨v, hx, hrest⟩ | ⟨z, hword, hback⟩
    · exact .inr (.inl ⟨v, by rw [hmid, hx], hrest⟩)
    · rcases List.eq_nil_or_concat x with rfl | ⟨x', ch, rfl⟩
      · refine .inl ⟨[], by simpa using hmid.symm, ?_⟩
        rw [hback, hword]
        rfl
      · cases z with
        | nil =>
            refine .inr (.inl ⟨[], ?_, hback.symm⟩)
            rw [hmid, hword, List.append_nil, List.append_nil]
        | cons ch' z => exact .inr (.inr ⟨_, _, by simp, by simp, hword, hmid, hback⟩)

/-- Nothing can be put into a word. -/
theorem not_cut (I : Insertion source source') {pre x z : List Char} (hraw : Whole (x ++ z))
    (hx : x ≠ []) (hz : z ≠ []) (hfront : I.front = pre ++ (w ++ x)) (hback : I.back = z ++ rest) :
    False := by
  obtain ⟨x', ch, rfl⟩ := (List.eq_nil_or_concat x).resolve_left hx
  obtain ⟨ch', z', rfl⟩ := List.exists_cons_of_ne_nil hz
  rcases hraw with hds | ⟨ch'', hone⟩
  · have hd := I.apart ch (by simp [hfront]) (hds.2 ch (by simp)) ch' (by simp [hback])
    rw [hds.2 ch' (by simp)] at hd
    cases hd
  · have hlength := congrArg List.length hone
    simp at hlength
    omega

theorem startsWithout_put {v : List Char} (I : Insertion source source')
    (h : StartsWithout Char.isDigit (v ++ I.back)) :
    StartsWithout Char.isDigit (v ++ (I.space ++ I.back)) := by
  cases v with
  | nil => exact I.blanks.startsWithout_digit h
  | cons ch v => exact h

theorem meets_behind {n n' : Nat} (hn : I.front.length ≤ n) (hn' : n' = n + I.space.length)
    (hw : Blanks w) (hraw : 0 < raw.length) :
    I.Meets ⟨source, I.line, n, w ++ (raw ++ rest)⟩ ⟨source', I.line', n', w ++ (raw ++ rest)⟩
      w raw rest w rest where
  blanks := hw
  rest_eq := rfl
  digits := id
  start := (startAt_of_le (by simp only; omega)).trans (by simp only; omega)
  stop := (stopAt_of_lt (by simp only; omega)).trans (by simp only; omega)
  at_word := .behind (by simp only; omega) (by simp only; omega)
  after_word := .behind (by simp only; omega) (by simp only; omega)

/-- The white space goes into the white space before a word. -/
theorem meets_put {n : Nat} {pre mid v : List Char} (hfront : I.front = pre ++ mid)
    (hn : n = pre.length) (hback : I.back = v ++ (raw ++ rest)) (hw : Blanks (mid ++ v))
    (hraw : 0 < raw.length) :
    I.Meets ⟨source, I.line, n, mid ++ I.back⟩ ⟨source', I.line', n, mid ++ (I.space ++ I.back)⟩
      (mid ++ v) raw rest (mid ++ (I.space ++ v)) rest := by
  have hfrontlen := congrArg List.length hfront
  have hlen : (mid ++ (I.space ++ v)).length = (mid ++ v).length + I.space.length := by
    simp only [List.length_append]
    omega
  rw [List.length_append] at hfrontlen
  have hle : I.front.length ≤ n + (mid ++ v).length := by
    rw [List.length_append]
    omega
  constructor
  · rw [blanks_append] at hw
    exact blanks_append.2 ⟨hw.1, blanks_append.2 ⟨I.blanks, hw.2⟩⟩
  · simp [hback]
  · exact id
  · exact (startAt_of_le hle).trans (by simp only; omega)
  · exact (stopAt_of_lt (by simp only; omega)).trans (by simp only; omega)
  · exact .behind hle (by simp only; omega)
  · exact .behind (by simp only; omega) (by simp only; omega)

/-- The white space is put in behind a word. -/
theorem meets_before {n : Nat} {pre v : List Char} (hfront : I.front = pre ++ (w ++ (raw ++ v)))
    (hn : n = pre.length) (hw : Blanks w) (hraw : 0 < raw.length) :
    I.Meets ⟨source, I.line, n, w ++ (raw ++ v) ++ I.back⟩
      ⟨source', I.line', n, w ++ (raw ++ v) ++ (I.space ++ I.back)⟩
      w raw (v ++ I.back) w (v ++ (I.space ++ I.back)) := by
  have hfrontlen := congrArg List.length hfront
  simp only [List.length_append] at hfrontlen
  constructor
  · exact hw
  · simp
  · exact I.startsWithout_put
  · exact startAt_of_lt (by simp only; omega)
  · exact stopAt_of_le (by simp only; omega)
  · exact .before (pre ++ w) (raw ++ v) (by simp [hfront]) (by simp [hn])
      (by simp) (by simp)
  · exact .before (pre ++ (w ++ raw)) v (by simp [hfront]) (by simp [hn])
      rfl rfl

theorem exists_meets (h : I.Along c d) (hw : Blanks w) (hraw : Whole raw)
    (hrest : c.rest = w ++ (raw ++ rest)) : ∃ w' rest', I.Meets c d w raw rest w' rest' := by
  have hlen : 0 < raw.length := List.length_pos_iff.2 hraw.ne_nil
  cases h with
  | behind hn hn' =>
      obtain rfl := hrest
      exact ⟨w, rest, meets_behind hn hn' hw hlen⟩
  | before pre mid hfront hn hc hd =>
      subst hc hd
      -- The place is before the word, behind it, or within it, and then the word would be cut.
      rcases append_eq_word hrest with
        ⟨v, rfl, hback⟩ | ⟨v, rfl, rfl⟩ | ⟨x, z, hx, hz, rfl, rfl, hback⟩
      · exact ⟨_, _, meets_put hfront hn hback hw hlen⟩
      · exact ⟨_, _, meets_before hfront hn hw hlen⟩
      · exact (I.not_cut hraw hx hz hfront hback).elim

theorem Meets.span_eq (hm : I.Meets c d w raw rest w' rest') (h : I.Along c d) :
    I.span false (c.stretch w.length raw.length) = d.stretch w'.length raw.length := by
  rw [Cursor.stretch, Cursor.stretch, (line_eq h).2]
  simp only [span, Position.onLine, hm.start, hm.stop, Bool.false_eq_true, ↓reduceIte]

theorem fault_character (c : Cursor) (w : List Char) (text : String) :
    Fault.character text (.onLine c.line (c.offset + w.length)) source =
      ⟨.character text, c.stretch w.length 1, source⟩ := by
  simp [Fault.character, Cursor.stretch, Position.onLine, Position.succ]

theorem alike_numeral (I : Insertion source source') (ds : List Char) (s : Span) :
    I.likeness.Alike (Cursor.numeral source ds s) (Cursor.numeral source' ds (I.span false s)) := by
  rw [Cursor.numeral, Cursor.numeral]
  cases Text.Numeral.ofDigits ds with
  | value n => exact .token rfl
  | tooLarge | overlong => exact .failure rfl

/-- At the end, white space is put into white space. -/
theorem exists_blanks (h : I.Along c d) (hw : Blanks c.rest) :
    Blanks d.rest ∧ I.startAt (c.offset + c.rest.length) = d.offset + d.rest.length ∧
      I.Along (c.onto c.rest.length []) (d.onto d.rest.length []) := by
  cases h with
  | behind hn hn' =>
      exact ⟨hw, (startAt_of_le (by simp only; omega)).trans (by simp only; omega),
        .behind (by simp only; omega) (by simp only; omega)⟩
  | before pre mid hfront hn hc hd =>
      subst hc hd
      have hfrontlen := congrArg List.length hfront
      simp only [List.length_append] at hfrontlen ⊢
      obtain ⟨hmid, hback⟩ := blanks_append.1 hw
      refine ⟨blanks_append.2 ⟨hmid, blanks_append.2 ⟨I.blanks, hback⟩⟩, ?_, .behind ?_ ?_⟩
      · exact (startAt_of_le (by omega)).trans (by omega)
      · simp only
        omega
      · simp only
        omega

/-- What the two cursors find is alike, and takes them to the same place. -/
theorem Along.next (h : I.Along c d) :
    I.likeness.Alike c.next.1 d.next.1 ∧ I.Along c.next.2 d.next.2 := by
  obtain ⟨hsource, hsource'⟩ := source_eq_of_along h
  have hline := (line_eq h).2
  have hstep := c.step_next
  generalize c.next.1 = item at hstep
  generalize c.next.2 = c' at hstep
  cases hstep with
  | finish hw hrest =>
      subst hrest
      obtain ⟨hw', hstart, halong⟩ := exists_blanks h hw
      rw [(Cursor.Step.finish hw' rfl).next_eq]
      refine ⟨.token ?_, halong⟩
      show _ = I.token _
      simp [token, Token.endAt, span, Position.onLine, hstart, hline]
  | numeral hw hds hend hrest =>
      obtain ⟨w', rest', hm⟩ := exists_meets h hw (.inl hds) hrest
      rw [(Cursor.Step.numeral hm.blanks hds (hm.digits hend) hm.rest_eq).next_eq, hsource,
        hsource', ← hm.span_eq h]
      exact ⟨I.alike_numeral _ _, hm.after_word⟩
  | @symbol w rest ch k hw hk hrest =>
      obtain ⟨w', rest', hm⟩ := exists_meets h hw (.inr ⟨ch, rfl⟩)
        (show c.rest = w ++ ([ch] ++ rest) from hrest)
      have hspan : I.span false (c.stretch w.length 1) = d.stretch w'.length 1 := hm.span_eq h
      have hend : (k == .endOfInput) = false := by
        simpa using (Lexeme.symbol hk).kind_ne_endOfInput
      rw [(Cursor.Step.symbol hm.blanks hk hm.rest_eq).next_eq, ← hspan]
      refine ⟨.token ?_, hm.after_word⟩
      show _ = I.token _
      rw [token]
      simp only [hend]
  | @stray w rest ch hw hb hd hk hrest =>
      obtain ⟨w', rest', hm⟩ := exists_meets h hw (.inr ⟨ch, rfl⟩)
        (show c.rest = w ++ ([ch] ++ rest) from hrest)
      have hspan : I.span false (c.stretch w.length 1) = d.stretch w'.length 1 := hm.span_eq h
      rw [(Cursor.Step.stray hm.blanks hb hd hk hm.rest_eq).next_eq, fault_character,
        fault_character, ← hspan, hsource']
      exact ⟨.failure rfl, hm.at_word⟩

theorem along_ofSource (I : Insertion source source') :
    I.Along (.ofSource source I.line) (.ofSource source' I.line') :=
  .before [] I.front rfl rfl I.source_eq I.source'_eq

/-! ## What the other text comes to -/

/-- The other text has the same value, or fails in the same way. -/
theorem evaluate_eq [Host] (I : Insertion source source') (allowTrailing : Bool) :
    evaluate source' I.line' allowTrailing =
      (evaluate source I.line allowTrailing).mapError I.failure := by
  have hsame := Cursor.evaluate_same I.likeness (fun _ _ => Along.next) I.along_ofSource
    allowTrailing
  generalize evaluate source I.line allowTrailing = x at hsame ⊢
  generalize evaluate source' I.line' allowTrailing = x' at hsame ⊢
  cases hsame with
  | value v => rfl
  | failure h => rw [h]; rfl

theorem Along.next_error {e : Failure} (h : I.Along c d) (hc : c.next.1 = .error e) :
    d.next.1 = .error (I.failure e) := by
  have halike := h.next.1
  rw [hc] at halike
  generalize d.next.1 = item at halike ⊢
  cases halike with
  | failure he => exact congrArg Except.error he

theorem Along.next_ok {t : Token} (h : I.Along c d) (hc : c.next.1 = .ok t) :
    d.next.1 = .ok (I.token t) := by
  have halike := h.next.1
  rw [hc] at halike
  generalize d.next.1 = item at halike ⊢
  cases halike with
  | token ht => exact congrArg Except.ok ht

/-- The same tokens are listed, and the same failure. -/
theorem Along.listing (h : I.Along c d) :
    d.listing = (c.listing.1.map I.token, c.listing.2.map I.failure) := by
  induction c using Cursor.listing_induction generalizing d with
  | error c e hc =>
      rw [Cursor.listing_of_error hc, Cursor.listing_of_error (h.next_error hc)]
      rfl
  | endOfInput c t hc hk =>
      rw [Cursor.listing_of_endOfInput hc hk, Cursor.listing_of_endOfInput (h.next_ok hc) hk]
      rfl
  | token c t hc hk ih =>
      rw [Cursor.listing_of_token hc hk, Cursor.listing_of_token (h.next_ok hc) hk, ih h.next.2]
      rfl

theorem listing_eq (I : Insertion source source') :
    (Cursor.ofSource source' I.line').listing =
      ((Cursor.ofSource source I.line).listing.1.map I.token,
        (Cursor.ofSource source I.line).listing.2.map I.failure) :=
  I.along_ofSource.listing

@[simp]
theorem isEvaluation_cause (I : Insertion source source') (x : Cause) :
    (I.cause x).isEvaluation = x.isEvaluation := by
  cases x <;> rfl

@[simp]
theorem atEnd_cause (I : Insertion source source') (x : Cause) :
    (I.cause x).atEnd = x.atEnd := by
  cases x <;> rfl

@[simp]
theorem title_fault (I : Insertion source source') (f : Fault) : (I.fault f).title = f.title := by
  obtain ⟨x, s, text⟩ := f
  cases x <;> rfl

/-- White space is put behind the whole text. -/
def atEnd {space : List Char} (hspace : Blanks space)
    (h : source'.toList = source.toList ++ space) (line line' : Int) :
    Insertion source source' where
  line := line
  line' := line'
  front := source.toList
  space := space
  back := []
  blanks := hspace
  source_eq := (List.append_nil _).symm
  source'_eq := by rw [h, List.append_nil]
  apart _ _ _ := startsWithout_nil

/-- The text is left as it is, and only gets the number of another line. -/
def renumber (source : String) (line line' : Int) : Insertion source source :=
  atEnd (show Blanks [] by simp [Blanks]) (List.append_nil _).symm line line'

/-- The listing of the other text breaks off with the same failure, or not at all. -/
theorem table_eq (I : Insertion source source') :
    (Token.table source' I.line').2 = (Token.table source I.line).2.map I.failure :=
  congrArg Prod.snd I.listing_eq

end Insertion

end Abacus

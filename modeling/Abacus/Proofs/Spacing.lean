import Abacus.Proofs.Marks

/-!
# White space between tokens

White space can be put into a text at every place but one: between two digits, where it would make
two numerals of one. Everywhere else the text comes to the same, and the same tokens are listed;
only what lies behind the place has moved, by as many characters as were put in.

`Insertion` has the argument, in terms of the word that each position belongs to. Here the outcome
is put in terms of the positions alone. The two agree because the stretches that tokens and faults
point at are pieces of the text, and the only ones without a character are those where it ends.
-/

namespace Abacus

/-- The place `n` characters further on in the same line. -/
def Position.advance (n : Nat) (p : Position) : Position :=
  ⟨p.line, p.column + n, p.offset + n⟩

/-- Where a stretch is found after `n` characters have been put in at the offset `i`. It begins
behind them if it began there, and it ends before them if it ended there, unless it was empty. -/
def Span.spread (i n : Nat) (s : Span) : Span :=
  ⟨if i ≤ s.start.offset then s.start.advance n else s.start,
    if i < s.stop.offset ∨ (i = s.stop.offset ∧ s.start = s.stop) then s.stop.advance n
    else s.stop⟩

/-- The same token after that. -/
def Token.spread (i n : Nat) (t : Token) : Token :=
  { t with span := t.span.spread i n }

/-- The same cause, with the token that was found. -/
def Cause.spread (i n : Nat) : Cause → Cause
  | .mismatch expected found => .mismatch expected (found.spread i n)
  | .nesting found => .nesting (found.spread i n)
  | x => x

/-- The same fault, in the text that has come of it. -/
def Fault.spread (source' : String) (i n : Nat) (f : Fault) : Fault :=
  ⟨f.cause.spread i n, f.span.spread i n, source'⟩

/-- The same failure. -/
def Failure.spread (source' : String) (i n : Nat) : Failure → Failure
  | .fault f => .fault (f.spread source' i n)
  | .overlong digits => .overlong digits

/-- The text with `w` put in at the offset `i`. -/
def putIn (source : String) (i : Nat) (w : List Char) : String :=
  String.ofList (source.toList.take i ++ (w ++ source.toList.drop i))

/-- The place before the offset `i` is not between two digits. -/
def Parted (source : String) (i : Nat) : Prop :=
  ∀ ch ∈ (source.toList.take i).getLast?, ch.isDigit = true →
    ∀ ch' ∈ source.toList[i]?, ch'.isDigit = false

variable {source source' : String} {line : Int} {i n : Nat} {w : List Char} {c : Cursor} {t : Token}
  {f : Fault} {e : Failure} {span : Span} {atEnd : Bool}

/-- A cause says the same as before, in words. -/
theorem Cause.words_spread (i n : Nat) (x : Cause) :
    (x.spread i n).heading = x.heading ∧ (x.spread i n).message = x.message := by
  cases x <;> exact ⟨rfl, rfl⟩

theorem advance_onLine (n : Nat) (line : Int) (i : Nat) :
    (Position.onLine line i).advance n = .onLine line (i + n) := by
  simp [Position.advance, Position.onLine, add_right_comm]

theorem onLine_inj {j k : Nat} : Position.onLine line j = .onLine line k ↔ j = k :=
  ⟨congrArg Position.offset, congrArg _⟩

/-- A stretch of a line is spread by its offsets. -/
theorem Span.spread_onLine (i n : Nat) (line : Int) (j k : Nat) :
    Span.spread i n ⟨.onLine line j, .onLine line k⟩ =
      ⟨.onLine line (if i ≤ j then j + n else j),
        .onLine line (if i < k ∨ (i = k ∧ j = k) then k + n else k)⟩ := by
  rw [Span.spread]
  simp only [advance_onLine, onLine_inj]
  congr 1
  · exact (apply_ite (Position.onLine line) _ _ _).symm
  · exact (apply_ite (Position.onLine line) _ _ _).symm

namespace Insertion

theorem stop_eq_spread (I : Insertion source source') {j k : Nat} (h : atEnd = true ↔ j = k) :
    (if atEnd then I.startAt k else I.stopAt k) =
      if I.front.length < k ∨ (I.front.length = k ∧ j = k) then k + I.space.length else k := by
  cases atEnd with
  | true =>
      have hor : I.front.length ≤ k ↔ I.front.length < k ∨ (I.front.length = k ∧ j = k) := by
        have hjk : j = k := h.1 rfl
        omega
      rw [if_pos rfl, startAt]
      exact if_congr hor rfl rfl
  | false =>
      have hne : j ≠ k := fun hjk => Bool.false_ne_true (h.2 hjk)
      have hor : I.front.length < k ↔ I.front.length < k ∨ (I.front.length = k ∧ j = k) := by
        omega
      rw [if_neg Bool.false_ne_true, stopAt]
      exact if_congr hor rfl rfl

/-- A piece of the text, empty only where the text ends, is found where its positions say. -/
theorem span_eq_spread (I : Insertion source source') (hline : I.line' = line)
    (hpiece : ∃ s mid rest : List Char, source.toList = s ++ (mid ++ rest) ∧
      span = ⟨.onLine line s.length, .onLine line (s.length + mid.length)⟩ ∧
      (mid = [] → rest = []))
    (hbegins : Begins source line span.start atEnd) :
    I.span atEnd span = span.spread I.front.length I.space.length := by
  obtain ⟨s, mid, rest, hsource, rfl, hnil⟩ := hpiece
  have hlen := congrArg List.length hsource
  simp only [List.length_append] at hlen
  have hrest : mid.length = 0 → rest.length = 0 := fun hzero =>
    congrArg List.length (hnil (List.length_eq_zero_iff.1 hzero))
  have hempty : atEnd = true ↔ s.length = s.length + mid.length := by
    cases atEnd with
    | true =>
        have hout : s.length = source.toList.length := hbegins.outside rfl
        exact iff_of_true rfl (by omega)
    | false =>
        have hin : s.length < source.toList.length := hbegins.inside rfl
        exact iff_of_false Bool.false_ne_true (by omega)
  rw [Span.spread_onLine, ← I.stop_eq_spread hempty, Insertion.span, hline]
  rfl

theorem token_eq_spread (I : Insertion source source') (hline : I.line' = line)
    (hc : c.Cleared source line) (ht : c.next.1 = .ok t) :
    I.token t = t.spread I.front.length I.space.length := by
  have hopen := (openings_next hc).1
  rw [ht] at hopen
  have hbegins : Begins source line t.span.start (t.kind == .endOfInput) := hopen
  obtain ⟨hstretch, -⟩ := hc.stretch_of_next ht
  have hpiece : ∃ s mid rest : List Char, source.toList = s ++ (mid ++ rest) ∧
      t.span = ⟨.onLine line s.length, .onLine line (s.length + mid.length)⟩ ∧
      (mid = [] → rest = []) := by
    generalize t.span = span at hstretch
    cases hstretch with
    | @intro s mid rest hsource _ _ hnil => exact ⟨s, mid, rest, hsource, rfl, hnil⟩
  rw [Insertion.token, Token.spread, I.span_eq_spread hline hpiece hbegins]

/-- Tokens that are found where their positions say, and causes with such tokens. -/
def spreading (I : Insertion source source') : Inheritance source where
  token t := I.token t = t.spread I.front.length I.space.length
  failure e := ∀ f, e = .fault f → I.cause f.cause = f.cause.spread I.front.length I.space.length
  mismatch _ h f hf := by
    cases hf
    exact congrArg _ h
  nesting h f hf := by
    cases hf
    exact congrArg _ h
  operation z _ _ _ _ f hf := by
    cases hf
    cases z <;> rfl

theorem spreading_next (I : Insertion source source') (hline : I.line' = line)
    (hc : c.Cleared source line) : I.spreading.item c.next.1 := by
  cases hitem : c.next.1 with
  | ok t => exact I.token_eq_spread hline hc hitem
  | error e =>
      rintro f rfl
      -- A cursor finds no token to blame.
      have hstep := c.step_next
      rw [hitem] at hstep
      generalize hfault : (.error (.fault f) : Item) = item at hstep
      generalize c.next.2 = c' at hstep
      cases hstep with
      | finish | symbol => cases hfault
      | stray =>
          cases hfault
          rfl
      | @numeral w ds rest hw hds hend hrest =>
          rw [Cursor.numeral] at hfault
          split at hfault <;> cases hfault
          rfl

theorem fault_eq_spread (I : Insertion source source') (hline : I.line' = line)
    (hmarks : Marks source line f) (hbegins : Begins source line f.span.start f.cause.atEnd)
    (hcause : I.cause f.cause = f.cause.spread I.front.length I.space.length) :
    I.fault f = f.spread source' I.front.length I.space.length := by
  obtain ⟨s, mid, rest, hsource, hspan, -, hnil⟩ := hmarks.exists_piece
  rw [Insertion.fault, Fault.spread, hcause,
    I.span_eq_spread hline ⟨s, mid, rest, hsource, hspan, hnil⟩ hbegins]

theorem failure_eq_spread_of_next (I : Insertion source source') (hline : I.line' = line)
    (hc : c.Cleared source line) (he : c.next.1 = .error e) :
    I.failure e = e.spread source' I.front.length I.space.length := by
  cases e with
  | overlong digits => rfl
  | fault f =>
      have hopen := (openings_next hc).1
      have hcause := I.spreading_next hline hc
      rw [he] at hopen hcause
      exact congrArg Failure.fault
        (I.fault_eq_spread hline (hc.marks_of_next he) (hopen f rfl) (hcause f rfl))

theorem failure_eq_spread_of_evaluate [Host] (I : Insertion source source') (hline : I.line' = line)
    {allowTrailing : Bool} (he : evaluate source line allowTrailing = .error e) :
    I.failure e = e.spread source' I.front.length I.space.length := by
  cases e with
  | overlong digits => rfl
  | fault f =>
      have hbegins := (openings source line).failure_of_evaluate Cursor.cleared_ofSource
        (fun _ => openings_next) he f rfl
      have hcause := I.spreading.failure_of_evaluate (R := fun c => c.Cleared source line)
        Cursor.cleared_ofSource (fun c hc => ⟨I.spreading_next hline hc, (openings_next hc).2⟩)
        he f rfl
      exact congrArg Failure.fault (I.fault_eq_spread hline (marks_of_evaluate he) hbegins hcause)

theorem map_listing_eq_spread (I : Insertion source source') (hline : I.line' = line)
    (hc : c.Cleared source line) :
    (c.listing.1.map I.token, c.listing.2.map I.failure) =
      (c.listing.1.map (.spread I.front.length I.space.length),
        c.listing.2.map (.spread source' I.front.length I.space.length)) := by
  induction c using Cursor.listing_induction with
  | error c e he =>
      rw [Cursor.listing_of_error he, Option.map_some, Option.map_some,
        I.failure_eq_spread_of_next hline hc he]
      rfl
  | endOfInput c t ht hk =>
      rw [Cursor.listing_of_endOfInput ht hk, List.map_singleton, List.map_singleton,
        I.token_eq_spread hline hc ht]
      rfl
  | token c t ht hk ih =>
      obtain ⟨htokens, hfailure⟩ := Prod.mk.inj (ih (openings_next hc).2)
      rw [Cursor.listing_of_token ht hk, List.map_cons, List.map_cons,
        I.token_eq_spread hline hc ht, htokens, hfailure]

/-- Where the line keeps its number, the other text comes to the same but for the positions. -/
theorem evaluate_eq_spread [Host] (I : Insertion source source') (hline : I.line = line)
    (hline' : I.line' = line) (allowTrailing : Bool) :
    evaluate source' line allowTrailing =
      (evaluate source line allowTrailing).mapError
        (.spread source' I.front.length I.space.length) := by
  have heq := I.evaluate_eq allowTrailing
  rw [hline, hline'] at heq
  rw [heq]
  cases he : evaluate source line allowTrailing with
  | ok v => rfl
  | error e => exact congrArg Except.error (I.failure_eq_spread_of_evaluate hline' he)

theorem listing_eq_spread (I : Insertion source source') (hline : I.line = line)
    (hline' : I.line' = line) :
    (Cursor.ofSource source' line).listing =
      ((Cursor.ofSource source line).listing.1.map (.spread I.front.length I.space.length),
        (Cursor.ofSource source line).listing.2.map
          (.spread source' I.front.length I.space.length)) := by
  have heq := I.listing_eq
  rw [hline, hline'] at heq
  rw [heq, I.map_listing_eq_spread hline' Cursor.cleared_ofSource]

theorem ofSource_eq_spread (I : Insertion source source') (hline : I.line = line)
    (hline' : I.line' = line) :
    Token.ofSource source' line =
      ((Token.ofSource source line).map (List.map (.spread I.front.length I.space.length))).mapError
        (.spread source' I.front.length I.space.length) := by
  rw [Token.ofSource, Token.ofSource, I.listing_eq_spread hline hline']
  generalize (Cursor.ofSource source line).listing = listing
  obtain ⟨tokens, failure⟩ := listing
  cases failure <;> rfl

/-- White space put in at the offset `i`, in a text that stays on its line. -/
def atOffset (hw : Blanks w) (hparted : Parted source i) (line : Int) :
    Insertion source (putIn source i w) where
  line := line
  line' := line
  front := source.toList.take i
  space := w
  back := source.toList.drop i
  blanks := hw
  source_eq := (List.take_append_drop i _).symm
  source'_eq := String.toList_ofList
  apart ch hch hd ch' hch' := hparted ch hch hd ch' (by rwa [← List.head?_drop])

end Insertion

/-- White space that is put into a text, anywhere but between two digits, changes nothing but
positions. The text has the same value; or it fails in the same way, for the same reason in the same
words, and only what lies behind the place has moved. And its tokens are listed as before, as far
as that goes: each with its kind, its value and its characters, and where it has moved to. -/
theorem evaluate_putIn [Host] (source : String) (line : Int) {i : Nat} {w : List Char}
    (hi : i ≤ source.toList.length) (hw : Blanks w) (hparted : Parted source i) :
    (∀ allowTrailing, evaluate (putIn source i w) line allowTrailing =
      (evaluate source line allowTrailing).mapError (.spread (putIn source i w) i w.length)) ∧
    (Cursor.ofSource (putIn source i w) line).listing =
      ((Cursor.ofSource source line).listing.1.map (.spread i w.length),
        (Cursor.ofSource source line).listing.2.map (.spread (putIn source i w) i w.length)) ∧
    Token.ofSource (putIn source i w) line =
      ((Token.ofSource source line).map (List.map (.spread i w.length))).mapError
        (.spread (putIn source i w) i w.length) ∧
    ∀ x : Cause, (x.spread i w.length).heading = x.heading ∧
      (x.spread i w.length).message = x.message := by
  have hfront : (Insertion.atOffset hw hparted line).front.length = i :=
    (List.length_take ..).trans (Nat.min_eq_left hi)
  have hevaluate := (Insertion.atOffset hw hparted line).evaluate_eq_spread rfl rfl
  have hlisting := (Insertion.atOffset hw hparted line).listing_eq_spread rfl rfl
  have hofSource := (Insertion.atOffset hw hparted line).ofSource_eq_spread rfl rfl
  rw [hfront] at hevaluate hlisting hofSource
  exact ⟨hevaluate, hlisting, hofSource, Cause.words_spread i w.length⟩

/-- A line feed and a wide blank before a divisor that is zero: what comes before them stays, and
the divisor moves. -/
theorem evaluate_putIn_divisor :
    putIn "12 /0 7" 4 ['\n', '\u3000'] = "12 /\n\u30000 7" ∧
    evaluate "12 /0 7" 1 true =
      .error (.fault ⟨.zeroDivisor, ⟨.onLine 1 4, .onLine 1 5⟩, "12 /0 7"⟩) ∧
    evaluate "12 /\n\u30000 7" 1 true =
      .error (.fault ⟨.zeroDivisor, ⟨.onLine 1 6, .onLine 1 7⟩, "12 /\n\u30000 7"⟩) := by
  have hput : putIn "12 /0 7" 4 ['\n', '\u3000'] = "12 /\n\u30000 7" := by decide +kernel
  have h : evaluate "12 /0 7" 1 true =
      .error (.fault ⟨.zeroDivisor, ⟨.onLine 1 4, .onLine 1 5⟩, "12 /0 7"⟩) := by decide +kernel
  have hblank : Blanks ['\n', '\u3000'] := by simp [Blanks, Text.isBlank]
  have hparted : Parted "12 /0 7" 4 := by
    have hlast : ("12 /0 7".toList.take 4).getLast? = some '/' := by decide +kernel
    intro ch hch hdigit
    rw [hlast] at hch
    cases hch
    cases hdigit
  refine ⟨hput, h, ?_⟩
  have hmoved := (evaluate_putIn "12 /0 7" 1 (by decide +kernel) hblank hparted).1 true
  rw [h, hput] at hmoved
  exact hmoved

end Abacus

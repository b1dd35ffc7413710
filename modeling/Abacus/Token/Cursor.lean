import Abacus.Text.Blank
import Abacus.Token.Stream

/-!
# Reading tokens from a text

A cursor stands before a character of a text and only ever moves forward. Reading a token skips the
white space before it. A character that belongs to no token stops the cursor for good: it is
reported again each time. A numeral that cannot be accepted is passed over and reported once.
-/

namespace Abacus

/-- A text, the number of the line it is, and what is left of it from some offset on. -/
structure Cursor where
  source : String
  line : Int
  offset : Nat
  rest : List Char
deriving DecidableEq

namespace Cursor

/-- The cursor before the first character. -/
def ofSource (source : String) (line : Int) : Cursor :=
  ⟨source, line, 0, source.toList⟩

/-- Where the cursor stands. -/
def position (c : Cursor) : Position :=
  .onLine c.line c.offset

/-- The character that the cursor stands before. -/
def current? (c : Cursor) : Option Char :=
  c.rest.head?

/-- Moves over all the characters from here on that satisfy `p`. -/
def skip (p : Char → Bool) (c : Cursor) : Cursor :=
  { c with offset := c.offset + (c.rest.takeWhile p).length, rest := c.rest.dropWhile p }

/-- Moves over the white space from here on. -/
def skipBlanks (c : Cursor) : Cursor :=
  c.skip Text.isBlank

/-- What a run of digits that stands in `span` is read as. -/
def numeral (source : String) (digits : List Char) (span : Span) : Item :=
  match Text.Numeral.ofDigits digits with
  | .value n => .ok ⟨.integer, some n, String.ofList digits, span⟩
  | .tooLarge => .error (.fault ⟨.numeral (String.ofList digits), span, source⟩)
  | .overlong n => .error (.overlong n)

/-- The item that begins with `ch`, the character before which `c` stands, and the cursor after it.
A character of no token keeps the cursor where it is. -/
def nextFrom (c : Cursor) (ch : Char) : Item × Cursor :=
  if ch.isDigit then
    let after := c.skip Char.isDigit
    (numeral c.source (c.rest.takeWhile Char.isDigit) ⟨c.position, after.position⟩, after)
  else
    match Token.Kind.ofSymbol? ch with
    | none => (.error (.fault (.character (String.singleton ch) c.position c.source)), c)
    | some kind =>
      let after := { c with offset := c.offset + 1, rest := c.rest.tail }
      (.ok ⟨kind, none, String.singleton ch, ⟨c.position, after.position⟩⟩, after)

/-- The next item of the text, and the cursor after it. -/
def next (c : Cursor) : Item × Cursor :=
  match c.skipBlanks.rest with
  | [] => (.ok (.endAt c.skipBlanks.position), c.skipBlanks)
  | ch :: _ => c.skipBlanks.nextFrom ch

theorem length_rest_skip_le (p : Char → Bool) (c : Cursor) :
    (c.skip p).rest.length ≤ c.rest.length :=
  (List.dropWhile_suffix p).length_le

theorem rest_nextFrom_lt {c : Cursor} {ch : Char} {rest : List Char} (hc : c.rest = ch :: rest)
    (h : (c.nextFrom ch).1.isLast = false) :
    (c.nextFrom ch).2.rest.length < c.rest.length := by
  unfold nextFrom at h ⊢
  split at h
  · next hd =>
    have := (List.dropWhile_suffix (l := rest) Char.isDigit).length_le
    simp only [hd, ↓reduceIte, skip, hc, List.dropWhile_cons, List.length_cons]
    omega
  · next hd =>
    split at h
    · simp [Item.isLast, Fault.character] at h
    · simp [hd, hc]

/-- Every item but the last moves the cursor. -/
theorem rest_next_lt {c : Cursor} (h : c.next.1.isLast = false) :
    c.next.2.rest.length < c.rest.length := by
  have hle : c.skipBlanks.rest.length ≤ c.rest.length := length_rest_skip_le ..
  unfold next at h ⊢
  split at h
  · simp [Item.isLast, Token.endAt] at h
  · next ch rest hc =>
    have := rest_nextFrom_lt hc h
    exact Nat.lt_of_lt_of_le this hle

/-- The items of a text from the cursor on. -/
def toStream (c : Cursor) : TokenStream :=
  if _h : c.next.1.isLast = true then ⟨[], c.next.1⟩
  else
    let later := c.next.2.toStream
    ⟨c.next.1 :: later.upcoming, later.last⟩
termination_by c.rest.length
decreasing_by exact rest_next_lt (Bool.eq_false_iff.2 _h)

/-- The tokens from the cursor on: all of them, with the end of the text as the last, or those
before the first failure. -/
def listing (c : Cursor) : List Token × Option Failure :=
  match c.next.1 with
  | .error e => ([], some e)
  | .ok token =>
    if _h : c.next.1.isLast = true then ([token], none)
    else
      let later := c.next.2.listing
      (token :: later.1, later.2)
termination_by c.rest.length
decreasing_by all_goals exact rest_next_lt (Bool.eq_false_iff.2 _h)

end Cursor

end Abacus

/-!
# Lines

A line ends at a line feed, at a carriage return, or at the pair of the two; no other character
ends a line. `lines` cuts a whole text that way. A stream is read otherwise: its line breaks are
first all turned into line feeds (`normalizeBreaks`), and each line keeps the line feed that ends
it (`feedLines`). In both readings a break at the very end starts no further line.
-/

namespace Abacus.Text

/-- The lines of a text without their breaks. -/
def splitLines : List Char → List (List Char)
  | [] => []
  | '\r' :: '\n' :: rest => [] :: splitLines rest
  | '\r' :: rest => [] :: splitLines rest
  | '\n' :: rest => [] :: splitLines rest
  | c :: rest =>
    match splitLines rest with
    | [] => [[c]]
    | line :: more => (c :: line) :: more

/-- Every line break becomes a line feed. -/
def normalizeBreaks : List Char → List Char
  | [] => []
  | '\r' :: '\n' :: rest => '\n' :: normalizeBreaks rest
  | '\r' :: rest => '\n' :: normalizeBreaks rest
  | c :: rest => c :: normalizeBreaks rest

/-- The text cut after each line feed; the last piece may lack one. -/
def cutAfterFeeds : List Char → List (List Char)
  | [] => []
  | '\n' :: rest => ['\n'] :: cutAfterFeeds rest
  | c :: rest =>
    match cutAfterFeeds rest with
    | [] => [[c]]
    | line :: more => (c :: line) :: more

/-- The lines of a text without their breaks. -/
def lines (text : String) : List String :=
  (splitLines text.toList).map String.ofList

/-- The lines of a stream, each with the line feed that ends it. -/
def feedLines (text : String) : List String :=
  (cutAfterFeeds text.toList).map String.ofList

example : splitLines "a\r\nb\rc\nd".toList = ["a".toList, "b".toList, "c".toList, "d".toList] := by
  decide

example : splitLines "a\n\n".toList = ["a".toList, []] := by decide

theorem flatten_cutAfterFeeds (text : List Char) : (cutAfterFeeds text).flatten = text := by
  fun_induction cutAfterFeeds text with
  | case1 => rfl
  | case2 rest ih => simp [ih]
  | case3 c rest _ h ih => rw [h] at ih; simp_all
  | case4 c rest _ line more h ih => rw [h] at ih; simp_all

end Abacus.Text

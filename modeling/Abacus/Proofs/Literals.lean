import Abacus.Proofs.Lexing
import Abacus.Proofs.Numerals

/-!
# What a run of digits is read as

Two limits meet in a numeral. One is on its value, and the other on its digits, of which the leading
zeros count too, although they add nothing. A test on the significant digits stands before both, so
that most numerals that are too large are found out without their value. Here the three are put
together. A cursor before some digits reads the token of their value exactly if the value fits and
the digits are not too many; it blames the digits as too large exactly if they are, and their value
was either worked out or not needed; and else there are too many of them. So the test on the
significant digits decides nothing that the value would not have decided. In all three cases the
cursor goes on behind the last digit.
-/

namespace Abacus

open Text (decimalValue)

namespace Cursor

variable {c : Cursor} {w ds rest : List Char}

/-- The ways to read a run of digits, at every length and with every number of leading zeros. -/
theorem next_of_digits (hw : Blanks w) (hds : Digits ds) (hend : StartsWithout Char.isDigit rest)
    (hrest : c.rest = w ++ (ds ++ rest)) :
    let significant := (ds.dropWhile (· == '0')).length
    let span := c.stretch w.length ds.length
    (∀ t, c.next.1 = .ok t ↔
      t = ⟨.integer, some (decimalValue ds), String.ofList ds, span⟩ ∧
        decimalValue ds ≤ 2 ^ 63 - 1 ∧ ds.length ≤ 4300) ∧
    (∀ f, c.next.1 = .error (.fault f) ↔
      f = ⟨.numeral (String.ofList ds), span, c.source⟩ ∧
        2 ^ 63 - 1 < decimalValue ds ∧ (19 < significant ∨ ds.length ≤ 4300)) ∧
    (∀ n, c.next.1 = .error (.overlong n) ↔
      n = ds.length ∧ significant ≤ 19 ∧ 4300 < ds.length) ∧
    (19 < significant → 2 ^ 63 - 1 < decimalValue ds) ∧
    c.next.2 = c.onto (w.length + ds.length) rest := by
  intro significant span
  have hsig : 19 < significant → 2 ^ 63 ≤ decimalValue ds :=
    Text.le_decimalValue_of_significant hds.2
  have hnext : c.next = (numeral c.source ds span, c.onto (w.length + ds.length) rest) :=
    (Step.numeral hw hds hend hrest).next_eq
  rw [hnext, numeral]
  rcases Text.ofDigits_cases hds.2 with
    ⟨hread, hfit, hlen⟩ | ⟨hread, hlarge, hwhy⟩ | ⟨hread, hfew, hlong⟩
  · simp only [Text.maxDigits] at hlen
    rw [hread]
    refine ⟨fun t => ⟨fun h => ?_, fun h => by rw [h.1]⟩,
      fun f => iff_of_false (fun h => by cases h) (fun h => by omega),
      fun n => iff_of_false (fun h => by cases h) (fun h => by omega), fun h => by omega, rfl⟩
    cases h
    exact ⟨rfl, by omega, hlen⟩
  · simp only [Text.maxSignificant, Text.maxDigits] at hwhy
    rw [hread]
    refine ⟨fun t => iff_of_false (fun h => by cases h) (fun h => by omega),
      fun f => ⟨fun h => ?_, fun h => by rw [h.1]⟩,
      fun n => iff_of_false (fun h => by cases h) (fun h => by omega), fun _ => by omega, rfl⟩
    cases h
    exact ⟨rfl, by omega, hwhy⟩
  · simp only [Text.maxSignificant, Text.maxDigits] at hfew hlong
    rw [hread]
    refine ⟨fun t => iff_of_false (fun h => by cases h) (fun h => by omega),
      fun f => iff_of_false (fun h => by cases h) (fun h => by omega),
      fun n => ⟨fun h => ?_, fun h => by rw [h.1]⟩, fun h => by omega, rfl⟩
    cases h
    exact ⟨rfl, hfew, hlong⟩

/-- One more than the greatest value, behind three zeros: nineteen digits count, as many as can, and
the value has to tell. -/
theorem next_of_digits_zeros :
    let c := Cursor.ofSource " 0009223372036854775808)" 7
    let ds := "0009223372036854775808".toList
    Blanks [' '] ∧ Digits ds ∧ StartsWithout Char.isDigit [')'] ∧
      c.rest = [' '] ++ (ds ++ [')']) ∧ (ds.dropWhile (· == '0')).length = 19 ∧
      c.next.1 = .error (.fault ⟨.numeral "0009223372036854775808",
        ⟨.onLine 7 1, .onLine 7 23⟩, " 0009223372036854775808)"⟩) ∧
      c.next.2.offset = 23 := by
  intro c ds
  have hw : Blanks [' '] := by simp [Blanks, Text.isBlank]
  have hds : Digits ds := ⟨by decide +kernel, List.all_eq_true.1 (by decide +kernel)⟩
  have hend : StartsWithout Char.isDigit [')'] := startsWithout_cons (by decide)
  have hrest : c.rest = [' '] ++ (ds ++ [')']) := by decide +kernel
  have hsig : (ds.dropWhile (· == '0')).length = 19 := by decide +kernel
  obtain ⟨-, hlarge, -, -, hafter⟩ := next_of_digits hw hds hend hrest
  refine ⟨hw, hds, hend, hrest, hsig, (hlarge _).2 ⟨?_, ?_⟩, ?_⟩
  · decide +kernel
  · decide +kernel
  · rw [hafter]
    decide +kernel

end Cursor

end Abacus

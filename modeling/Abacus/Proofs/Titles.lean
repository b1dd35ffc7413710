import Mathlib.Order.Basic
import Mathlib.Tactic.IntervalCases
import Abacus.Fault.Snippet

/-!
# Titles are one line

The title of a fault is followed by more lines when it is shown in a terminal, and stands alone in
an editor. So it must not have a line break in it, whatever the line is that it reports on. Most of
a title is fixed. What comes from the line is quoted, which escapes a line break, or is the text of
a token, which has none.
-/

namespace Abacus

/-- There is no line feed in the text. -/
def OneLine (s : String) : Prop :=
  '\n' ∉ s.toList

instance (s : String) : Decidable (OneLine s) := inferInstanceAs (Decidable (_ ∉ _))

variable {s t : String} {n : Nat} {c mark : Char}

theorem oneLine_append : OneLine (s ++ t) ↔ OneLine s ∧ OneLine t := by
  simp [OneLine, String.toList_append]

theorem not_digit_feed : Char.isDigit '\n' = false := by
  decide

theorem oneLine_ofDigits {ds : List Char} (h : ∀ ch ∈ ds, ch.isDigit = true) :
    OneLine (String.ofList ds) := by
  intro hmem
  rw [String.toList_ofList] at hmem
  have hd := h _ hmem
  rw [not_digit_feed] at hd
  cases hd

theorem isDigit_of_mem_repr (h : c ∈ n.repr.toList) : c.isDigit = true := by
  rw [Nat.repr_eq_ofList_toDigits, String.toList_ofList] at h
  exact Nat.isDigit_of_mem_toDigits (by omega) (by omega) h

theorem isDigit_or_minus_of_mem_toString {x : Int} (h : c ∈ (toString x).toList) :
    c.isDigit = true ∨ c = '-' := by
  cases x with
  | ofNat n => exact .inl (isDigit_of_mem_repr h)
  | negSucc n =>
      have hminus : c ∈ ("-" ++ (n + 1).repr).toList := h
      rw [String.toList_append, List.mem_append] at hminus
      rcases hminus with hminus | hdigit
      · exact .inr (by simpa using hminus)
      · exact .inl (isDigit_of_mem_repr hdigit)

theorem oneLine_toString (x : Int) : OneLine (toString x) := by
  intro h
  rcases isDigit_or_minus_of_mem_toString h with h | h <;> cases h

/-! ## Quoted text -/

theorem digitChar_ne_feed (n : Nat) : Nat.digitChar n ≠ '\n' := by
  rcases Nat.lt_or_ge n 16 with h | h
  · interval_cases n <;> decide
  · have hstar : Nat.digitChar n = '*' := by
      rw [Nat.digitChar]
      iterate 16 rw [if_neg (by omega)]
    rw [hstar]
    decide

theorem not_mem_hexadecimal (width n : Nat) : '\n' ∉ Text.hexadecimal width n := by
  have hdigits : '\n' ∉ Nat.toDigits 16 n := by
    induction n using Nat.strongRecOn with
    | _ n ih =>
        rw [Nat.toDigits_eq_if (by omega)]
        split
        · simp [(digitChar_ne_feed n).symm]
        · simp [ih (n / 16) (by omega), (digitChar_ne_feed (n % 16)).symm]
  simp [Text.hexadecimal, hdigits]

theorem not_mem_escapeCodePoint (n : Nat) : '\n' ∉ Text.escapeCodePoint n := by
  rw [Text.escapeCodePoint]
  split
  · simp [not_mem_hexadecimal]
  · split <;> simp [not_mem_hexadecimal]

theorem not_mem_escape (hmark : mark ≠ '\n') (c : Char) : '\n' ∉ Text.escape mark c := by
  unfold Text.escape
  split
  · next h =>
      intro hmem
      simp at hmem
      subst hmem
      simp at h
      exact hmark h.symm
  · split
    · decide
    · split
      · decide
      · split
        · decide
        · split
          · next hfeed _ _ _ =>
              rw [List.mem_singleton]
              rintro rfl
              exact hfeed rfl
          · exact not_mem_escapeCodePoint _

theorem quoteMark_ne_feed (text : List Char) : Text.quoteMark text ≠ '\n' := by
  rw [Text.quoteMark]
  split <;> decide

theorem oneLine_quoted (text : String) : OneLine (Text.quoted text) := by
  have hmark := quoteMark_ne_feed text.toList
  simp [OneLine, Text.quoted, not_mem_escape hmark, hmark.symm]

/-! ## Messages -/

theorem Expectation.oneLine_name (x : Expectation) : OneLine x.name := by
  cases x with
  | operand => decide
  | token k => cases k <;> decide

theorem Token.oneLine_numberText (t : Token) : OneLine t.numberText := by
  rw [numberText]
  cases t.value with
  | none => decide
  | some n => exact oneLine_toString n

theorem Token.oneLine_describe {t : Token} (h : OneLine t.raw) : OneLine t.describe := by
  rw [describe]
  split
  · exact oneLine_append.2 ⟨by decide, t.oneLine_numberText⟩
  · decide
  · split
    · exact (Expectation.token t.kind).oneLine_name
    · exact oneLine_append.2 ⟨oneLine_append.2 ⟨by decide, h⟩, by decide⟩

theorem Cause.oneLine_heading (x : Cause) : OneLine x.heading := by
  cases x <;> simp [heading, OneLine]

theorem Cause.oneLine_doesNotFit (h : OneLine s) : OneLine (doesNotFit s) :=
  oneLine_append.2 ⟨h, by decide⟩

/-- The texts from a line that the cause holds are one line. -/
def Cause.Plain : Cause → Prop
  | .mismatch _ found => OneLine found.raw
  | .numeral digits => OneLine digits
  | .form message _ _ | .evaluation message | .general message => OneLine message
  | .character _ | .nesting _ | .zeroDivisor | .result _ => True

theorem Cause.Plain.oneLine_message {x : Cause} (h : x.Plain) : OneLine x.message := by
  cases x with
  | character text => exact oneLine_append.2 ⟨by decide, oneLine_quoted text⟩
  | mismatch expected found =>
      exact oneLine_append.2 ⟨oneLine_append.2 ⟨oneLine_append.2 ⟨by decide, expected.oneLine_name⟩,
        by decide⟩, Token.oneLine_describe h⟩
  | nesting => exact (by decide : OneLine "expression nested too deeply")
  | form => exact h
  | zeroDivisor => exact (by decide : OneLine "right operand of '/' is zero")
  | numeral => exact oneLine_doesNotFit h
  | result x => exact oneLine_doesNotFit (oneLine_toString x)
  | evaluation => exact h
  | general => exact h

theorem Fault.oneLine_title {f : Fault} (h : f.cause.Plain) : OneLine f.title :=
  oneLine_append.2 ⟨oneLine_append.2 ⟨f.cause.oneLine_heading, by decide⟩, h.oneLine_message⟩

/-- A snippet begins with the title. -/
theorem Fault.exists_snippet_eq (f : Fault) (filename : String) :
    ∃ more, f.snippet filename = f.title ++ "\n" ++ more := by
  rw [snippet]
  simp only [String.append_assoc]
  exact ⟨_, rfl⟩

end Abacus

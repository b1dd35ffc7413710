import Abacus.Proofs.Layout
import Abacus.Proofs.Recognition

/-!
# The form of a text

Whether a line is well-formed has nothing to do with values, so the reader is the wrong one to ask:
it works values out on the way and gives up at the first that does not fit. Here the form of a text
is read off its characters alone. `kindsOf` is the list of the kinds of its words, where a numeral
counts as an integer however many digits it has, and there is no list if some character belongs to
no word.

A cursor that passes over tokens passes over their kinds. That is all that links the two.
-/

namespace Abacus

open Reader

/-- The kinds of the words in a text. Inside a numeral, a digit begins no new word. -/
def wordKinds (inNumeral : Bool) : List Char → Option (List Token.Kind)
  | [] => some []
  | ch :: rest =>
    if ch.isDigit then
      (wordKinds true rest).map fun ks => if inNumeral then ks else .integer :: ks
    else if Text.isBlank ch then wordKinds false rest
    else (Token.Kind.ofSymbol? ch).bind fun k => (wordKinds false rest).map (k :: ·)

/-- The kinds of the words in a whole text. -/
def kindsOf (text : List Char) : Option (List Token.Kind) :=
  wordKinds false text

/-- The text consists of words, and they make a sentence. -/
def WellFormed (source : String) : Prop :=
  ∃ ks ∈ kindsOf source.toList, Sentence (ones ks)

instance (source : String) : Decidable (WellFormed source) :=
  inferInstanceAs (Decidable (∃ ks ∈ kindsOf source.toList, Sentence (ones ks)))

/-- The words of the text keep within the limit on open parentheses. -/
def Shallow [Host] (source : String) : Prop :=
  ∀ ks ∈ kindsOf source.toList, Nested maxDepth (ones ks)

variable {ch : Char} {w ds rest front : List Char} {k : Token.Kind} {ks : List Token.Kind}
  {inNumeral : Bool} {source : String} {line : Int}

/-! ## Word by word -/

theorem wordKinds_blank (hb : Text.isBlank ch = true) :
    wordKinds inNumeral (ch :: rest) = kindsOf rest := by
  have hd := isDigit_eq_false_of_isBlank hb
  rw [wordKinds, if_neg (by simp [hd]), if_pos hb, kindsOf]

theorem wordKinds_blanks (hw : Blanks w) : wordKinds inNumeral w = some [] := by
  induction w generalizing inNumeral with
  | nil => rfl
  | cons ch w ih =>
      rw [wordKinds_blank (hw ch (by simp)), kindsOf]
      exact ih fun ch' hch => hw ch' (by simp [hch])

theorem kindsOf_blanks_append (hw : Blanks w) : kindsOf (w ++ rest) = kindsOf rest := by
  induction w with
  | nil => rfl
  | cons ch w ih =>
      rw [List.cons_append, kindsOf, wordKinds_blank (hw ch (by simp))]
      exact ih fun ch' hch => hw ch' (by simp [hch])

/-- White space at the end is no word. -/
theorem wordKinds_append_blanks (hw : Blanks w) :
    wordKinds inNumeral (front ++ w) = wordKinds inNumeral front := by
  induction front generalizing inNumeral with
  | nil =>
      rw [List.nil_append, wordKinds_blanks hw]
      rfl
  | cons ch front ih => rw [List.cons_append, wordKinds, wordKinds, ih, ih]

theorem wordKinds_of_startsWithout (h : StartsWithout Char.isDigit rest) :
    wordKinds inNumeral rest = kindsOf rest := by
  cases rest with
  | nil => rfl
  | cons ch rest =>
      have hd : ch.isDigit = false := h ch rfl
      have hneg : ¬ ch.isDigit = true := by simp [hd]
      rw [kindsOf, wordKinds, wordKinds, if_neg hneg, if_neg hneg]

theorem wordKinds_digits (hd : ∀ ch ∈ ds, ch.isDigit = true)
    (hend : StartsWithout Char.isDigit rest) : wordKinds true (ds ++ rest) = kindsOf rest := by
  induction ds with
  | nil => exact wordKinds_of_startsWithout hend
  | cons ch ds ih =>
      rw [List.cons_append, wordKinds, if_pos (hd ch (by simp)),
        ih fun ch' hch => hd ch' (by simp [hch])]
      simp

theorem kindsOf_numeral (hds : Digits ds) (hend : StartsWithout Char.isDigit rest) :
    kindsOf (ds ++ rest) = (kindsOf rest).map (.integer :: ·) := by
  obtain ⟨hne, hd⟩ := hds
  cases ds with
  | nil => exact absurd rfl hne
  | cons ch ds =>
      rw [List.cons_append, kindsOf, wordKinds, if_pos (hd ch (by simp)),
        wordKinds_digits (fun ch' hch => hd ch' (by simp [hch])) hend]
      rfl

theorem kindsOf_symbol (hk : Token.Kind.ofSymbol? ch = some k) :
    kindsOf (ch :: rest) = (kindsOf rest).map (k :: ·) := by
  rw [kindsOf, wordKinds, if_neg (by simp [symbol_not_digit hk]),
    if_neg (by simp [symbol_not_blank hk]), hk]
  rfl

/-- Wherever a character of no word stands, the text has no words. -/
theorem wordKinds_of_stray (hmem : ch ∈ rest) (hb : Text.isBlank ch = false)
    (hd : ch.isDigit = false) (hk : Token.Kind.ofSymbol? ch = none) :
    wordKinds inNumeral rest = none := by
  induction rest generalizing inNumeral with
  | nil => cases hmem
  | cons ch' rest ih =>
      rw [wordKinds]
      rcases List.mem_cons.1 hmem with rfl | hmem
      · rw [if_neg (by simp [hd]), if_neg (by simp [hb]), hk]
        rfl
      · rw [ih hmem, ih hmem]
        split
        · rfl
        · split
          · rfl
          · cases Token.Kind.ofSymbol? ch' <;> rfl

/-! ## Token by token -/

namespace Cursor

variable {c c' : Cursor} {t : Token} {ts : List Token} {f : Fault}

theorem Reads.kindsOf_eq (h : c.Reads t c') :
    kindsOf c.rest = (kindsOf c'.rest).map (t.kind :: ·) := by
  cases h with
  | @intro w raw rest k value hw hraw hend hrest =>
      rw [hrest, kindsOf_blanks_append hw]
      cases hraw with
      | integer hds hn => exact kindsOf_numeral hds (hend rfl)
      | symbol hk => exact kindsOf_symbol hk

theorem Passes.kindsOf_eq (h : Passes c ts c') :
    kindsOf c.rest = (kindsOf c'.rest).map (ts.map Token.kind ++ ·) := by
  induction h with
  | nil c => simp
  | cons ht _ ih =>
      rw [ht.kindsOf_eq, ih, Option.map_map]
      rfl

/-- What the cursor has passed over has the kinds of the tokens, also on its own. -/
theorem Passes.kindsOf_front (h : Passes c ts c') (hrest : c.rest = front ++ c'.rest) :
    kindsOf front = some (ts.map Token.kind) := by
  have hmoved := h.moved (d := ⟨c.source, c.line, c.offset, front⟩) (n := 0) hrest rfl rfl
  have hkinds := hmoved.kindsOf_eq
  rw [List.map_map] at hkinds
  rw [hkinds]
  simp [kindsOf, wordKinds, Token.moved, Function.comp_def]

/-- A failure to read a token is a numeral, or else the text has no words. -/
theorem kindsOf_of_next_error (h : c.next.1 = .error (.fault f)) :
    (f.cause.isEvaluation = false ∧ kindsOf c.rest = none) ∨
    ∃ w ds rest, Blanks w ∧ Digits ds ∧ StartsWithout Char.isDigit rest ∧
      c.rest = w ++ (ds ++ rest) ∧ f.cause = .numeral (String.ofList ds) ∧
      f.span = c.stretch w.length ds.length := by
  have hstep := c.step_next
  rw [h] at hstep
  generalize hitem : (.error (.fault f) : Item) = item at hstep
  generalize c.next.2 = c' at hstep
  cases hstep with
  | finish => cases hitem
  | symbol => cases hitem
  | stray hw hb hd hk hrest =>
      cases hitem
      exact .inl ⟨rfl, wordKinds_of_stray (by rw [hrest]; simp) hb hd hk⟩
  | @numeral w ds rest hw hds hend hrest =>
      rw [Cursor.numeral] at hitem
      split at hitem
      · cases hitem
      · cases hitem
        exact .inr ⟨w, ds, rest, hw, hds, hend, hrest, rfl, rfl⟩
      · cases hitem

theorem exists_passes_of_listing (c : Cursor) : ∀ e, c.listing.2 = some e →
    ∃ ts c', Passes c ts c' ∧ c'.next.1 = .error e := by
  induction c using listing_induction with
  | error c e h =>
      intro e' he
      rw [listing_of_error h, Option.some.injEq] at he
      exact ⟨[], c, .nil c, he ▸ h⟩
  | endOfInput c t h hk =>
      intro e he
      rw [listing_of_endOfInput h hk] at he
      cases he
  | token c t h hk ih =>
      intro e he
      rw [listing_of_token h hk] at he
      obtain ⟨ts, c', hts, hc'⟩ := ih e he
      exact ⟨t :: ts, c', .cons (reads_iff.2 ⟨Prod.ext h rfl, hk⟩) hts, hc'⟩

end Cursor

end Abacus

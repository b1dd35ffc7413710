import Abacus.Token.Cursor

/-!
# One step of a cursor

What a cursor reads next depends on what is left of the text and on nothing else. `Step` lists the
four things it can find after some white space: nothing, a run of digits, the character of a token,
or a character of no token. Each fixes the item read and the place where the cursor stands then, so
that a step can be used both ways: to see what was read, and to know what will be.
-/

namespace Abacus

/-- White space only. -/
def Blanks (w : List Char) : Prop :=
  ∀ ch ∈ w, Text.isBlank ch = true

/-- A numeral as it is written. -/
def Digits (ds : List Char) : Prop :=
  ds ≠ [] ∧ ∀ ch ∈ ds, ch.isDigit = true

/-- The characters do not begin with one of the given sort. -/
def StartsWithout (p : Char → Bool) (rest : List Char) : Prop :=
  ∀ ch ∈ rest.head?, p ch = false

section

variable {p : Char → Bool} {w rest : List Char} {ch : Char} {k : Token.Kind}

theorem blanks_append {v : List Char} : Blanks (v ++ w) ↔ Blanks v ∧ Blanks w :=
  List.forall_mem_append

theorem startsWithout_nil : StartsWithout p [] := by
  intro ch h
  cases h

theorem startsWithout_cons (h : p ch = false) : StartsWithout p (ch :: rest) := by
  intro ch' h'
  cases h'
  exact h

theorem StartsWithout.append (h : StartsWithout p (w ++ rest)) : StartsWithout p w := by
  intro ch hch
  refine h ch ?_
  cases w with
  | nil => cases hch
  | cons ch' w => exact hch

theorem takeWhile_append_of_startsWithout (hw : ∀ ch ∈ w, p ch = true)
    (hrest : StartsWithout p rest) : (w ++ rest).takeWhile p = w := by
  rw [List.takeWhile_append_of_pos hw]
  cases rest with
  | nil => simp
  | cons ch rest => simp [hrest ch rfl]

theorem dropWhile_append_of_startsWithout (hw : ∀ ch ∈ w, p ch = true)
    (hrest : StartsWithout p rest) : (w ++ rest).dropWhile p = rest := by
  rw [List.dropWhile_append_of_pos hw]
  cases rest with
  | nil => rfl
  | cons ch rest => simp [hrest ch rfl]

theorem startsWithout_dropWhile (p : Char → Bool) (l : List Char) :
    StartsWithout p (l.dropWhile p) := by
  intro ch h
  have hne : l.dropWhile p ≠ [] := by
    intro hnil
    rw [hnil] at h
    cases h
  have hhead := List.head_dropWhile_not (p := p) (l := l) hne
  rw [List.head?_eq_some_head hne] at h
  cases h
  simpa using hhead

theorem symbol_not_blank (h : Token.Kind.ofSymbol? ch = some k) : Text.isBlank ch = false := by
  rw [← Token.Kind.symbol?_eq_some_iff] at h
  cases k <;> cases h <;> decide

theorem symbol_not_digit (h : Token.Kind.ofSymbol? ch = some k) : ch.isDigit = false := by
  rw [← Token.Kind.symbol?_eq_some_iff] at h
  cases k <;> cases h <;> decide

theorem Digits.startsWithout_blank {ds : List Char} (h : Digits ds) :
    StartsWithout Text.isBlank (ds ++ rest) := by
  obtain ⟨hne, hd⟩ := h
  cases ds with
  | nil => exact absurd rfl hne
  | cons ch ds => exact startsWithout_cons (Text.isBlank_eq_false_of_isDigit (hd ch (by simp)))

theorem isDigit_eq_false_of_isBlank {ch : Char} (hb : Text.isBlank ch = true) :
    ch.isDigit = false := by
  cases hd : ch.isDigit with
  | false => rfl
  | true =>
      rw [Text.isBlank_eq_false_of_isDigit hd] at hb
      cases hb

/-- White space cannot make a numeral longer. -/
theorem Blanks.startsWithout_digit (hw : Blanks w) (hrest : StartsWithout Char.isDigit rest) :
    StartsWithout Char.isDigit (w ++ rest) := by
  cases w with
  | nil => exact hrest
  | cons ch w => exact startsWithout_cons (isDigit_eq_false_of_isBlank (hw ch (by simp)))

end

namespace Cursor

/-- The cursor `n` characters further on, where `rest` is left. -/
def onto (c : Cursor) (n : Nat) (rest : List Char) : Cursor :=
  ⟨c.source, c.line, c.offset + n, rest⟩

/-- The stretch of `len` characters that begins `n` characters after the cursor. -/
def stretch (c : Cursor) (n len : Nat) : Span :=
  ⟨.onLine c.line (c.offset + n), .onLine c.line (c.offset + n + len)⟩

/-- What a cursor can find. -/
inductive Step (c : Cursor) : Item → Cursor → Prop where
  | finish {w : List Char} (hw : Blanks w) (hrest : c.rest = w) :
      Step c (.ok (.endAt (.onLine c.line (c.offset + w.length)))) (c.onto w.length [])
  | numeral {w ds rest : List Char} (hw : Blanks w) (hds : Digits ds)
      (hend : StartsWithout Char.isDigit rest) (hrest : c.rest = w ++ (ds ++ rest)) :
      Step c (Cursor.numeral c.source ds (c.stretch w.length ds.length))
        (c.onto (w.length + ds.length) rest)
  | symbol {w rest : List Char} {ch : Char} {k : Token.Kind} (hw : Blanks w)
      (hk : Token.Kind.ofSymbol? ch = some k) (hrest : c.rest = w ++ ch :: rest) :
      Step c (.ok ⟨k, none, String.singleton ch, c.stretch w.length 1⟩)
        (c.onto (w.length + 1) rest)
  | stray {w rest : List Char} {ch : Char} (hw : Blanks w) (hb : Text.isBlank ch = false)
      (hd : ch.isDigit = false) (hk : Token.Kind.ofSymbol? ch = none)
      (hrest : c.rest = w ++ ch :: rest) :
      Step c (.error (.fault (.character (String.singleton ch)
        (.onLine c.line (c.offset + w.length)) c.source))) (c.onto w.length (ch :: rest))

variable {c c' : Cursor} {w rest : List Char} {item : Item}

theorem skip_eq_onto {p : Char → Bool} (hw : ∀ ch ∈ w, p ch = true)
    (hrest : StartsWithout p rest) (h : c.rest = w ++ rest) : c.skip p = c.onto w.length rest := by
  rw [skip, h, takeWhile_append_of_startsWithout hw hrest,
    dropWhile_append_of_startsWithout hw hrest, onto]

/-- A step is what happens. -/
theorem Step.next_eq (h : c.Step item c') : c.next = (item, c') := by
  cases h with
  | @finish w hw hrest =>
      have hskip : c.skipBlanks = c.onto w.length [] :=
        skip_eq_onto hw startsWithout_nil (by rw [hrest, List.append_nil])
      rw [next, hskip]
      rfl
  | @numeral w ds rest hw hds hend hrest =>
      have hskip : c.skipBlanks = c.onto w.length (ds ++ rest) :=
        skip_eq_onto hw hds.startsWithout_blank hrest
      have hdigits := skip_eq_onto (c := c.onto w.length (ds ++ rest)) hds.2 hend rfl
      have htake : (ds ++ rest).takeWhile Char.isDigit = ds :=
        takeWhile_append_of_startsWithout hds.2 hend
      obtain ⟨hne, hd⟩ := hds
      cases ds with
      | nil => exact absurd rfl hne
      | cons ch ds =>
          rw [next, hskip]
          show nextFrom (c.onto w.length (ch :: ds ++ rest)) ch = _
          rw [nextFrom, if_pos (hd ch (by simp))]
          dsimp only
          rw [hdigits, show (c.onto w.length (ch :: ds ++ rest)).rest = ch :: ds ++ rest from rfl,
            htake]
          simp only [onto, stretch, position, Nat.add_assoc]
  | @symbol w rest ch k hw hk hrest =>
      have hskip : c.skipBlanks = c.onto w.length (ch :: rest) :=
        skip_eq_onto hw (startsWithout_cons (symbol_not_blank hk)) hrest
      rw [next, hskip]
      show nextFrom (c.onto w.length (ch :: rest)) ch = _
      rw [nextFrom, symbol_not_digit hk, if_neg (by simp), hk]
      rfl
  | @stray w rest ch hw hb hd hk hrest =>
      have hskip : c.skipBlanks = c.onto w.length (ch :: rest) :=
        skip_eq_onto hw (startsWithout_cons hb) hrest
      rw [next, hskip]
      show nextFrom (c.onto w.length (ch :: rest)) ch = _
      rw [nextFrom, hd, if_neg (by simp), hk]
      rfl

/-- What happens is a step. -/
theorem step_next (c : Cursor) : c.Step c.next.1 c.next.2 := by
  obtain ⟨item, c', h⟩ : ∃ item c', c.Step item c' := by
    have hw : Blanks (c.rest.takeWhile Text.isBlank) := fun ch hch =>
      List.all_eq_true.1 (List.all_takeWhile (p := Text.isBlank) (l := c.rest)) ch hch
    have hstart := startsWithout_dropWhile Text.isBlank c.rest
    have hrest : c.rest = c.rest.takeWhile Text.isBlank ++ c.rest.dropWhile Text.isBlank :=
      List.takeWhile_append_dropWhile.symm
    cases hdrop : c.rest.dropWhile Text.isBlank with
    | nil =>
        rw [hdrop, List.append_nil] at hrest
        exact ⟨_, _, .finish hw hrest⟩
    | cons ch rest =>
        rw [hdrop] at hrest hstart
        cases hd : ch.isDigit with
        | true =>
            have hds : Digits ((ch :: rest).takeWhile Char.isDigit) :=
              ⟨by simp [hd], fun ch' hch => List.all_eq_true.1
                (List.all_takeWhile (p := Char.isDigit) (l := ch :: rest)) ch' hch⟩
            refine ⟨_, _, .numeral hw hds (startsWithout_dropWhile Char.isDigit (ch :: rest)) ?_⟩
            rw [List.takeWhile_append_dropWhile]
            exact hrest
        | false =>
            cases hk : Token.Kind.ofSymbol? ch with
            | some k => exact ⟨_, _, .symbol hw hk hrest⟩
            | none => exact ⟨_, _, .stray hw (hstart ch rfl) hd hk hrest⟩
  rw [h.next_eq]
  exact h

theorem next_eq_iff : c.next = (item, c') ↔ c.Step item c' :=
  ⟨fun h => by simpa [h] using step_next c, Step.next_eq⟩

end Cursor

end Abacus

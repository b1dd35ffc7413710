import Abacus.Proofs.LineBreaks
import Abacus.Proofs.Marks

/-!
# Carets stand below the text to blame

A fault in a line is shown in five lines, the last three of them behind a gutter. The gutter is as
wide as the number of the line, so that its bars stand in one column whatever the number is, and the
carets of the last line begin as many characters behind the bar as the text to blame does in the
line above. That text does not reach into the line break, since the stretch that a fault points at
does not end with white space. Only where a line comes to its end too early is there nothing to
underline, and a single caret stands behind everything that was read, the break included.
-/

namespace Abacus

/-- One line of text, with a line break at its end or without. -/
structure SingleLine (source : String) (text : List Char) : Prop where
  unbroken : ∀ ch ∈ text, ch ≠ '\n' ∧ ch ≠ '\r'
  source_eq : ∃ ending ∈ [[], ['\n'], ['\r'], ['\r', '\n']], source.toList = text ++ ending

/-- The five lines that a fault is shown in. -/
structure Display where
  title : String
  place : String
  gap : String
  shown : String
  marks : String

namespace Display

def lines (d : Display) : List String :=
  [d.title, d.place, d.gap, d.shown, d.marks]

/-- The lines behind the gutter. -/
def framed (d : Display) : List String :=
  [d.gap, d.shown, d.marks]

end Display

/-- The column of the gutter's bar, counted from zero. -/
def barColumn (line : Int) : Nat :=
  (toString line).length + 1

/-- The carets stand in the columns from `start` up to `stop` of the text, and nowhere else. -/
def Underscores (marks : String) (line : Int) (start stop : Nat) : Prop :=
  ∀ i, marks.toList[i]? = some '^' ↔ barColumn line + 2 + start ≤ i ∧ i < barColumn line + 2 + stop

/-- The five lines show the fault, with the text of its line above the carets. -/
structure Display.Shows (d : Display) (source : String) (text : List Char) (line : Int)
    (filename : String) (f : Fault) : Prop where
  snippet_eq : f.snippet filename = "\n".intercalate d.lines
  oneLine : ∀ l ∈ d.lines, OneLine l
  title_eq : d.title = f.cause.heading ++ ": " ++ f.cause.message
  place_eq : ∃ arrow, d.place = arrow ++ s!"{filename}:{line}:{f.span.start.column}"
  shown_eq : d.shown = toString line ++ " | " ++ String.ofList text
  bars : ∀ l ∈ d.framed, l.toList.idxOf? '|' = some (barColumn line)
  below : f.span.start.offset < f.span.stop.offset →
    f.span.stop.offset ≤ text.length ∧
    (text.drop f.span.start.offset).take (f.span.stop.offset - f.span.start.offset) =
      (f.span.text source).toList ∧
    Underscores d.marks line f.span.start.offset f.span.stop.offset
  atEnd : f.span.start.offset = f.span.stop.offset →
    f.span.start.offset = source.length ∧
    Underscores d.marks line source.length (source.length + 1)

/-- A fault lies within its line, and is shown with carets below the text to blame. -/
structure Underlined (source : String) (text : List Char) (line : Int) (filename : String)
    (f : Fault) : Prop where
  start_eq : f.span.start = .onLine line f.span.start.offset
  stop_eq : f.span.stop = .onLine line f.span.stop.offset
  start_le_stop : f.span.start.offset ≤ f.span.stop.offset
  stop_le : f.span.stop.offset ≤ source.length
  display : ∃ d : Display, d.Shows source text line filename f

variable {source filename : String} {text s mid rest : List Char} {line : Int} {f : Fault}

/-! ## The line -/

theorem SingleLine.lines_eq (h : SingleLine source text) :
    Text.lines source = [] ∧ text = [] ∨ Text.lines source = [String.ofList text] := by
  obtain ⟨hunbroken, ending, hending, hsource⟩ := h
  rw [Text.lines, Text.splitLines_eq, hsource]
  simp only [List.mem_cons, List.not_mem_nil, or_false] at hending
  have hended : ∀ {ending : List Char}, Text.markedLines ending = [([], true)] →
      Text.markedLines (text ++ ending) = [(text, true)] := by
    intro ending hmarked
    rw [Text.markedLines_append hunbroken hmarked, List.append_nil]
  rcases hending with rfl | rfl | rfl | rfl
  · rw [List.append_nil]
    by_cases htext : text = []
    · subst htext
      exact .inl ⟨rfl, rfl⟩
    · rw [Text.markedLines_unbroken hunbroken htext]
      exact .inr rfl
  · rw [hended rfl]
    exact .inr rfl
  · rw [hended rfl]
    exact .inr rfl
  · rw [hended rfl]
    exact .inr rfl

theorem SingleLine.sourceLine_eq (h : SingleLine source text) (hf : f.source = source) :
    f.sourceLine = String.ofList text := by
  rw [Fault.sourceLine, hf]
  rcases h.lines_eq with ⟨hlines, rfl⟩ | hlines <;> rw [hlines]

theorem SingleLine.oneLine (h : SingleLine source text) : OneLine (String.ofList text) := by
  intro hmem
  rw [String.toList_ofList] at hmem
  exact (h.unbroken _ hmem).1 rfl

/-- What ends with a character that is not white space does not reach into the break. -/
theorem SingleLine.exists_rest (h : SingleLine source text)
    (hsource : source.toList = s ++ (mid ++ rest)) (hne : mid ≠ [])
    (hlast : ∀ ch ∈ mid.getLast?, Text.isBlank ch = false) :
    ∃ more, text = s ++ (mid ++ more) := by
  obtain ⟨ending, hending, htext⟩ := h.source_eq
  have hblank : Blanks ending := by
    simp only [List.mem_cons, List.not_mem_nil, or_false] at hending
    rcases hending with rfl | rfl | rfl | rfl <;> simp [Blanks, Text.isBlank]
  rw [htext, ← List.append_assoc] at hsource
  rcases List.append_eq_append_iff.1 hsource with ⟨excess, hexcess, hrest⟩ | ⟨more, hmore, -⟩
  · -- If the piece ends behind the line, its last character is one of the break.
    obtain ⟨front, ch, rfl⟩ := (List.eq_nil_or_concat mid).resolve_left hne
    rw [List.concat_eq_append] at hexcess hlast ⊢
    rcases List.eq_nil_or_concat excess with rfl | ⟨front', ch', rfl⟩
    · exact ⟨[], by simpa using hexcess.symm⟩
    · rw [List.concat_eq_append, ← List.append_assoc, ← List.append_assoc] at hexcess
      obtain ⟨-, hch⟩ := List.append_inj' hexcess rfl
      have hnot := hlast ch (by simp)
      have his := hblank ch' (by simp [hrest])
      rw [List.singleton_inj.1 hch, his] at hnot
      cases hnot
  · exact ⟨more, by rw [hmore, List.append_assoc]⟩

theorem SingleLine.slice_eq (h : SingleLine source text)
    (hsource : source.toList = s ++ (mid ++ rest)) (hne : mid ≠ [])
    (hlast : ∀ ch ∈ mid.getLast?, Text.isBlank ch = false) :
    s.length + mid.length ≤ text.length ∧ (text.drop s.length).take mid.length = mid := by
  obtain ⟨more, rfl⟩ := h.exists_rest hsource hne hlast
  rw [List.drop_left, List.take_left, List.length_append, List.length_append]
  exact ⟨by omega, rfl⟩

/-! ## The gutter -/

theorem bar_not_mem_toString (x : Int) : '|' ∉ (toString x).toList := by
  intro h
  rcases isDigit_or_minus_of_mem_toString h with h | h <;> cases h

theorem idxOf?_bar {before : List Char} (h : '|' ∉ before) (after : List Char) :
    (before ++ '|' :: after).idxOf? '|' = some before.length := by
  have hnone : before.findIdx? (· == '|') = none := by
    rw [List.findIdx?_eq_none_iff]
    intro ch hch
    rw [beq_eq_false_iff_ne]
    rintro rfl
    exact h hch
  rw [List.idxOf?, List.findIdx?_append, hnone, List.findIdx?_cons]
  simp

theorem toList_blanks (n : Int) : (Fault.blanks n).toList = List.replicate n.toNat ' ' :=
  String.toList_ofList

theorem not_mem_blanks {ch : Char} (h : ch ≠ ' ') (n : Nat) : ch ∉ List.replicate n ' ' :=
  fun hmem => h (List.eq_of_mem_replicate hmem)

theorem oneLine_replicate {ch : Char} (h : ch ≠ '\n') (n : Nat) :
    OneLine (String.ofList (List.replicate n ch)) := by
  rw [OneLine, String.toList_ofList]
  exact fun hmem => h (List.eq_of_mem_replicate hmem).symm

/-! ## The five lines -/

def Fault.display (f : Fault) (filename : String) : Display where
  title := f.title
  place := blanks (barColumn f.span.start.line) ++
    s!"--> {filename}:{f.span.start.line}:{f.span.start.column}"
  gap := blanks (barColumn f.span.start.line) ++ "|"
  shown := toString f.span.start.line ++ " | " ++ f.sourceLine
  marks := blanks (barColumn f.span.start.line) ++ "| " ++ blanks (f.span.start.column - 1) ++
    String.ofList (List.replicate f.caretCount '^')

theorem Fault.snippet_eq_display (f : Fault) (filename : String) :
    f.snippet filename = "\n".intercalate (f.display filename).lines := by
  simp only [display, Display.lines, String.intercalate_cons_cons, String.intercalate_singleton]
  simp only [snippet, barColumn, String.append_assoc]
  rfl

theorem caretCount_eq {i j : Nat} (h : f.span = ⟨.onLine line i, .onLine line j⟩) :
    f.caretCount = max 1 (j - i) := by
  rw [Fault.caretCount, h]
  simp only [Position.onLine, if_pos]
  omega

theorem display_oneLine (hf : f.cause.Plain) (hline : OneLine f.sourceLine)
    (hname : OneLine filename) : ∀ l ∈ (f.display filename).lines, OneLine l := by
  have hblanks : ∀ n : Int, OneLine (Fault.blanks n) :=
    fun n => oneLine_replicate (by decide) n.toNat
  have hnumber := oneLine_toString f.span.start.line
  have hcolumn := oneLine_toString f.span.start.column
  have harrow : OneLine "--> " := by decide
  have hcolon : OneLine ":" := by decide
  have hbar : OneLine "|" := by decide
  have hbars : OneLine " | " ∧ OneLine "| " := by decide
  have hcarets := oneLine_replicate (show '^' ≠ '\n' by decide) f.caretCount
  simp only [Display.lines, Fault.display, List.forall_mem_cons, oneLine_append]
  refine ⟨f.oneLine_title hf, ⟨hblanks _, ?_⟩, ⟨hblanks _, hbar⟩, ⟨⟨hnumber, hbars.1⟩, hline⟩,
    ⟨⟨⟨hblanks _, hbars.2⟩, hblanks _⟩, hcarets⟩, by simp⟩
  exact ⟨⟨⟨⟨⟨harrow, hname⟩, hcolon⟩, hnumber⟩, hcolon⟩, hcolumn⟩

/-- Blanks, or the number and a blank, stand before each bar, as many characters in all. -/
theorem display_bars (f : Fault) (filename : String) :
    ∀ l ∈ (f.display filename).framed,
      l.toList.idxOf? '|' = some (barColumn f.span.start.line) := by
  have hgutter : ∀ after, (List.replicate (barColumn f.span.start.line) ' ' ++ '|' :: after).idxOf?
      '|' = some (barColumn f.span.start.line) := by
    intro after
    rw [idxOf?_bar (not_mem_blanks (by decide) _), List.length_replicate]
  intro l hl
  simp only [Display.framed, Fault.display, List.mem_cons, List.not_mem_nil, or_false] at hl
  rcases hl with rfl | rfl | rfl
  · simpa [toList_blanks] using hgutter []
  · have hnumber : '|' ∉ (toString f.span.start.line).toList ++ [' '] := by
      simpa using bar_not_mem_toString f.span.start.line
    have hfirst := idxOf?_bar hnumber (' ' :: f.sourceLine.toList)
    simpa [barColumn, String.toList_append, String.length_toList] using hfirst
  · simpa [toList_blanks, String.toList_append] using hgutter _

theorem getElem?_append_carets {lead : List Char} (h : '^' ∉ lead) (n i : Nat) :
    (lead ++ List.replicate n '^')[i]? = some '^' ↔ lead.length ≤ i ∧ i < lead.length + n := by
  rw [List.getElem?_append]
  split
  · next hi =>
      have hne : lead[i]? ≠ some '^' := fun hmem => h (List.mem_of_getElem? hmem)
      simp only [hne, false_iff]
      omega
  · next hi =>
      rw [List.getElem?_replicate]
      split
      · simp only [true_iff]
        omega
      · simp only [reduceCtorEq, false_iff]
        omega

theorem toList_marks {i j : Nat} (h : f.span = ⟨.onLine line i, .onLine line j⟩)
    (filename : String) :
    (f.display filename).marks.toList =
      (List.replicate (barColumn line) ' ' ++ '|' :: ' ' :: List.replicate i ' ') ++
        List.replicate (max 1 (j - i)) '^' := by
  simp [Fault.display, caretCount_eq h, h, toList_blanks, String.toList_append, Position.onLine]

theorem display_underscores {i j : Nat} (h : f.span = ⟨.onLine line i, .onLine line j⟩)
    (filename : String) :
    Underscores (f.display filename).marks line i (max (i + 1) j) := by
  have hblank : ∀ n, '^' ∉ List.replicate n ' ' := not_mem_blanks (by decide)
  intro k
  rw [toList_marks h, getElem?_append_carets (by simp [hblank])]
  simp only [List.length_append, List.length_cons, List.length_replicate]
  omega

/-- A fault that a line comes to lies within the line, and is shown in five lines with carets below
the text to blame, or with one caret behind the end. -/
theorem evaluate_underlined [Host] {allowTrailing : Bool} (hsource : SingleLine source text)
    (hname : OneLine filename) (h : evaluate source line allowTrailing = .error (.fault f)) :
    Underlined source text line filename f := by
  have hmarks := marks_of_evaluate h
  obtain ⟨s, mid, rest, hpieces, hspan, hlast, hnil⟩ := hmarks.exists_piece
  have hline := hsource.sourceLine_eq hmarks.source_eq
  have hnumber : f.span.start.line = line := by rw [hspan]; rfl
  have hstart : f.span.start.offset = s.length := by rw [hspan]; rfl
  have hstop : f.span.stop.offset = s.length + mid.length := by rw [hspan]; rfl
  have hlength : source.length = s.length + mid.length + rest.length := by
    rw [← String.length_toList, hpieces, List.length_append, List.length_append, Nat.add_assoc]
  have hcarets := display_underscores hspan filename
  refine ⟨by rw [hspan]; rfl, by rw [hspan]; rfl, by omega, by omega, f.display filename, ?_⟩
  constructor
  case snippet_eq => exact f.snippet_eq_display filename
  case oneLine =>
    refine display_oneLine hmarks.plain ?_ hname
    rw [hline]
    exact hsource.oneLine
  case title_eq => rfl
  case place_eq =>
    refine ⟨Fault.blanks (barColumn line) ++ "--> ", ?_⟩
    rw [Fault.display, hnumber]
    simp only [String.append_assoc]
    rfl
  case shown_eq => rw [Fault.display, hnumber, hline]
  case bars =>
    rw [← hnumber]
    exact display_bars f filename
  case below =>
    intro hlt
    have hpos : 0 < mid.length := by omega
    have hne : mid ≠ [] := List.length_pos_iff.1 hpos
    obtain ⟨hle, hslice⟩ := hsource.slice_eq hpieces hne hlast
    rw [text_of_append hpieces hstart hstop, String.toList_ofList, hstart, hstop,
      Nat.add_sub_cancel_left]
    rw [max_eq_right (by omega)] at hcarets
    exact ⟨hle, hslice, hcarets⟩
  case atEnd =>
    intro heq
    have hzero : mid.length = 0 := by omega
    rw [hnil (List.length_eq_zero_iff.1 hzero), hzero, List.length_nil] at hlength
    rw [hzero, max_eq_left (by omega)] at hcarets
    rw [hlength, hstart]
    exact ⟨rfl, hcarets⟩

theorem evaluate_underlined_divisor :
    evaluate "12 / (4-4)\r\n" 10 false = .error (.fault
      ⟨.zeroDivisor, ⟨.onLine 10 5, .onLine 10 10⟩, "12 / (4-4)\r\n"⟩) ∧
    Underlined "12 / (4-4)\r\n" "12 / (4-4)".toList 10 "calc.txt"
      ⟨.zeroDivisor, ⟨.onLine 10 5, .onLine 10 10⟩, "12 / (4-4)\r\n"⟩ := by
  have hsource : SingleLine "12 / (4-4)\r\n" "12 / (4-4)".toList :=
    ⟨by simp, ['\r', '\n'], by simp, by decide +kernel⟩
  have h : evaluate "12 / (4-4)\r\n" 10 false = .error (.fault
      ⟨.zeroDivisor, ⟨.onLine 10 5, .onLine 10 10⟩, "12 / (4-4)\r\n"⟩) := by decide +kernel
  exact ⟨h, evaluate_underlined hsource (by decide) h⟩

end Abacus

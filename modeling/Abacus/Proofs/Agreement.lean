import Abacus.Editor.Diagnostic
import Abacus.Proofs.Encoding
import Abacus.Proofs.LineBreaks
import Abacus.Proofs.LineByLine
import Abacus.Proofs.Placement
import Abacus.Session.Command

/-!
# The editor and the command agree

A document is answered in two ways. An editor cuts it into lines without their breaks and is told
of each line with a fault. A command reads it from a file, as a stream in which every line keeps a
line feed, and shows a snippet of each fault. The lines are the same, with the same numbers, and the
line feed is white space at the end of a line: the same fault is found, in the same place. Only what
is to blame on the end of the input has moved, behind the line feed.

That is said line by line: a `Row` is a line of the document, with what the editor is told of it and
what the command reports. The columns of the editor count UTF-16 units, but no cursor gets past a
character that is longer than one, so that they count characters up to the fault.
-/

namespace Abacus

open Editor (Diagnostic diagnoseLine diagnoseLines diagnose Severity)
open Session (lineReport worst)
open Options (Arguments)

/-- A line of a document: its number, its text, and whether a line break ended it. -/
structure Row where
  number : Nat
  text : String
  broken : Bool
deriving DecidableEq

namespace Row

/-- The line as it comes from a stream. -/
def piece (row : Row) : String :=
  String.ofList (row.text.toList ++ Text.feed row.broken)

/-- What an editor is told of the line. -/
def diagnostic? [Host] (row : Row) : Option Diagnostic :=
  match diagnoseLine row.text row.number with
  | .ok d => d
  | .error _ => none

/-- What a command reports on the line of a file of that name. -/
def report [Host] (filename : String) (row : Row) : Report Nat :=
  lineReport .default filename row.number row.piece

/-- The diagnostic and the snippet tell of the same fault. They show it in the same column, unless
it is blamed on the end of the input and the line was broken there. -/
structure Matches (filename : String) (row : Row) (f : Fault) (d : Diagnostic) : Prop where
  line : d.start.line = row.number - 1
  number : f.span.start.line = row.number
  column : f.span.start.column =
    d.start.character + 1 + if f.cause.atEnd && row.broken then 1 else 0
  message : ∃ more, f.snippet filename = d.message ++ "\n" ++ more
  oneLine : OneLine d.message

/-- Editor and command say the same of a line: nothing, if it is blank or has a value, or else the
same fault, as a warning with code two or as an error with code one. -/
inductive Agrees [Host] (filename : String) (row : Row) : Prop
  | silent (hline : Text.isBlankLine row.text = true ∨
        ∃ v, evaluate row.text row.number false = .ok v)
      (hd : row.diagnostic? = none) (herr : (row.report filename).written.err = "")
      (hcode : (row.report filename).ended = .ok 0)
  | fault {f f' : Fault} {d : Diagnostic} {code : Nat} (hline : Text.isBlankLine row.text = false)
      (hf : evaluate row.text row.number false = .error (.fault f))
      (hf' : evaluate row.piece row.number false = .error (.fault f'))
      (hd : row.diagnostic? = some d)
      (hr : row.report filename = .done (.ofErr (f'.snippet filename ++ "\n")) code)
      (hmatch : row.Matches filename f' d)
      (hcode : d.severity = .warning ∧ code = 2 ∨ d.severity = .error ∧ code = 1)

end Row

/-- Lines that come after `n` others. -/
def rowsAfter (n : Nat) (lines : List (List Char × Bool)) : List Row :=
  lines.mapIdx fun i p => ⟨n + i + 1, String.ofList p.1, p.2⟩

/-- The lines of a document. -/
def rows (document : String) : List Row :=
  rowsAfter 0 (Text.markedLines document.toList)

/-- The code of a command for a document with the given diagnostics. -/
def statusOf (ds : List Diagnostic) : Nat :=
  if ds.any (·.severity = .warning) then 2 else if ds.isEmpty then 0 else 1

variable {row : Row} {filename : String}

/-! ## One line -/

namespace Row

theorem toList_piece (row : Row) :
    row.piece.toList = row.text.toList ++ Text.feed row.broken := by
  rw [piece, String.toList_ofList]

/-- The line feed is put in behind the line. -/
def insertion (row : Row) : Insertion row.text row.piece :=
  .atEnd (fun _ => Text.isBlank_of_mem_feed) row.toList_piece row.number row.number

theorem evaluate_piece [Host] (row : Row) (allowTrailing : Bool) :
    evaluate row.piece row.number allowTrailing =
      (evaluate row.text row.number allowTrailing).mapError row.insertion.failure :=
  row.insertion.evaluate_eq allowTrailing

theorem isBlankLine_piece (row : Row) :
    Text.isBlankLine row.piece = Text.isBlankLine row.text := by
  rw [Text.isBlankLine, Text.isBlankLine, row.toList_piece, List.all_append]
  cases row.broken <;> simp [Text.isBlank]

theorem agrees_of_blank [Host] (h : Text.isBlankLine row.text = true) : row.Agrees filename := by
  have hpiece := row.isBlankLine_piece.trans h
  refine .silent (.inl h) ?_ ?_ ?_
  · rw [diagnostic?, diagnoseLine, if_pos h]
  · rw [report, lineReport, if_pos hpiece]
    rfl
  · rw [report, lineReport, if_pos hpiece]
    rfl

theorem report_eq [Host] (filename : String) (h : Text.isBlankLine row.text = false) :
    row.report filename = Session.answer .default row.piece row.number filename := by
  have hpiece := row.isBlankLine_piece.trans h
  rw [report, lineReport, if_neg (by simp [hpiece])]
  rfl

theorem agrees_of_value [Host] {v : Int} (h : Text.isBlankLine row.text = false)
    (hv : evaluate row.text row.number false = .ok v) : row.Agrees filename := by
  have hpiece : evaluate row.piece row.number false = .ok v := by
    rw [row.evaluate_piece, hv]
    rfl
  have hreport := report_eq filename h
  rw [Session.answer, show Settings.default.allowTrailing = false from rfl, hpiece] at hreport
  refine .silent (.inr ⟨v, hv⟩) ?_ (by rw [hreport]; rfl) (by rw [hreport]; rfl)
  rw [diagnostic?, diagnoseLine, if_neg (by simp [h]), hv]

theorem length_feed (broken : Bool) : (Text.feed broken).length = if broken then 1 else 0 := by
  cases broken <;> rfl

/-- What is blamed on the end of the input is found behind the line feed. -/
theorem startAt_insertion {p : Position} {atEnd : Bool}
    (h : Begins row.text row.number p atEnd) :
    row.insertion.startAt p.offset = p.offset + if atEnd && row.broken then 1 else 0 := by
  have hfront : row.insertion.front = row.text.toList := rfl
  have hspace : row.insertion.space = Text.feed row.broken := rfl
  cases atEnd with
  | true =>
      rw [Insertion.startAt_of_le (by rw [hfront, h.outside rfl]), hspace, length_feed]
      rfl
  | false =>
      rw [Insertion.startAt_of_lt (by rw [hfront]; exact h.inside rfl)]
      rfl

theorem matches_of_begins {f : Fault}
    (hbegins : Begins row.text row.number f.span.start f.cause.atEnd) (hplain : f.cause.Plain) :
    row.Matches filename (row.insertion.fault f) (.ofFault row.text f) where
  line := by
    show f.span.start.line - 1 = _
    rw [hbegins.eq_onLine]
    rfl
  number := rfl
  column := by
    show (row.insertion.startAt f.span.start.offset + 1 : Int) =
      Text.utf16Column row.text f.span.start.column + 1 +
        if (row.insertion.cause f.cause).atEnd && row.broken then 1 else 0
    rw [hbegins.utf16Column, Insertion.atEnd_cause, startAt_insertion hbegins]
    split <;> omega
  message := by
    obtain ⟨more, hmore⟩ := (row.insertion.fault f).exists_snippet_eq filename
    rw [Insertion.title_fault] at hmore
    exact ⟨more, hmore⟩
  oneLine := Fault.oneLine_title hplain

theorem agrees_of_fault [Host] {f : Fault} (h : Text.isBlankLine row.text = false)
    (hf : evaluate row.text row.number false = .error (.fault f))
    (hbegins : Begins row.text row.number f.span.start f.cause.atEnd) (hplain : f.cause.Plain) :
    row.Agrees filename := by
  have hpiece : evaluate row.piece row.number false = .error (.fault (row.insertion.fault f)) := by
    rw [row.evaluate_piece, hf]
    rfl
  have hreport := report_eq filename h
  rw [Session.answer, show Settings.default.allowTrailing = false from rfl, hpiece] at hreport
  refine .fault h hf hpiece (d := .ofFault row.text f) ?_ hreport
    (matches_of_begins hbegins hplain) ?_
  · rw [diagnostic?, diagnoseLine, if_neg (by simp [h]), hf]
  · have hcause := row.insertion.isEvaluation_cause f.cause
    rw [Session.faultCode, Insertion.fault, hcause, Diagnostic.ofFault]
    cases f.cause.isEvaluation with
    | true => exact .inl ⟨rfl, rfl⟩
    | false => exact .inr ⟨rfl, rfl⟩

theorem agrees [Host] (h : NoneOverlong row.text.toList) : row.Agrees filename := by
  cases hblank : Text.isBlankLine row.text with
  | true => exact agrees_of_blank hblank
  | false =>
      cases he : evaluate row.text row.number false with
      | ok v => exact agrees_of_value hblank he
      | error e =>
          obtain ⟨f, rfl, hbegins, hplain⟩ := exists_fault_of_evaluate h he
          exact agrees_of_fault hblank he hbegins hplain

theorem diagnoseLine_eq [Host] (h : NoneOverlong row.text.toList) :
    diagnoseLine row.text row.number = .ok row.diagnostic? := by
  rw [diagnostic?]
  cases hd : diagnoseLine row.text row.number with
  | ok d => rfl
  | error e =>
      rw [diagnoseLine] at hd
      split at hd
      · cases hd
      · split at hd
        · cases hd
        · cases hd
        · next he =>
            obtain ⟨f, hf, -⟩ := exists_fault_of_evaluate h he
            cases hf

end Row

/-! ## All lines -/

variable {document : String} {lines : List (List Char × Bool)} {n : Nat} {s : Session}

theorem rowsAfter_cons (p : List Char × Bool) :
    rowsAfter n (p :: lines) = ⟨n + 1, String.ofList p.1, p.2⟩ :: rowsAfter (n + 1) lines := by
  rw [rowsAfter, rowsAfter, List.mapIdx_cons]
  simp only [Nat.add_assoc, Nat.add_comm 1, Nat.add_zero]

theorem map_rowsAfter {α : Type} (f : String → Bool → α) :
    ((rowsAfter n lines).map fun row => f row.text row.broken) =
      lines.map fun p => f (String.ofList p.1) p.2 := by
  induction lines generalizing n with
  | nil => rfl
  | cons p lines ih => rw [rowsAfter_cons, List.map_cons, List.map_cons, ih]

theorem map_text_rows (document : String) : (rows document).map Row.text = Text.lines document := by
  refine (map_rowsAfter fun text _ => text).trans ?_
  rw [Text.lines, Text.splitLines_eq, List.map_map]
  rfl

theorem map_piece_rows (document : String) :
    (rows document).map Row.piece =
      Text.feedLines (String.ofList (Text.normalizeBreaks document.toList)) := by
  refine (map_rowsAfter fun text broken =>
    String.ofList (text.toList ++ Text.feed broken)).trans ?_
  rw [Text.feedLines, String.toList_ofList, Text.cutAfterFeeds_normalizeBreaks, List.map_map]
  simp

theorem noneOverlong_of_mem_rows (h : NoneOverlong document.toList) (hrow : row ∈ rows document) :
    NoneOverlong row.text.toList := by
  obtain ⟨i, hi, rfl⟩ := List.mem_mapIdx.1 hrow
  rw [String.toList_ofList]
  exact h.of_isInfix ((Text.isInfix_of_mem_markedLines _).2 _ (List.getElem_mem hi))

theorem diagnoseLines_rowsAfter [Host]
    (h : ∀ row ∈ rowsAfter n lines, diagnoseLine row.text row.number = .ok row.diagnostic?) :
    diagnoseLines (n + 1) (lines.map fun p => String.ofList p.1) =
      .ok ((rowsAfter n lines).filterMap Row.diagnostic?) := by
  induction lines generalizing n with
  | nil => rfl
  | cons p lines ih =>
      rw [rowsAfter_cons] at h ⊢
      have hfirst := h _ List.mem_cons_self
      have hmore := ih fun row hrow => h row (List.mem_cons_of_mem _ hrow)
      rw [List.map_cons, diagnoseLines]
      dsimp only at hfirst
      rw [hfirst, hmore]
      generalize hd : Row.diagnostic? _ = d
      cases d with
      | none => rw [List.filterMap_cons_none hd]; rfl
      | some d => rw [List.filterMap_cons_some hd]; rfl

theorem reports_rowsAfter [Host] (hs : s.settings = .default) :
    s.reports ((rowsAfter s.lines lines).map Row.piece) =
      (rowsAfter s.lines lines).map (Row.report s.filename) := by
  refine List.ext_getElem (by simp [Session.reports]) fun i hi hi' => ?_
  simp [Session.reports, Row.report, rowsAfter, hs]

theorem statusOf_le (ds : List Diagnostic) : statusOf ds ≤ 2 := by
  rw [statusOf]
  split
  · exact Nat.le_refl 2
  · split <;> omega

theorem statusOf_cons (d : Diagnostic) (ds : List Diagnostic) :
    statusOf (d :: ds) = max (if d.severity = .warning then 2 else 1) (statusOf ds) := by
  cases hd : d.severity with
  | warning =>
      have hle := statusOf_le ds
      have htwo : statusOf (d :: ds) = 2 := by simp [statusOf, hd]
      rw [htwo, if_pos rfl]
      omega
  | error =>
      have hone : statusOf (d :: ds) = if ds.any (·.severity = .warning) then 2 else 1 := by
        simp [statusOf, hd]
      rw [hone, statusOf, if_neg (show ¬Severity.error = .warning by decide)]
      split
      · rfl
      · split <;> rfl

/-- The worst code is the one of a warning. -/
theorem worst_reports_eq_statusOf [Host] {rs : List Row} (h : ∀ row ∈ rs, row.Agrees filename) :
    worst (rs.map (Row.report filename)) = statusOf (rs.filterMap Row.diagnostic?) := by
  induction rs with
  | nil => rfl
  | cons row rs ih =>
      have hmore := ih fun r hr => h r (List.mem_cons_of_mem _ hr)
      have hworst : worst ((row :: rs).map (Row.report filename)) =
          max (Session.codeOf (row.report filename)) (worst (rs.map (Row.report filename))) := rfl
      rw [hworst, hmore]
      cases h row List.mem_cons_self with
      | silent _ hd _ hcode =>
          rw [List.filterMap_cons_none hd, Session.codeOf, hcode]
          exact Nat.zero_max _
      | fault _ _ _ hd hr _ hcode =>
          rw [List.filterMap_cons_some hd, statusOf_cons, hr]
          rcases hcode with ⟨hseverity, rfl⟩ | ⟨hseverity, rfl⟩
          · rw [hseverity]; rfl
          · rw [hseverity]; rfl

/-! ## The whole document -/

/-- What a command with default settings reports on a stream that is cut into these lines. -/
theorem runAll_rows [Host] (h : ∀ row ∈ rows document, row.Agrees filename) :
    (Session.start .default false filename).runAll
        (((rows document).map Row.piece).map .line) =
      .done ⟨String.join ((rows document).map fun row => (row.report filename).written.out),
          String.join ((rows document).map fun row => (row.report filename).written.err)⟩
        (statusOf ((rows document).filterMap Row.diagnostic?)) := by
  have hreports : (Session.start .default false filename).reports ((rows document).map Row.piece) =
      (rows document).map (Row.report filename) :=
    reports_rowsAfter (s := .start .default false filename) rfl
  have hfinishes : ∀ r ∈ (rows document).map (Row.report filename), r.Finishes := by
    intro r hr
    obtain ⟨row, hrow, rfl⟩ := List.mem_map.1 hr
    cases h row hrow with
    | silent _ _ _ hcode => exact ⟨_, hcode⟩
    | fault _ _ _ _ hr _ _ => exact ⟨_, by rw [hr]; rfl⟩
  rw [Session.runAll_batch (by rw [hreports]; exact hfinishes), hreports, List.map_map,
    List.map_map, worst_reports_eq_statusOf h]
  rfl

theorem resolve_of_no_config {files : Files.System} {name : String} {path : Files.Path}
    (hpath : Options.inputPath (some name) = some path)
    (hconfig : files (Options.configPath none (.ofString ".")) = .error .missing) :
    Options.resolve files { Arguments.none with input := some name } (.ofString ".") =
      .ok ⟨some path, [], .default, false⟩ := by
  have hload : Options.loadConfig files (Options.configPath none (.ofString ".")) = .ok [] := by
    rw [Options.loadConfig, hconfig]
  rw [Options.resolve]
  show (do
    let config ← Options.loadConfig files (Options.configPath none (.ofString "."))
    return (⟨_, _, Options.settingsFor config _, _⟩ : Options.Plan)) = _
  rw [hload, hpath]
  rfl

/-- An editor that is told of a document, and a command that reads it from a file, with no options
and no configuration. There is a row for each line of the document, the same lines for both, and
what comes of the rows, in their order, is all there is: the diagnostics for the one, and the
output, the snippets and the code for the other. In each row the two agree. -/
theorem runCommand_agrees_diagnose [Host] (files : Files.System) (stdin : StandardInput)
    {words : List String} {name : String} {path : Files.Path} (document : String)
    (hwords : Arguments.ofWords words = .ok { Arguments.none with input := some name })
    (hpath : Options.inputPath (some name) = some path)
    (hconfig : files (Options.configPath none (.ofString ".")) = .error .missing)
    (hfile : files path = .ok document.toUTF8.data.toList)
    (hdigits : NoneOverlong document.toList) :
    (rows document).map Row.text = Text.lines document ∧
    (rows document).map Row.piece =
      Text.feedLines (String.ofList (Text.normalizeBreaks document.toList)) ∧
    diagnose document = .ok ((rows document).filterMap Row.diagnostic?) ∧
    Session.runCommand files stdin words =
      .done ⟨String.join ((rows document).map fun row => (row.report path.toString).written.out),
          String.join ((rows document).map fun row => (row.report path.toString).written.err)⟩
        (statusOf ((rows document).filterMap Row.diagnostic?)) ∧
    ∀ row ∈ rows document, row.Agrees path.toString := by
  have hagrees : ∀ row ∈ rows document, row.Agrees path.toString := fun row hrow =>
    Row.agrees (noneOverlong_of_mem_rows hdigits hrow)
  refine ⟨map_text_rows document, map_piece_rows document, ?_, ?_, hagrees⟩
  · have hlines : Text.lines document =
        (Text.markedLines document.toList).map fun p => String.ofList p.1 := by
      rw [Text.lines, Text.splitLines_eq, List.map_map]
      rfl
    rw [diagnose, hlines]
    exact diagnoseLines_rowsAfter fun row hrow =>
      row.diagnoseLine_eq (noneOverlong_of_mem_rows hdigits hrow)
  · rw [← runAll_rows hagrees, map_piece_rows, Session.runCommand, hwords]
    dsimp only
    rw [Session.runArguments, resolve_of_no_config hpath hconfig]
    show Session.runFile files .default path = _
    rw [Session.runFile, hfile]
    dsimp only
    rw [Session.eventsOfBytes, Text.decodeLenient_toUTF8]
    rfl

/-- A line that breaks off, one with a value and one with a zero divisor, ended in two ways. The
first fault is at character two, counted from zero, for the editor, and in column four, counted from
one, for the command. -/
theorem runCommand_agrees_diagnose_sums :
    let document := "1+\r\n2\n8/0"
    let files : Files.System := fun path =>
      if path = .ofString "sums" then .ok document.toUTF8.data.toList else .error .missing
    let report := Session.runCommand files ⟨[], false⟩ ["sums"]
    diagnose document = .ok [
      ⟨⟨0, 2⟩, ⟨0, 2⟩, "syntax error: expected integer or '(', found end of input", .error⟩,
      ⟨⟨2, 2⟩, ⟨2, 3⟩, "division by zero: right operand of '/' is zero", .warning⟩] ∧
    report.written = ⟨"2\n", "syntax error: expected integer or '(', found end of input\n" ++
      "  --> sums:1:4\n  |\n1 | 1+\n  |    ^\n" ++
      "division by zero: right operand of '/' is zero\n" ++
      "  --> sums:3:3\n  |\n3 | 8/0\n  |   ^\n"⟩ ∧
    report.ended = .ok 2 ∧
    ∀ row ∈ rows document, row.Agrees "sums" := by
  intro document files report
  obtain ⟨-, -, hd, hrun, hagrees⟩ := runCommand_agrees_diagnose files ⟨[], false⟩ document
    (show Arguments.ofWords ["sums"] = .ok { Arguments.none with input := some "sums" } from rfl)
    (show Options.inputPath (some "sums") = some (.ofString "sums") from rfl)
    (if_neg (by decide)) (if_pos rfl) (noneOverlong_of_length (by decide))
  refine ⟨?_, ?_, ?_, hagrees⟩
  · rw [hd]
    decide +kernel
  · show (Session.runCommand files ⟨[], false⟩ ["sums"]).written = _
    rw [hrun]
    decide +kernel
  · show (Session.runCommand files ⟨[], false⟩ ["sums"]).ended = _
    rw [hrun]
    decide +kernel

end Abacus

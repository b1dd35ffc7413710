import Abacus.Proofs.Accidents
import Abacus.Proofs.CommandWords
import Abacus.Proofs.Encoding
import Abacus.Proofs.LineBreaks
import Abacus.Session.Command

/-!
# Three ways to hand in expressions

Expressions can be given in the command, written to a file with one a line, or sent to the standard
input. In the first way each of them is the first line of a text of its own; in the others it is the
line whose turn it is, has a line feed behind it, and comes out of bytes. None of this is seen by
the reader of an expression: the line feed is white space at the end, the number of the line is only
copied into places, and the name of the text is only shown. So the output is the same and the code
is the same, and what is shown of a fault differs only below its title.
-/

namespace Abacus

open Files (System Path)
open Options (Arguments Plan Progress resolve inputPath)
open Session (processLine lineReport reports start answer refuse worst codeOf okCode valueCode
  runCommand runArguments runPlan runExpressions eventsOfBytes expressionName standardName)

/-! ## What a line is blamed for -/

/-- The failure with which a line is answered: of the listing, if there is to be one, or else of the
evaluation. -/
def failureOf [Host] (settings : Settings) (source : String) (line : Int) : Option Failure :=
  (if settings.debug then (Token.table source line).2 else none).or
    (match evaluate source line settings.allowTrailing with
    | .ok _ => none
    | .error e => some e)

/-- The fault with which a line is answered. -/
def faultOf [Host] (settings : Settings) (source : String) (line : Int) : Option Fault :=
  match failureOf settings source line with
  | some (.fault f) => some f
  | _ => none

/-- What a line writes to the error stream: the listing, if there is to be one, and the snippet of
the fault. -/
def complaint [Host] (settings : Settings) (filename source : String) (line : Int) : String :=
  (if settings.debug then (Token.table source line).1 else "") ++
    match faultOf settings source line with
    | some f => f.snippet filename ++ "\n"
    | none => ""

/-- An expression that is not lost or taken for something else on any of the three ways. -/
structure Portable (e : String) : Prop where
  notBlank : Text.isBlankLine e = false
  unbroken : ∀ c ∈ e.toList, c ≠ '\n' ∧ c ≠ '\r'
  noDash : e.toList.head? ≠ some '-'
  noneOverlong : NoneOverlong e.toList

/-- The expressions, one a line. -/
def inLines (es : List String) : String :=
  String.join (es.map (· ++ "\n"))

/-- The expressions as lines of a text, with their numbers. -/
def numbered (es : List String) : List (String × Int) :=
  es.mapIdx fun i e => (e ++ "\n", (i + 1 : Nat))

/-- The expressions as texts of their own. -/
def alone (es : List String) : List (String × Int) :=
  es.map (·, 1)

/-- What lines write to the error stream. -/
def complaints [Host] (settings : Settings) (filename : String) (lines : List (String × Int)) :
    String :=
  String.join (lines.map fun p => complaint settings filename p.1 p.2)

/-- What is reported on lines, none of them blank, where nobody takes part. -/
def batch [Host] (settings : Settings) (filename : String) (lines : List (String × Int)) :
    Report Nat :=
  let rs := lines.map fun p => processLine settings p.1 p.2 filename
  .done ⟨String.join (rs.map (·.written.out)), String.join (rs.map (·.written.err))⟩ (worst rs)

/-- The faults that are shown of lines, in order. -/
def faultsOf [Host] (settings : Settings) (lines : List (String × Int)) : List Fault :=
  lines.filterMap fun p => faultOf settings p.1 p.2

variable {settings : Settings} {source source' filename e : String} {line : Int} {f : Fault}
  {es : List String} {r r' : Report Nat} {rs rs' : List (Report Nat)} {n : Nat}

theorem err_answer [Host] (settings : Settings) (source : String) (line : Int) (filename : String) :
    (answer settings source line filename).written.err =
      match evaluate source line settings.allowTrailing with
      | .ok _ => ""
      | .error e => (refuse filename e).written.err := by
  rw [answer]
  cases evaluate source line settings.allowTrailing <;> rfl

theorem err_processLine [Host] (settings : Settings) (source : String) (line : Int)
    (filename : String) :
    (processLine settings source line filename).written.err =
      complaint settings filename source line := by
  have hanswer := err_answer settings source line filename
  rw [processLine, complaint, faultOf, failureOf]
  cases settings.debug with
  | false =>
      simp only [Bool.false_eq_true, ↓reduceIte, hanswer, Option.none_or, String.empty_append]
      cases evaluate source line settings.allowTrailing with
      | ok v => rfl
      | error e => cases e <;> rfl
  | true =>
      simp only [↓reduceIte]
      generalize Token.table source line = listed
      obtain ⟨table, failure⟩ := listed
      cases failure with
      | some e => cases e <;> rfl
      | none =>
          show table ++ (answer settings source line filename).written.err = table ++ _
          rw [hanswer, Option.none_or]
          cases evaluate source line settings.allowTrailing with
          | ok v => rfl
          | error e => cases e <;> rfl

/-! ## The same faults -/

namespace Insertion

theorem failureOf_eq [Host] (I : Insertion source source') (settings : Settings) :
    failureOf settings source' I.line' = (failureOf settings source I.line).map I.failure := by
  rw [failureOf, failureOf, I.table_eq, I.evaluate_eq]
  cases settings.debug <;> cases (Token.table source I.line).2 <;>
    cases evaluate source I.line settings.allowTrailing <;> rfl

theorem faultOf_eq [Host] (I : Insertion source source') (settings : Settings) :
    faultOf settings source' I.line' = (faultOf settings source I.line).map I.fault := by
  rw [faultOf, faultOf, I.failureOf_eq]
  cases failureOf settings source I.line with
  | none => rfl
  | some e => cases e <;> rfl

/-- A line feed behind the whole text, which is another line now. -/
def feed (e : String) (line line' : Int) : Insertion e (e ++ "\n") :=
  .atEnd (fun _ => @Text.isBlank_of_mem_feed true _) String.toList_append line line'

end Insertion

theorem title_faultOf_feed [Host] (settings : Settings) (e : String) (line line' : Int) :
    (faultOf settings (e ++ "\n") line').map Fault.title =
      (faultOf settings e line).map Fault.title := by
  have h := (Insertion.feed e line line').faultOf_eq settings
  rw [show (Insertion.feed e line line').line' = line' from rfl,
    show (Insertion.feed e line line').line = line from rfl] at h
  rw [h, Option.map_map]
  congr 1
  funext f
  exact Insertion.title_fault _ f

/-- What is the same for an expression with a line feed, whatever its number, is the same for all of
them. -/
theorem map_numbered {α : Type} (es : List String) {g : String × Int → α} {h : String × Int → α}
    (hgh : ∀ e ∈ es, ∀ line, h (e ++ "\n", line) = g (e, 1)) :
    (numbered es).map h = (alone es).map g := by
  refine List.ext_getElem (by simp [numbered, alone]) fun i hi hi' => ?_
  have hlt : i < es.length := by simpa [alone] using hi'
  simp only [numbered, alone, List.getElem_map, List.getElem_mapIdx]
  exact hgh _ (List.getElem_mem hlt) _

theorem title_faultsOf [Host] (settings : Settings) (es : List String) :
    (faultsOf settings (numbered es)).map Fault.title =
      (faultsOf settings (alone es)).map Fault.title := by
  have htitles := map_numbered es
    (g := fun p => (faultOf settings p.1 p.2).map Fault.title)
    (h := fun p => (faultOf settings p.1 p.2).map Fault.title)
    fun e _ line => title_faultOf_feed settings e 1 line
  have hmap : ∀ lines : List (String × Int), (faultsOf settings lines).map Fault.title =
      (lines.map fun p => (faultOf settings p.1 p.2).map Fault.title).filterMap id := by
    intro lines
    rw [faultsOf, List.map_filterMap, List.filterMap_map]
    rfl
  rw [hmap, hmap, htitles]

/-! ## Titles -/

/-- What comes of the listing of a line is a title in one line, as well. -/
theorem plain_of_table (hlen : NoneOverlong source.toList)
    (h : (Token.table source line).2 = some (.fault f)) : f.cause.Plain := by
  have hlisting : ∀ c : Cursor, c.Cleared source line → c.listing.2 = some (.fault f) →
      f.cause.Plain := by
    intro c hc he
    induction c using Cursor.listing_induction with
    | error c e hnext =>
        rw [Cursor.listing_of_error hnext, Option.some.injEq] at he
        have hitem := (placement_next hlen hc).1
        rw [hnext, he] at hitem
        obtain ⟨f', hf', -, hplain⟩ := hitem
        cases hf'
        exact hplain
    | endOfInput c t hnext hk =>
        rw [Cursor.listing_of_endOfInput hnext hk] at he
        cases he
    | token c t hnext hk ih =>
        rw [Cursor.listing_of_token hnext hk] at he
        exact ih (placement_next hlen hc).2 he
  exact hlisting _ Cursor.cleared_ofSource h

theorem plain_of_faultOf [Host] (hlen : NoneOverlong source.toList)
    (h : faultOf settings source line = some f) : f.cause.Plain := by
  have hfailure : failureOf settings source line = some (.fault f) := by
    rw [faultOf] at h
    split at h
    · next hf => cases h; exact hf
    · cases h
  rw [failureOf, Option.or_eq_some_iff] at hfailure
  rcases hfailure with htable | ⟨-, heval⟩
  · split at htable
    · exact plain_of_table hlen htable
    · cases htable
  · split at heval
    · cases heval
    · next e he =>
        cases heval
        obtain ⟨f', hf', -, hplain⟩ := exists_fault_of_evaluate hlen he
        cases hf'
        exact hplain

/-! ## One run -/

theorem err_batch [Host] (settings : Settings) (filename : String) (lines : List (String × Int)) :
    (batch settings filename lines).written.err = complaints settings filename lines := by
  show String.join _ = String.join _
  rw [List.map_map]
  congr 2
  funext p
  exact err_processLine ..

theorem batch_agrees [Host] (settings : Settings) (filename filename' : String) (es : List String) :
    (batch settings filename (alone es)).AgreesWith
      (batch settings filename' (numbered es)) := by
  have hagrees : ∀ e line, (processLine settings e 1 filename).AgreesWith
      (processLine settings (e ++ "\n") line filename') := fun e line =>
    Session.processLine_put (.feed e 1 line) settings filename filename'
  constructor
  · show String.join _ = String.join _
    rw [List.map_map, List.map_map]
    exact congrArg String.join (map_numbered es fun e _ line => (hagrees e line).1)
  · show Except.ok (worst _) = Except.ok (worst _)
    rw [worst, worst, List.map_map, List.map_map]
    have hcodes := map_numbered es
      (g := codeOf ∘ fun p => processLine settings p.1 p.2 filename)
      (h := codeOf ∘ fun p => processLine settings p.1 p.2 filename')
      fun e _ line => congrArg (fun r => r.toOption.getD okCode) (hagrees e line).2
    rw [hcodes]

theorem Portable.finishes [Host] (h : Portable e) (settings : Settings) (line : Int)
    (filename : String) : (processLine settings e line filename).Finishes := by
  rcases Session.processLine_ends settings e line filename with ⟨code, -, hcode⟩ | ⟨n, hn, -⟩
  · exact ⟨code, hcode⟩
  · exact absurd hn (h.noneOverlong.not_holdsOverlong n)

/-! ## The three runs -/

theorem worst_cons {r : Report Nat} {code : Nat} (h : r.ended = .ok code) (rs : List (Report Nat)) :
    worst (r :: rs) = max code (worst rs) := by
  rw [worst, List.map_cons, List.foldr_cons, codeOf, h]
  rfl

theorem runExpressions_eq [Host] (settings : Settings) (hes : ∀ e ∈ es, Portable e) (status : Nat) :
    runExpressions settings status (es.map .text) =
      ⟨(batch settings expressionName (alone es)).written,
        .ok (max status (worst ((alone es).map fun p =>
          processLine settings p.1 p.2 expressionName)))⟩ := by
  induction es generalizing status with
  | nil => simp [runExpressions, batch, alone, worst, Report.done, Transcript.empty, okCode]
  | cons e es ih =>
      obtain ⟨he, hmore⟩ := List.forall_mem_cons.1 hes
      obtain ⟨code, hcode⟩ := he.finishes settings 1 expressionName
      have hfirst : (Session.runExpression settings (.text e)).ended = .ok code := hcode
      rw [List.map_cons, runExpressions, Report.andThen_of_ok hfirst, ih hmore]
      have halone : alone (e :: es) = (e, 1) :: alone es := rfl
      rw [halone, List.map_cons, worst_cons hcode, Report.after, Nat.max_assoc]
      congr 1
      ext1 <;> simp [batch, Report.done, Session.runExpression]

theorem toList_inLines_cons (e : String) (es : List String) :
    (inLines (e :: es)).toList = e.toList ++ '\n' :: (inLines es).toList := by
  simp [inLines]

theorem feedLines_inLines (hes : ∀ e ∈ es, Portable e) :
    Text.feedLines (String.ofList (Text.normalizeBreaks (inLines es).toList)) =
      es.map (· ++ "\n") := by
  have hmarked : Text.markedLines (inLines es).toList = es.map fun e => (e.toList, true) := by
    induction es with
    | nil => rfl
    | cons e es ih =>
        obtain ⟨he, hmore⟩ := List.forall_mem_cons.1 hes
        rw [toList_inLines_cons, Text.markedLines_feed he.unbroken, ih hmore, List.map_cons]
  rw [Text.feedLines, String.toList_ofList, Text.cutAfterFeeds_normalizeBreaks, hmarked,
    List.map_map, List.map_map]
  refine List.map_congr_left fun e _ => ?_
  show String.ofList (e.toList ++ "\n".toList) = e ++ "\n"
  rw [← String.toList_append, String.ofList_toList]

theorem runAll_inLines [Host] (settings : Settings) (filename : String)
    (hes : ∀ e ∈ es, Portable e) :
    (start settings false filename).runAll (eventsOfBytes (inLines es).toUTF8.data.toList) =
      batch settings filename (numbered es) := by
  have hreports : (start settings false filename).reports (es.map (· ++ "\n")) =
      (numbered es).map fun p => processLine settings p.1 p.2 filename := by
    refine List.ext_getElem (by simp [reports, numbered]) fun i hi hi' => ?_
    have hlt : i < es.length := by simpa [numbered] using hi'
    have hblank : Text.isBlankLine (es[i] ++ "\n") = false := by
      have hnot := (hes _ (List.getElem_mem hlt)).notBlank
      rw [Text.isBlankLine] at hnot ⊢
      rw [String.toList_append, List.all_append, hnot]
      rfl
    simp [reports, numbered, lineReport, hblank, start]
  have hfinishes : ∀ r ∈ (start settings false filename).reports (es.map (· ++ "\n")),
      r.Finishes := by
    intro r hr
    rw [hreports] at hr
    obtain ⟨p, hp, rfl⟩ := List.mem_map.1 hr
    obtain ⟨i, hi, rfl⟩ := List.mem_mapIdx.1 hp
    obtain ⟨code, hcode⟩ := (hes _ (List.getElem_mem hi)).finishes settings 1 filename
    have hagrees := Session.processLine_put (.feed es[i] 1 (i + 1 : Nat)) settings filename filename
    exact ⟨code, hagrees.2.trans hcode⟩
  rw [eventsOfBytes, Text.decodeLenient_toUTF8, Session.events, feedLines_inLines hes,
    Session.runAll_batch hfinishes, hreports]
  rfl

/-! ## One command, three ways -/

/-- What a command asks for depends on its input and its expressions in nothing else. -/
theorem resolve_put (files : System) (a : Arguments) (directory : Path) (input : Option String)
    (expressions : List Options.Argument) :
    resolve files { a with input := input, expressions := expressions } directory =
      (resolve files a directory).map fun plan =>
        { plan with input := inputPath input, expressions := expressions } := by
  rw [resolve, resolve]
  dsimp only
  cases Options.loadConfig files (Options.configPath (a.config.bind Options.Argument.text?)
    directory) <;> rfl

theorem runArguments_put [Host] {a : Arguments} (files : System) (stdin : StandardInput)
    (input : Option String) (expressions : List Options.Argument) :
    runArguments files stdin { a with input := input, expressions := expressions } =
      match resolve files a (.ofString ".") with
      | .ok plan => runPlan files stdin
          { plan with input := inputPath input, expressions := expressions }
      | .error _ => runArguments files ⟨[], false⟩ a := by
  rw [runArguments, runArguments, resolve_put]
  cases resolve files a (.ofString ".") with
  | ok plan => rfl
  | error fault => cases fault <;> rfl

variable {files : System} {stdin : StandardInput} {plan : Plan}

theorem runPlan_expressions [Host] (hne : es ≠ []) (hes : ∀ e ∈ es, Portable e)
    (hexpressions : plan.expressions = es.map .text) :
    runPlan files stdin plan = batch plan.settings expressionName (alone es) := by
  have hempty : plan.expressions.isEmpty = false := by
    rw [hexpressions]
    simpa using hne
  rw [runPlan, hempty, if_neg (by simp), hexpressions, runExpressions_eq _ hes, okCode,
    Nat.zero_max]
  rfl

theorem runPlan_file [Host] {path : Path} {bytes : List UInt8}
    (hexpressions : plan.expressions = []) (hinput : plan.input = some path)
    (hfile : files path = .ok bytes) :
    runPlan files stdin plan =
      (start plan.settings false path.toString).runAll (eventsOfBytes bytes) := by
  rw [runPlan, hexpressions, List.isEmpty_nil, if_pos rfl, hinput]
  show Session.runFile files plan.settings path = _
  rw [Session.runFile, hfile]

theorem runPlan_stdin [Host] (hexpressions : plan.expressions = []) (hinput : plan.input = none)
    (bytes : List UInt8) :
    runPlan files ⟨eventsOfBytes bytes, false⟩ plan =
      (start plan.settings false standardName).runAll (eventsOfBytes bytes) := by
  -- No prompt is shown where no user takes part, and so none can be missing.
  have hshows : (start plan.settings false standardName).shows = false := rfl
  rw [runPlan, hexpressions, List.isEmpty_nil, if_pos rfl, hinput]
  show Session.runInput _ plan = _
  rw [Session.runInput]
  dsimp only
  rw [hshows, Bool.false_and, if_neg (by simp)]

theorem ended_batch [Host] (settings : Settings) (filename : String) (lines : List (String × Int)) :
    ∃ code ≤ valueCode, (batch settings filename lines).ended = .ok code := by
  have hended : (batch settings filename lines).ended =
      .ok (worst (lines.map fun p => processLine settings p.1 p.2 filename)) := rfl
  refine ⟨_, Session.worst_le fun r hr => ?_, hended⟩
  obtain ⟨p, hp, rfl⟩ := List.mem_map.1 hr
  exact Session.codeOf_processLine_le ..

/-- A command with flags alone, which may be any words that it can be read from and that name no
input and no expression. Some expressions are given to it in the command, or in a file that it is
told to read, or on the standard input, where no user takes part. If the configuration cannot be
used, the same is said of that, whichever way is taken. Otherwise the three runs come to an end,
with the same output and the same code. On the error stream they show the faults of the expressions
in order. The titles of these are the same, and are what each snippet shows in its first line. -/
theorem routes_agree [Host] (files : System) (stdin : StandardInput) {flags es : List String}
    {name : String} {path : Path} {a : Arguments} (hsep : "--" ∉ flags)
    (hflags : Arguments.ofWords flags = .ok a) (hinput : a.input = none)
    (hexpressions : a.expressions = []) (hname : Options.Word.ofString name = .ok (.plain name))
    (hpath : inputPath (some name) = some path) (hne : es ≠ []) (hes : ∀ e ∈ es, Portable e)
    (hfile : files path = .ok (inLines es).toUTF8.data.toList) :
    let given := runCommand files stdin (flags ++ es.flatMap fun e => ["-e", e])
    let read := runCommand files stdin (flags ++ [name])
    let piped := runCommand files ⟨eventsOfBytes (inLines es).toUTF8.data.toList, false⟩ flags
    given.AgreesWith read ∧ given.AgreesWith piped ∧
    ((∃ fault, resolve files a (.ofString ".") = .error fault ∧ read = given ∧ piped = given) ∨
      ∃ plan, resolve files a (.ofString ".") = .ok plan ∧
        (∃ code ≤ valueCode, given.ended = .ok code) ∧
        given.written.err = complaints plan.settings expressionName (alone es) ∧
        read.written.err = complaints plan.settings path.toString (numbered es) ∧
        piped.written.err = complaints plan.settings standardName (numbered es) ∧
        (faultsOf plan.settings (numbered es)).map Fault.title =
          (faultsOf plan.settings (alone es)).map Fault.title ∧
        ∀ f ∈ faultsOf plan.settings (alone es), OneLine f.title ∧
          ∀ filename, ∃ more, f.snippet filename = f.title ++ "\n" ++ more) := by
  intro given read piped
  have hdash : ∀ e ∈ es, e.toList.head? ≠ some '-' := fun e he => (hes e he).noDash
  have hgiven : given = runArguments files stdin
      { a with input := a.input, expressions := es.map .text } := by
    show runCommand _ _ _ = _
    rw [runCommand, Arguments.ofWords_expressions hsep hflags hdash, hexpressions]
    rfl
  have hread : read = runArguments files stdin
      { a with input := some name, expressions := a.expressions } := by
    show runCommand _ _ _ = _
    rw [runCommand, Arguments.ofWords_input hsep hflags hinput hname]
  have hpiped : piped = runArguments files
      ⟨eventsOfBytes (inLines es).toUTF8.data.toList, false⟩
      { a with input := a.input, expressions := a.expressions } := by
    show runCommand _ _ _ = _
    rw [runCommand, hflags]
  rw [runArguments_put] at hgiven hread hpiped
  cases hplan : resolve files a (.ofString ".") with
  | error fault =>
      rw [hplan] at hgiven hread hpiped
      have hread' : read = given := hread.trans hgiven.symm
      have hpiped' : piped = given := hpiped.trans hgiven.symm
      rw [hread', hpiped']
      exact ⟨⟨rfl, rfl⟩, ⟨rfl, rfl⟩, .inl ⟨fault, rfl, rfl, rfl⟩⟩
  | ok plan =>
      rw [hplan] at hgiven hread hpiped
      dsimp only at hgiven hread hpiped
      rw [runPlan_expressions hne hes rfl] at hgiven
      rw [runPlan_file hexpressions hpath hfile, runAll_inLines _ _ hes] at hread
      rw [runPlan_stdin hexpressions (by rw [hinput]; rfl), runAll_inLines _ _ hes] at hpiped
      rw [hgiven, hread, hpiped]
      refine ⟨batch_agrees .., batch_agrees .., .inr ⟨plan, rfl, ended_batch ..,
        err_batch .., err_batch .., err_batch .., title_faultsOf .., fun f hf => ⟨?_,
        f.exists_snippet_eq⟩⟩⟩
      obtain ⟨p, hp, hf⟩ := List.mem_filterMap.1 hf
      obtain ⟨e, he, rfl⟩ := List.mem_map.1 hp
      exact Fault.oneLine_title (plain_of_faultOf (hes e he).noneOverlong hf)

theorem portable_sums : ∀ e ∈ ["1+", "2*3"], Portable e := by
  intro e he
  rcases List.mem_pair.1 he with rfl | rfl
  · exact ⟨by decide, by simp, by decide, noneOverlong_of_length (by decide)⟩
  · exact ⟨by decide, by simp, by decide, noneOverlong_of_length (by decide)⟩

/-- With a listing of the tokens asked for, one expression that breaks off and one with a value. -/
theorem routes_agree_debug :
    let es := ["1+", "2*3"]
    let files : System := fun path =>
      if path = .ofString "sums" then .ok (inLines es).toUTF8.data.toList else .error .missing
    let given := runCommand files ⟨[], false⟩ ["--debug", "-e", "1+", "-e", "2*3"]
    let read := runCommand files ⟨[], false⟩ ["--debug", "sums"]
    let piped := runCommand files ⟨eventsOfBytes (inLines es).toUTF8.data.toList, false⟩ ["--debug"]
    (given.AgreesWith read ∧ given.AgreesWith piped) ∧
    given.written = ⟨"6\n", "  1:1 INTEGER 1\n  1:2 PLUS\n  1:3 EOF\n" ++
      "syntax error: expected integer or '(', found end of input\n" ++
      "  --> <expr>:1:3\n  |\n1 | 1+\n  |   ^\n" ++
      "  1:1 INTEGER 2\n  1:2 MUL\n  1:3 INTEGER 3\n  1:4 EOF\n"⟩ ∧
    given.ended = .ok 1 := by
  intro es files given read piped
  have hagree := routes_agree files ⟨[], false⟩
    (show "--" ∉ ["--debug"] by decide)
    (show Arguments.ofWords ["--debug"] = .ok { Arguments.none with debug := true } from rfl)
    rfl rfl
    (show Options.Word.ofString "sums" = .ok (.plain "sums") from rfl)
    (show inputPath (some "sums") = some (.ofString "sums") from rfl)
    (show es ≠ [] by decide) portable_sums (if_pos rfl)
  refine ⟨⟨hagree.1, hagree.2.1⟩, ?_, ?_⟩
  · decide +kernel
  · decide +kernel

end Abacus

import Mathlib.Data.List.Perm.Basic
import Abacus.Proofs.Insertion
import Abacus.Session.Loop

/-!
# A session line by line

A session keeps nothing from one line to the next but their number and the worst code. So what it
writes is what the lines write, each answered on its own, with the prompts between; and the code
that it ends with is the greatest of theirs. The report on a line depends on its number only where
the snippet shows it, which is on the error stream. The output and the code are the same on any
line, and that is why the order of the lines does not matter to the code of the session.

A banner and prompts are shown to a user who takes part and has not asked for quiet, and they go to
the output stream. At the end one more prompt is left without an answer.
-/

namespace Abacus

open Session

variable {α β : Type}

namespace Report

/-- Nothing that the report tells of went wrong beyond what a session is prepared for. -/
def Finishes (r : Report α) : Prop :=
  ∃ a, r.ended = .ok a

/-- The same output and the same end; the error streams may differ. -/
def AgreesWith (r r' : Report α) : Prop :=
  r'.written.out = r.written.out ∧ r'.ended = r.ended

theorem after_after (v w : Transcript) (r : Report α) : (r.after w).after v = r.after (v ++ w) := by
  simp [after, Transcript.append_assoc]

theorem andThen_of_ok {r : Report α} {a : α} (h : r.ended = .ok a) (next : α → Report β) :
    r.andThen next = (next a).after r.written := by
  rw [andThen, h]

theorem andThen_of_error {r : Report α} {e : Accident} (h : r.ended = .error e)
    (next : α → Report β) : r.andThen next = ⟨r.written, .error e⟩ := by
  rw [andThen, h]

theorem AgreesWith.after {r r' : Report α} {v v' : Transcript} (h : r.AgreesWith r')
    (hout : v'.out = v.out) : (r.after v).AgreesWith (r'.after v') := by
  refine ⟨?_, h.2⟩
  simp [Report.after, hout, h.1]

end Report

namespace Session

/-- What is written for these reports: their texts in order, with a prompt before each output. -/
def answers (s : Session) (rs : List (Report Nat)) : Transcript :=
  ⟨String.join (rs.map fun r => s.prompt.out ++ r.written.out),
    String.join (rs.map fun r => r.written.err)⟩

/-- The code that a report ends with, if it comes to one. -/
def codeOf (r : Report Nat) : Nat :=
  r.ended.toOption.getD okCode

/-- The greatest code. -/
def worst (rs : List (Report Nat)) : Nat :=
  (rs.map codeOf).foldr max okCode

/-- The session after a line with the given code. -/
def counting (s : Session) (code : Nat) : Session :=
  { s with lines := s.lines + 1, status := max s.status code }

variable {s : Session} {settings : Settings} {text text' filename filename' source source' : String}
  {texts texts' : List String} {r : Report Nat} {rs : List (Report Nat)} {code : Nat} {e : Accident}
  {ending : List Event} {number number' : Nat} {line line' : Int}

theorem refuse_out (filename : String) (e : Failure) : (refuse filename e).written.out = "" := by
  cases e <;> rfl

theorem refuse_agrees (I : Insertion source source') (e : Failure) :
    (refuse filename e).AgreesWith (refuse filename' (I.failure e)) := by
  refine ⟨by rw [refuse_out, refuse_out], ?_⟩
  cases e with
  | overlong digits => rfl
  | fault f =>
      have hcode : faultCode (I.fault f) = faultCode f := by
        rw [faultCode, faultCode, Insertion.fault, Insertion.isEvaluation_cause]
      exact congrArg Except.ok hcode

@[simp]
theorem answers_nil : s.answers [] = .empty :=
  rfl

theorem answers_cons : s.answers (r :: rs) = s.prompt ++ r.written ++ s.answers rs := by
  ext1
  · simp [answers]
  · simp [answers, prompt, Transcript.ofOut]

/-- All that has been written when `w` comes behind the answers. -/
theorem greeting_answers (s : Session) (rs : List (Report Nat)) (w : Transcript) :
    s.greeting ++ (s.answers rs ++ w) =
      ⟨s.greeting.out ++ String.join (rs.map fun r => s.prompt.out ++ r.written.out) ++ w.out,
        String.join (rs.map fun r => r.written.err) ++ w.err⟩ := by
  ext1
  · exact String.append_assoc.symm
  · exact String.empty_append

theorem greeting_start (settings : Settings) (interactive : Bool) (filename : String) :
    (start settings interactive filename).greeting.out =
      if (interactive && !settings.quiet) = true ∧ settings.banner ≠ "" then
        settings.banner ++ "\n" else "" := by
  simp [greeting, shows, start, Transcript.ofOut]

theorem prompt_farewell (s : Session) :
    s.prompt ++ s.farewell = .ofOut (if s.shows then s.settings.prompt ++ "\n" else "") := by
  rw [prompt, farewell]
  split <;> rfl

theorem finishes_of_codes {codes : List Nat} (h : rs.map (·.ended) = codes.map .ok) :
    ∀ r ∈ rs, r.Finishes := by
  intro r hr
  have hmem : r.ended ∈ codes.map Except.ok := h ▸ List.mem_map_of_mem hr
  obtain ⟨code, -, hcode⟩ := List.mem_map.1 hmem
  exact ⟨code, hcode.symm⟩

section

variable [Host]

/-! ## One line -/

/-- The report on one line; there is nothing to say of a blank one. -/
def lineReport (settings : Settings) (filename : String) (number : Nat) (text : String) :
    Report Nat :=
  if Text.isBlankLine text then .done .empty okCode else processLine settings text number filename

/-- The reports on the lines that come next. -/
def reports (s : Session) (texts : List String) : List (Report Nat) :=
  texts.mapIdx fun i text => lineReport s.settings s.filename (s.lines + i + 1) text

theorem answer_cases (settings : Settings) (source : String) (line : Int) (filename : String) :
    (∃ v, evaluate source line settings.allowTrailing = .ok v ∧
      answer settings source line filename = .done (.ofOut s!"{v}\n") okCode) ∨
    ∃ e, evaluate source line settings.allowTrailing = .error e ∧
      answer settings source line filename = refuse filename e := by
  rw [answer]
  cases evaluate source line settings.allowTrailing with
  | ok v => exact .inl ⟨v, rfl, rfl⟩
  | error e => exact .inr ⟨e, rfl, rfl⟩

/-- A line ends with a value, or with a failure that was met while it was read, or listed. -/
theorem processLine_cases (settings : Settings) (source : String) (line : Int) (filename : String) :
    (∃ v, evaluate source line settings.allowTrailing = .ok v ∧
      (processLine settings source line filename).ended = .ok okCode) ∨
    ∃ e, (processLine settings source line filename).written.out = "" ∧
      (processLine settings source line filename).ended = (refuse filename e).ended ∧
      (evaluate source line settings.allowTrailing = .error e ∨
        (Token.table source line).2 = some e) := by
  have hout : ∀ table e, ((refuse filename e).after (.ofErr table)).written.out = "" := by
    intro table e
    rw [Report.after, Transcript.out_append, refuse_out]
    rfl
  rw [processLine]
  split
  · split
    · next table e htable => exact .inr ⟨e, hout table e, rfl, .inr (by rw [htable])⟩
    · next table htable =>
        rcases answer_cases settings source line filename with ⟨v, hv, h⟩ | ⟨e, he, h⟩
        · exact .inl ⟨v, hv, by rw [h]; rfl⟩
        · rw [h]
          exact .inr ⟨e, hout table e, rfl, .inl he⟩
  · rcases answer_cases settings source line filename with ⟨v, hv, h⟩ | ⟨e, he, h⟩
    · exact .inl ⟨v, hv, by rw [h]; rfl⟩
    · rw [h]
      exact .inr ⟨e, refuse_out filename e, rfl, .inl he⟩

theorem feed_eq (s : Session) (text : String) :
    s.feed text = (lineReport s.settings s.filename (s.lines + 1) text).andThen fun code =>
      .done .empty (s.counting code) := by
  rw [feed, lineReport]
  split
  · simp [Report.done, Report.andThen, Report.after, counting, okCode]
  · rfl

theorem run_line_of_ok
    (h : (lineReport s.settings s.filename (s.lines + 1) text).ended = .ok code) :
    s.run (.line text :: ending) = ((s.counting code).run ending).after
      (s.prompt ++ (lineReport s.settings s.filename (s.lines + 1) text).written) := by
  rw [run, feed_eq, Report.andThen_of_ok h, Report.andThen_of_ok rfl, Report.after_after]
  simp [Report.done, Report.after]

theorem run_line_of_error
    (h : (lineReport s.settings s.filename (s.lines + 1) text).ended = .error e) :
    s.run (.line text :: ending) =
      ⟨s.prompt ++ (lineReport s.settings s.filename (s.lines + 1) text).written, .error e⟩ := by
  rw [run, feed_eq, Report.andThen_of_error h, Report.andThen_of_error rfl]
  rfl

/-! ## All lines -/

theorem reports_cons (code : Nat) : s.reports (text :: texts) =
    lineReport s.settings s.filename (s.lines + 1) text :: (s.counting code).reports texts := by
  rw [reports, reports, List.mapIdx_cons]
  simp only [counting, Nat.add_assoc, Nat.add_comm 1]

/-- The session after lines that all come to a code. -/
def past (s : Session) (texts : List String) : Session :=
  { s with lines := s.lines + texts.length, status := max s.status (worst (s.reports texts)) }

theorem past_cons (h : (lineReport s.settings s.filename (s.lines + 1) text).ended = .ok code) :
    s.past (text :: texts) = (s.counting code).past texts := by
  have hworst : worst (s.reports (text :: texts)) =
      max code (worst ((s.counting code).reports texts)) := by
    rw [reports_cons code, worst, List.map_cons, List.foldr_cons, codeOf, h]
    rfl
  rw [past, past, hworst, ← Nat.max_assoc]
  simp only [counting, List.length_cons, Nat.add_assoc, Nat.add_comm 1]

/-- Lines that all come to a code are answered one after the other. -/
theorem run_lines (h : ∀ r ∈ s.reports texts, r.Finishes) :
    s.run (texts.map .line ++ ending) =
      ((s.past texts).run ending).after (s.answers (s.reports texts)) := by
  -- Each line leaves a session with other counters, so the session is not fixed.
  induction texts generalizing s with
  | nil =>
      have hpast : s.past [] = s := by simp [past, worst, reports, okCode]
      rw [hpast]
      simp [reports, Report.after]
  | cons text texts ih =>
      obtain ⟨code, hcode⟩ := h (lineReport s.settings s.filename (s.lines + 1) text)
        (by rw [reports_cons 0]; simp)
      rw [reports_cons code] at h ⊢
      rw [List.map_cons, List.cons_append, run_line_of_ok hcode,
        ih fun r hr => h r (by simp [hr]), Report.after_after, past_cons hcode, answers_cons]
      rfl

/-- An accident on a line ends the session there. -/
theorem run_lines_of_error {before later : List (Report Nat)}
    (hrs : s.reports texts = before ++ r :: later) (hbefore : ∀ q ∈ before, q.Finishes)
    (he : r.ended = .error e) (ending : List Event) :
    s.run (texts.map .line ++ ending) =
      ⟨s.answers before ++ (s.prompt ++ r.written), .error e⟩ := by
  induction texts generalizing s before with
  | nil => simp [reports] at hrs
  | cons text texts ih =>
      rw [List.map_cons, List.cons_append]
      -- The line with the accident is this one, or else this line is one of those before it.
      cases before with
      | nil =>
          rw [reports_cons 0, List.nil_append, List.cons.injEq] at hrs
          obtain ⟨rfl, -⟩ := hrs
          rw [run_line_of_error he, answers_nil, Transcript.empty_append]
      | cons q before =>
          obtain ⟨code, hcode⟩ := hbefore q (by simp)
          rw [reports_cons code, List.cons_append, List.cons.injEq] at hrs
          obtain ⟨rfl, hrs⟩ := hrs
          rw [run_line_of_ok hcode, ih hrs fun q hq => hbefore q (by simp [hq]), answers_cons]
          simp only [Report.after, Transcript.append_assoc]
          rfl

/-! ## The same line elsewhere -/

theorem answer_put (I : Insertion source source') (settings : Settings)
    (filename filename' : String) :
    (answer settings source I.line filename).AgreesWith
      (answer settings source' I.line' filename') := by
  rw [answer, answer, I.evaluate_eq]
  cases evaluate source I.line settings.allowTrailing with
  | ok v => exact ⟨rfl, rfl⟩
  | error e => exact refuse_agrees _ e

/-- With white space put in, a text has the same output and the same code. -/
theorem processLine_put (I : Insertion source source') (settings : Settings)
    (filename filename' : String) :
    (processLine settings source I.line filename).AgreesWith
      (processLine settings source' I.line' filename') := by
  have hanswer := answer_put I settings filename filename'
  have htable := I.table_eq
  rw [processLine, processLine]
  cases settings.debug with
  | false => exact hanswer
  | true =>
      generalize Token.table source I.line = listed at htable ⊢
      generalize Token.table source' I.line' = listed' at htable ⊢
      obtain ⟨table, failure⟩ := listed
      obtain ⟨table', failure'⟩ := listed'
      dsimp only at htable
      subst htable
      cases failure with
      | none => exact hanswer.after rfl
      | some e => exact (refuse_agrees _ e).after rfl

/-- On another line, or under another name, a text has the same output and the same code. -/
theorem processLine_agrees (settings : Settings) (source filename filename' : String)
    (line line' : Int) :
    (processLine settings source line filename).AgreesWith
      (processLine settings source line' filename') :=
  processLine_put (.renumber source line line') settings filename filename'

theorem lineReport_agrees (settings : Settings) (text filename filename' : String)
    (number number' : Nat) :
    (lineReport settings filename number text).AgreesWith
      (lineReport settings filename' number' text) := by
  rw [lineReport, lineReport]
  split
  · exact ⟨rfl, rfl⟩
  · exact processLine_agrees ..

/-- What a line is answered with, as far as it does not depend on where the line stands. -/
theorem ended_of_mem_reports (h : r ∈ s.reports texts) :
    ∃ text ∈ texts, r.ended = (lineReport s.settings s.filename 1 text).ended := by
  rw [reports, List.mem_mapIdx] at h
  obtain ⟨i, hi, rfl⟩ := h
  exact ⟨texts[i], List.getElem_mem hi, (lineReport_agrees ..).2⟩

theorem finishes_of_mem_texts (h : ∀ r ∈ s.reports texts, r.Finishes) (hmem : text ∈ texts) :
    (lineReport s.settings s.filename 1 text).Finishes := by
  obtain ⟨i, hi, rfl⟩ := List.getElem_of_mem hmem
  obtain ⟨code, hcode⟩ := h _ (List.mem_mapIdx.2 ⟨i, hi, rfl⟩)
  exact ⟨code, (lineReport_agrees ..).2.trans hcode⟩

theorem worst_reports (s : Session) (texts : List String) :
    worst (s.reports texts) = (texts.map fun text =>
      codeOf (lineReport s.settings s.filename 1 text)).foldr max okCode := by
  have hcodes : (s.reports texts).map codeOf =
      texts.map fun text => codeOf (lineReport s.settings s.filename 1 text) := by
    refine List.ext_getElem (by simp [reports]) fun i hi hi' => ?_
    have hlt : i < texts.length := by simpa using hi'
    have hagrees := lineReport_agrees s.settings texts[i] s.filename s.filename 1 (s.lines + i + 1)
    simp only [reports, List.getElem_map, List.getElem_mapIdx, codeOf, hagrees.2]
  rw [worst, hcodes]

/-! ## The whole session -/

theorem runAll_lines (h : ∀ r ∈ s.reports texts, r.Finishes) (ending : List Event)
    (hending : ending = [] ∨ ∃ later, ending = .interrupt :: later) :
    s.runAll (texts.map .line ++ ending) =
      .done (s.greeting ++ (s.answers (s.reports texts) ++ (s.prompt ++ s.farewell)))
        (s.past texts).exitCode := by
  have hrun : (s.past texts).run ending =
      .done (s.prompt ++ s.farewell) (s.past texts).exitCode := by
    rcases hending with rfl | ⟨later, rfl⟩ <;> rfl
  rw [runAll, run_lines h, hrun, Report.after_after]
  simp only [Report.after, Report.done, Transcript.append_assoc]

/-- Where nobody takes part, nothing but what the lines wrote is left. -/
theorem runAll_batch (h : ∀ r ∈ (start settings false filename).reports texts, r.Finishes) :
    (start settings false filename).runAll (texts.map .line) =
      .done ⟨String.join (((start settings false filename).reports texts).map (·.written.out)),
          String.join (((start settings false filename).reports texts).map (·.written.err))⟩
        (worst ((start settings false filename).reports texts)) := by
  have hrun := runAll_lines h [] (.inl rfl)
  have hcode : ((start settings false filename).past texts).exitCode =
      worst ((start settings false filename).reports texts) := Nat.zero_max _
  rw [List.append_nil, hcode] at hrun
  rw [hrun]
  congr 1
  ext1
  · simp [answers, greeting, prompt, farewell, shows, start, Transcript.ofOut]
  · simp [answers, greeting, prompt, farewell, shows, start, Transcript.ofOut]

theorem runAll_of_perm (hp : texts'.Perm texts) (h : ∀ r ∈ s.reports texts, r.Finishes) :
    (s.runAll (texts'.map .line)).ended = (s.runAll (texts.map .line)).ended := by
  have h' : ∀ r ∈ s.reports texts', r.Finishes := by
    intro r hr
    obtain ⟨text, hmem, hended⟩ := ended_of_mem_reports hr
    obtain ⟨code, hcode⟩ := finishes_of_mem_texts h (hp.subset hmem)
    exact ⟨code, hended.trans hcode⟩
  have hworst : worst (s.reports texts') = worst (s.reports texts) := by
    rw [worst_reports, worst_reports]
    exact (hp.map _).foldr_eq _
  have hall := runAll_lines h [] (.inl rfl)
  have hall' := runAll_lines h' [] (.inl rfl)
  rw [List.append_nil] at hall hall'
  have hcode : (s.past texts').exitCode = (s.past texts).exitCode := by
    show (if s.interactive then okCode else max s.status (worst (s.reports texts'))) = _
    rw [hworst]
    rfl
  rw [hall, hall', hcode]
  rfl

theorem reports_start (settings : Settings) (interactive : Bool) (filename : String)
    (texts : List String) :
    (start settings interactive filename).reports texts = texts.mapIdx fun i line =>
      if Text.isBlankLine line then ⟨⟨"", ""⟩, .ok 0⟩
      else processLine settings line (i + 1 : Nat) filename := by
  simp only [reports, start, Nat.zero_add]
  rfl

theorem exitCode_past {codes : List Nat} (interactive : Bool)
    (h : ((start settings interactive filename).reports texts).map (·.ended) = codes.map .ok) :
    ((start settings interactive filename).past texts).exitCode =
      if interactive then 0 else codes.foldr max 0 := by
  have hcodes : ((start settings interactive filename).reports texts).map codeOf = codes := by
    have hended := congrArg (List.map fun x : Except Accident Nat => x.toOption.getD okCode) h
    rw [List.map_map, List.map_map] at hended
    exact hended.trans (List.map_id codes)
  show (if interactive then okCode else
    max okCode (worst ((start settings interactive filename).reports texts))) = _
  rw [worst, hcodes, okCode, Nat.zero_max]

/-- A session on a stream, line by line; banner and prompts are shown if a user takes part and has
not asked for quiet. If no line meets with an accident, the output is the banner on a line of its
own, unless it is empty, then the output of each line after a prompt, and at the end one more prompt
and a line feed, whether the stream ends or the user breaks off; the error stream holds what the
lines wrote there, in order; and the code is the greatest of theirs, or none if a user takes part.
An accident ends the session, and everything written before it stays. The order of the lines does
not matter to the code, since neither their numbers nor the name of the input matter to the output
and the code of a line. -/
theorem runAll_line_by_line (settings : Settings) (interactive : Bool) (filename text : String)
    (later : List Event) :
    let s := start settings interactive filename
    let shown := interactive && !settings.quiet
    let banner := if shown = true ∧ settings.banner ≠ "" then settings.banner ++ "\n" else ""
    let prompt := if shown then settings.prompt else ""
    let last := if shown then settings.prompt ++ "\n" else ""
    let rs : List (Report Nat) := (Text.feedLines text).mapIdx fun i line =>
      if Text.isBlankLine line then ⟨⟨"", ""⟩, .ok 0⟩
      else processLine settings line (i + 1 : Nat) filename
    let out (rs : List (Report Nat)) := String.join (rs.map fun r => prompt ++ r.written.out)
    let err (rs : List (Report Nat)) := String.join (rs.map fun r => r.written.err)
    (∀ codes : List Nat, rs.map (·.ended) = codes.map .ok →
      let report : Report Nat := ⟨⟨banner ++ out rs ++ last, err rs⟩,
        .ok (if interactive then 0 else codes.foldr max 0)⟩
      s.runAll (events text) = report ∧ s.runAll (events text ++ .interrupt :: later) = report) ∧
    (∀ before r after e, rs = before ++ r :: after → (∀ q ∈ before, q.Finishes) →
      r.ended = .error e → s.runAll (events text ++ later) =
        ⟨⟨banner ++ out before ++ (prompt ++ r.written.out), err before ++ r.written.err⟩,
          .error e⟩) ∧
    (∀ lines : List String, lines.Perm (Text.feedLines text) → (∀ r ∈ rs, r.Finishes) →
      (s.runAll (lines.map .line)).ended = (s.runAll (events text)).ended) ∧
    (∀ line number number' filename', (processLine settings line number filename).AgreesWith
      (processLine settings line number' filename')) := by
  intro s shown banner prompt last rs out err
  have hrs : s.reports (Text.feedLines text) = rs := reports_start ..
  have hwritten : ∀ rs w, s.greeting ++ (s.answers rs ++ w) =
      ⟨banner ++ out rs ++ w.out, err rs ++ w.err⟩ := by
    intro rs w
    rw [greeting_answers, greeting_start]
    rfl
  refine ⟨fun codes hcodes => ?_, fun before r after e hsplit hbefore he => ?_,
    fun lines hp h => runAll_of_perm hp (hrs ▸ h),
    fun line number number' filename' => processLine_agrees ..⟩
  · have hfinishes : ∀ r ∈ s.reports (Text.feedLines text), r.Finishes :=
      finishes_of_codes (hrs ▸ hcodes)
    have hcode : (s.past (Text.feedLines text)).exitCode =
        if interactive then 0 else codes.foldr max 0 := exitCode_past interactive (hrs ▸ hcodes)
    have hlast : s.greeting ++ (s.answers rs ++ (s.prompt ++ s.farewell)) =
        ⟨banner ++ out rs ++ last, err rs⟩ := by
      rw [hwritten, prompt_farewell]
      exact congrArg _ String.append_empty
    have hall := runAll_lines hfinishes [] (.inl rfl)
    have hbroken := runAll_lines hfinishes (.interrupt :: later) (.inr ⟨later, rfl⟩)
    rw [List.append_nil] at hall
    rw [hrs, hlast, hcode] at hall hbroken
    exact ⟨hall, hbroken⟩
  · have hrun := run_lines_of_error (hrs.trans hsplit) hbefore he later
    rw [runAll, events, hrun]
    show (⟨s.greeting ++ (s.answers before ++ (s.prompt ++ r.written)), .error e⟩ : Report Nat) = _
    have herr : (s.prompt ++ r.written).err = r.written.err := String.empty_append
    rw [hwritten, herr]
    rfl

end

/-- A user is greeted, and asked four times: for a sum, a line left blank, a quotient without a
value, and the end of the input. -/
theorem runAll_line_by_line_greeted :
    let settings := { Settings.default with banner := "Good morning", prompt := "? " }
    let s := start settings true "<stdin>"
    let report : Report Nat := ⟨⟨"Good morning\n? 3\n? ? ? \n",
      "division by zero: right operand of '/' is zero\n  --> <stdin>:3:5\n  |\n3 | 4 / 0\n" ++
        "  |     ^\n"⟩, .ok 0⟩
    s.runAll (events "1 + 2\n\n4 / 0\n") = report ∧
      s.runAll (events "1 + 2\n\n4 / 0\n" ++ [.interrupt]) = report := by
  intro settings s report
  obtain ⟨hends, hbreaks⟩ := (runAll_line_by_line settings true "<stdin>" "1 + 2\n\n4 / 0\n" []).1
    [0, 0, 2] (by decide +kernel)
  rw [hends, hbreaks]
  refine and_self_iff.2 (congrArg (Report.mk · (.ok 0)) (Transcript.ext ?_ ?_))
  · decide +kernel
  · decide +kernel

end Session

end Abacus

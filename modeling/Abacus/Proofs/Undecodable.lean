import Abacus.Proofs.Agreement
import Abacus.Proofs.ByteLines
import Abacus.Proofs.Routes
import Abacus.Proofs.WellFormed

/-!
# Bytes that are no text

A file, or the standard input, can hold bytes that are no UTF-8. They are read all the same, with a
character in their place that belongs to no word of an expression. So the line that they stand in is
not well-formed, and strict reading finds no value in it, whatever else is wrong with the line or is
found first. The other lines do not notice. Where lines end is seen in the bytes already, and what
is reported on a line depends on its own bytes and on its number.
-/

namespace Abacus

open Files (System)
open Options (Arguments Plan resolve)
open Session (processLine lineReport reports start worst okCode eventsOfBytes standardName
  runCommand runPlan)
open Text (ByteLine byteLines joinLines decodeChars decodeStrict? decodeLenient Unbroken)

/-- No run of digits among the bytes is too long for its value to be worked out. -/
def NoneOverlongBytes (bytes : List UInt8) : Prop :=
  ∀ s ds rest, bytes = s ++ (ds ++ rest) → (∀ b ∈ ds, 0x30 ≤ b ∧ b ≤ 0x39) → ds.length ≤ 4300

/-- A line as it comes from the bytes, leniently decoded and with a line feed for its end. -/
def lineText (p : ByteLine) : String :=
  String.ofList (decodeChars p.1 ++ Text.feed p.2.isSome)

/-- What is reported on the lines of a file, or of a standard input, of that name. -/
def byteReports [Host] (settings : Settings) (filename : String) (lines : List ByteLine) :
    List (Report Nat) :=
  lines.mapIdx fun i p => lineReport settings filename (i + 1) (lineText p)

/-- The command reads the bytes, under that name and with these settings, from a file or from a
standard input where no user takes part. -/
def TakesIn (files : System) (stdin : StandardInput) (words : List String) (settings : Settings)
    (filename : String) (bytes : List UInt8) : Prop :=
  ∃ a plan, Arguments.ofWords words = .ok a ∧ resolve files a (.ofString ".") = .ok plan ∧
    plan.expressions = [] ∧ plan.settings = settings ∧
    ((∃ path, plan.input = some path ∧ files path = .ok bytes ∧ filename = path.toString) ∨
      plan.input = none ∧ stdin = ⟨eventsOfBytes bytes, false⟩ ∧ filename = standardName)

/-- One line for another with the same end. Only what cannot be decoded is replaced. -/
structure Replaces (p q : ByteLine) : Prop where
  ending : q.2 = p.2
  unbroken : Unbroken q.1
  same : decodeStrict? p.1 ≠ none → q = p

variable {settings : Settings} {filename : String} {bytes : List UInt8} {p : ByteLine} {n : Nat}
  {text : List Char} {lines lines' : List ByteLine} {files : System} {stdin : StandardInput}
  {words : List String}

/-! ## Runs of digits -/

theorem noneOverlongBytes_of_length (h : bytes.length ≤ 4300) : NoneOverlongBytes bytes := by
  rintro s ds rest rfl -
  simp only [List.length_append] at h
  omega

theorem noneOverlong_decodeChars (h : NoneOverlongBytes bytes) :
    NoneOverlong (decodeChars bytes) := by
  intro s ds rest hdecoded hds
  obtain ⟨before, after, rfl, hafter⟩ := Text.exists_append_of_decodeChars hdecoded
  have hascii : ∀ c ∈ ds, c.toNat < 128 := fun c hc => by
    have hd := Text.toNat_of_isDigit (hds.2 c hc)
    omega
  obtain ⟨bs, rest', rfl, hbs⟩ := Text.exists_run_of_decodeChars hafter hascii
  have hlen := congrArg List.length hbs
  rw [List.length_map, List.length_map] at hlen
  rw [← hlen]
  refine h before bs rest' rfl fun b hb => ?_
  have hmem : b.toNat ∈ ds.map Char.toNat := hbs ▸ List.mem_map_of_mem hb
  obtain ⟨c, hc, hbyte⟩ := List.mem_map.1 hmem
  have hd := Text.toNat_of_isDigit (hds.2 c hc)
  rw [UInt8.le_iff_toNat_le, UInt8.le_iff_toNat_le, ← hbyte]
  exact hd

theorem NoneOverlong.feed (h : NoneOverlong text) (broken : Bool) :
    NoneOverlong (text ++ Text.feed broken) := by
  cases broken with
  | false => rwa [Text.feed_false, List.append_nil]
  | true =>
      intro s ds rest htext hds
      rw [Text.feed_true] at htext
      rcases List.eq_nil_or_concat rest with rfl | ⟨rest', c, rfl⟩
      · -- The line feed would be the last of the digits.
        obtain ⟨ds', c, rfl⟩ := (List.eq_nil_or_concat ds).resolve_left hds.1
        rw [List.append_nil, List.concat_eq_append, ← List.append_assoc] at htext
        have hc : ['\n'] = [c] := List.append_inj_right' htext rfl
        have hd := hds.2 c (by simp)
        rw [← List.singleton_inj.1 hc, not_digit_feed] at hd
        cases hd
      · rw [List.concat_eq_append, ← List.append_assoc, ← List.append_assoc] at htext
        have hfront := List.append_inj_left' htext rfl
        exact h s ds rest' (by rw [hfront, List.append_assoc]) hds

theorem noneOverlong_lineText (h : NoneOverlongBytes bytes) (hp : p ∈ byteLines bytes) :
    NoneOverlong (lineText p).toList := by
  have hmem : (decodeChars p.1, p.2.isSome) ∈ Text.markedLines (decodeChars bytes) := by
    rw [Text.markedLines_decodeChars]
    exact List.mem_map.2 ⟨p, hp, rfl⟩
  have hinfix := (Text.isInfix_of_mem_markedLines _).2 _ hmem
  rw [lineText, String.toList_ofList]
  exact ((noneOverlong_decodeChars h).of_isInfix hinfix).feed _

/-! ## A line that cannot be decoded -/

theorem mem_lineText_of_undecodable (h : decodeStrict? p.1 = none) :
    Text.replacement ∈ (lineText p).toList := by
  rw [lineText, String.toList_ofList]
  exact List.mem_append_left _ (Text.replacement_mem_decodeChars h)

theorem not_wellFormed_of_undecodable (h : decodeStrict? p.1 = none) :
    ¬ WellFormed (lineText p) := by
  rintro ⟨ks, hks, -⟩
  rw [kindsOf, wordKinds_of_stray (mem_lineText_of_undecodable h) (by decide) (by decide)
    (by decide)] at hks
  cases hks

/-- No value is found in the line, and the code says so. -/
theorem report_of_undecodable [Host] (hstrict : settings.allowTrailing = false)
    (hlen : NoneOverlong (lineText p).toList) (h : decodeStrict? p.1 = none) (number : Nat) :
    (lineReport settings filename number (lineText p)).written.out = "" ∧
      ∃ code, (lineReport settings filename number (lineText p)).ended = .ok code ∧
        code ≠ okCode := by
  have hblank : Text.isBlankLine (lineText p) = false := by
    rw [Text.isBlankLine, List.all_eq_false]
    exact ⟨_, mem_lineText_of_undecodable h, by decide⟩
  rw [lineReport, hblank, if_neg (by simp)]
  rcases Session.processLine_cases settings (lineText p) number filename with
    ⟨v, hv, -⟩ | ⟨e, hout, hended, -⟩
  · rw [hstrict] at hv
    exact absurd (wellFormed_of_evaluate hv) (not_wellFormed_of_undecodable h)
  · refine ⟨hout, ?_⟩
    rcases Session.processLine_ends settings (lineText p) number filename with
      ⟨code, -, hcode⟩ | ⟨n, hn, -⟩
    · refine ⟨code, hcode, ?_⟩
      rw [hcode] at hended
      cases e with
      | fault f =>
          cases hended
          exact Session.faultCode_ne_okCode f
      | overlong n => cases hended
    · exact absurd hn (hlen.not_holdsOverlong n)

/-! ## A whole run -/

theorem eventsOfBytes_eq (bytes : List UInt8) :
    eventsOfBytes bytes = ((byteLines bytes).map lineText).map .line := by
  rw [eventsOfBytes, Session.events, Text.feedLines, String.toList_ofList, decodeLenient,
    String.toList_ofList]
  show List.map _ (List.map _ (Text.cutAfterFeeds (Text.normalizeBreaks (decodeChars bytes)))) = _
  rw [Text.cutAfterFeeds_normalizeBreaks, Text.markedLines_decodeChars]
  simp only [List.map_map]
  rfl

theorem reports_byteLines [Host] (settings : Settings) (filename : String) (lines : List ByteLine) :
    (start settings false filename).reports (lines.map lineText) =
      byteReports settings filename lines := by
  refine List.ext_getElem (by simp [reports, byteReports]) fun i hi hi' => ?_
  simp [reports, byteReports, start]

theorem runAll_bytes [Host] (settings : Settings) (filename : String)
    (h : NoneOverlongBytes bytes) :
    (start settings false filename).runAll (eventsOfBytes bytes) =
      .done ⟨String.join ((byteReports settings filename (byteLines bytes)).map (·.written.out)),
          String.join ((byteReports settings filename (byteLines bytes)).map (·.written.err))⟩
        (worst (byteReports settings filename (byteLines bytes))) := by
  have hnone : ∀ text ∈ (byteLines bytes).map lineText, ∀ n, ¬ HoldsOverlong n text.toList := by
    intro text htext n
    obtain ⟨p, hp, rfl⟩ := List.mem_map.1 htext
    exact (noneOverlong_lineText h hp).not_holdsOverlong n
  have hfinishes : ∀ r ∈ (start settings false filename).reports ((byteLines bytes).map lineText),
      r.Finishes := Session.finishes_of_not_holdsOverlong hnone
  rw [eventsOfBytes_eq, Session.runAll_batch hfinishes, reports_byteLines]

theorem TakesIn.runCommand_eq [Host] (h : TakesIn files stdin words settings filename bytes) :
    runCommand files stdin words =
      (start settings false filename).runAll (eventsOfBytes bytes) := by
  obtain ⟨a, plan, hwords, hplan, hexpressions, rfl, hinput⟩ := h
  rw [Session.runCommand, hwords]
  dsimp only
  rw [Session.runArguments, hplan]
  show runPlan files stdin plan = _
  rcases hinput with ⟨path, hpath, hfile, rfl⟩ | ⟨hnone, rfl, rfl⟩
  · exact runPlan_file hexpressions hpath hfile
  · exact runPlan_stdin hexpressions hnone bytes

/-! ## Other lines in place of those that cannot be decoded -/

theorem exists_of_replaces (h : List.Forall₂ Replaces lines lines') {i : Nat}
    (hp : lines[i]? = some p) : ∃ q, lines'[i]? = some q ∧ Replaces p q := by
  induction h generalizing i with
  | nil => cases hp
  | @cons first q lines lines' hq _ ih =>
      cases i with
      | zero =>
          cases hp
          exact ⟨q, rfl, hq⟩
      | succ i => exact ih hp

theorem unbroken_of_replaces (h : List.Forall₂ Replaces lines lines') :
    ∀ q ∈ lines', Unbroken q.1 := by
  induction h with
  | nil => simp
  | cons hq _ ih => exact List.forall_mem_cons.2 ⟨hq.unbroken, ih⟩

/-- A line has an end if the one had that it replaces. -/
theorem parted_of_replaces (h : List.Forall₂ Replaces lines lines')
    (hlines : lines.IsChain Text.Parted) (hapart : lines'.IsChain Text.Apart) :
    lines'.IsChain Text.Parted := by
  induction h with
  | nil => exact .nil
  | @cons p q lines lines' hq hmore ih =>
      obtain ⟨hhead, htail⟩ := List.isChain_cons.1 hlines
      obtain ⟨hhead', htail'⟩ := List.isChain_cons.1 hapart
      refine List.isChain_cons.2 ⟨fun q' hq' => ⟨?_, hhead' q' hq'⟩, ih htail htail'⟩
      cases hmore with
      | nil => cases hq'
      | cons => exact hq.ending ▸ (hhead _ rfl).1

/-- What is reported on a line depends on the line and its number. -/
theorem byteReports_of_replaces [Host] (settings : Settings) (filename : String)
    (h : List.Forall₂ Replaces (byteLines bytes) lines') (hapart : lines'.IsChain Text.Apart)
    {i : Nat} (hp : (byteLines bytes)[i]? = some p) (hvalid : decodeStrict? p.1 ≠ none) :
    (byteReports settings filename (byteLines (joinLines lines')))[i]? =
      (byteReports settings filename (byteLines bytes))[i]? := by
  have hlines := Text.separate_byteLines bytes
  have hne : p ≠ ([], none) := by
    rintro rfl
    exact hlines.present _ (List.mem_of_getElem? hp) rfl rfl
  obtain ⟨q, hq, hreplaces⟩ := exists_of_replaces h hp
  rw [hreplaces.same hvalid] at hq
  have hfound := Text.getElem?_byteLines_joinLines (unbroken_of_replaces h)
    (parted_of_replaces h hlines.parted hapart) hq hne
  rw [byteReports, byteReports, List.getElem?_mapIdx, List.getElem?_mapIdx, hfound, hp]

/-- Where no user takes part and strict reading is asked for, a run on bytes reports on them line by
line. A line that cannot be decoded has no value, and its code is not that of a line with one. If
such lines are replaced by any others with the same ends, what is reported on the rest does not
change; only, a carriage return may not come to stand before a line feed, which would be one end for
both of them. This is so because bytes can be decoded before or after they are cut at the end of a
line, even if that comes in the middle of a longer character. -/
theorem undecodable_lines_apart [Host] {files : System} {stdin : StandardInput}
    {words : List String} {settings : Settings} {filename : String} {bytes : List UInt8}
    (h : TakesIn files stdin words settings filename bytes)
    (hstrict : settings.allowTrailing = false) (hdigits : NoneOverlongBytes bytes) :
    let rs := byteReports settings filename (byteLines bytes)
    runCommand files stdin words =
      .done ⟨String.join (rs.map (·.written.out)), String.join (rs.map (·.written.err))⟩
        (worst rs) ∧
    (∀ (i : Nat) (p : ByteLine) (r : Report Nat), (byteLines bytes)[i]? = some p →
      rs[i]? = some r → decodeStrict? p.1 = none →
      r.written.out = "" ∧ ∃ code, r.ended = .ok code ∧ code ≠ okCode) ∧
    (∀ lines', List.Forall₂ Replaces (byteLines bytes) lines' → lines'.IsChain Text.Apart →
      ∀ (i : Nat) (p : ByteLine), (byteLines bytes)[i]? = some p → decodeStrict? p.1 ≠ none →
        (byteReports settings filename (byteLines (joinLines lines')))[i]? = rs[i]?) ∧
    ∀ a b, decodeLenient (a ++ 0x0A :: b) = decodeLenient a ++ "\n" ++ decodeLenient b ∧
      decodeLenient (a ++ 0x0D :: b) = decodeLenient a ++ "\r" ++ decodeLenient b := by
  intro rs
  refine ⟨?_, fun i p r hp hr hnone => ?_, fun lines' hreplaces hapart i p hp hvalid =>
    byteReports_of_replaces settings filename hreplaces hapart hp hvalid, fun a b => ⟨?_, ?_⟩⟩
  · rw [h.runCommand_eq, runAll_bytes settings filename hdigits]
  · have hmem : p ∈ byteLines bytes := List.mem_of_getElem? hp
    have hreport : rs[i]? = some (lineReport settings filename (i + 1) (lineText p)) := by
      show (byteReports settings filename (byteLines bytes))[i]? = _
      rw [byteReports, List.getElem?_mapIdx, hp]
      rfl
    rw [hreport, Option.some.injEq] at hr
    rw [← hr]
    exact report_of_undecodable hstrict (noneOverlong_lineText hdigits hmem) hnone (i + 1)
  · exact Text.decodeLenient_feed a b
  · exact Text.decodeLenient_return a b

/-- A line that breaks off inside a character, and one with a value. In place of the first there
could be one with a value as well. -/
theorem undecodable_lines_apart_truncated :
    let bytes : List UInt8 := [0x31, 0x2B, 0xE2, 0x82, 0x0A, 0x32]
    let files : System := fun path => if path = .ofString "in" then .ok bytes else .error .missing
    let report := runCommand files ⟨[], false⟩ ["in"]
    let valid := joinLines [([0x37], some .feed), ([0x32], none)]
    report.written = ⟨"2\n", "invalid character: unexpected character '\uFFFD'\n" ++
      "  --> in:1:3\n  |\n1 | 1+\uFFFD\n  |   ^\n"⟩ ∧
    report.ended = .ok 1 ∧
    (byteReports .default "in" (byteLines valid))[1]? =
      (byteReports .default "in" (byteLines bytes))[1]? := by
  intro bytes files report valid
  have htakes : TakesIn files ⟨[], false⟩ ["in"] .default "in" bytes :=
    ⟨{ Arguments.none with input := some "in" }, ⟨some (.ofString "in"), [], .default, false⟩, rfl,
      resolve_of_no_config rfl (if_neg (by decide)), rfl, rfl, .inl ⟨_, rfl, if_pos rfl, by decide⟩⟩
  obtain ⟨hrun, -, hothers, -⟩ := undecodable_lines_apart htakes rfl
    (noneOverlongBytes_of_length (by decide))
  have hlines : byteLines bytes = [([0x31, 0x2B, 0xE2, 0x82], some .feed), ([0x32], none)] := by
    decide
  have hreplaces : List.Forall₂ Replaces (byteLines bytes)
      [([0x37], some .feed), ([0x32], none)] := by
    rw [hlines]
    exact .cons ⟨rfl, by decide, fun h => absurd (by decide +kernel) h⟩
      (.cons ⟨rfl, by decide, fun _ => rfl⟩ .nil)
  refine ⟨?_, ?_, hothers _ hreplaces (by decide) 1 ([0x32], none) (by rw [hlines]; rfl)
    (by decide +kernel)⟩
  · show (runCommand files ⟨[], false⟩ ["in"]).written = _
    rw [hrun]
    decide +kernel
  · show (runCommand files ⟨[], false⟩ ["in"]).ended = _
    rw [hrun]
    decide +kernel

end Abacus

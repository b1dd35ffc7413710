import Abacus.Editor.Server
import Abacus.Proofs.LineByLine
import Abacus.Proofs.Placement

/-!
# The numeral that breaks a session off

A numeral with more significant digits than fit is refused before its value is worked out. One with
few of them, but with so many zeros in front that it is longer than the limit, passes that test and
then cannot be worked out: that is no fault of the line but an accident, which nobody handles. It
is the only one that a line can cause. A line without such a numeral is answered with a code, and a
session or a document without such a line is answered to the end; and if a line begins with one,
then the accident does happen, whatever the settings are.

Texts are sequences of Unicode scalar values here. Lone surrogates are not among them. Where a
document holds one and a line is at fault for it, counting UTF-16 units is an accident too, and such
documents are left out.

A cursor takes all the digits that there are. So what it cannot work out is a whole run of digits of
the text, with a digit neither before it nor behind it.
-/

namespace Abacus

open Editor (diagnose diagnoseLine diagnoseLines Store)
open Session (processLine lineReport reports start events okCode valueCode faultCode)

/-- Somewhere in the text stands a numeral of `n` digits that is too long to be worked out. -/
def HoldsOverlong (n : Nat) (text : List Char) : Prop :=
  ∃ s ds rest, text = s ++ (ds ++ rest) ∧ (∀ ch ∈ s.getLast?, ch.isDigit = false) ∧ Digits ds ∧
    StartsWithout Char.isDigit rest ∧ Text.Numeral.ofDigits ds = .overlong n

/-- The first thing in the text is such a numeral. -/
def BeginsOverlong (n : Nat) (text : List Char) : Prop :=
  ∃ w ds rest, text = w ++ (ds ++ rest) ∧ Blanks w ∧ Digits ds ∧
    StartsWithout Char.isDigit rest ∧ Text.Numeral.ofDigits ds = .overlong n

/-- The cursor does not stand between two digits. -/
def Cursor.Apart (c : Cursor) (source : String) : Prop :=
  ∃ s, source.toList = s ++ c.rest ∧
    ∀ ch ∈ s.getLast?, ch.isDigit = true → StartsWithout Char.isDigit c.rest

variable {source text : String} {line : Int} {c : Cursor} {n : Nat} {w ds rest : List Char}
  {allowTrailing : Bool}

/-! ## What a cursor cannot work out -/

theorem Blanks.not_isDigit (hw : Blanks w) : ∀ ch ∈ w.getLast?, ch.isDigit = false := by
  intro ch hch
  exact isDigit_eq_false_of_isBlank (hw ch (List.mem_of_getLast? hch))

theorem overlong_of_numeral {span : Span}
    (h : Cursor.numeral source ds span = .error (.overlong n)) :
    Text.Numeral.ofDigits ds = .overlong n := by
  rw [Cursor.numeral] at h
  split at h
  · cases h
  · cases h
  · next hn =>
      cases h
      exact hn

/-- A run that is short enough is not such a numeral. -/
theorem NoneOverlong.not_holdsOverlong {text : List Char} (h : NoneOverlong text) (n : Nat) :
    ¬ HoldsOverlong n text := by
  rintro ⟨s, ds, rest, htext, -, hds, -, hover⟩
  exact absurd (h s ds rest htext hds) (Nat.not_le.2 (Text.lt_length_of_overlong hover))

namespace Cursor

theorem apart_ofSource : (Cursor.ofSource source line).Apart source :=
  ⟨[], rfl, fun ch hch => by cases hch⟩

/-- White space ends where a numeral begins, and no digit stands before it. -/
theorem Apart.before_digits (h : c.Apart source) (hw : Blanks w) (hds : Digits ds)
    (hrest : c.rest = w ++ (ds ++ rest)) :
    ∃ s, source.toList = s ++ (ds ++ rest) ∧ ∀ ch ∈ s.getLast?, ch.isDigit = false := by
  obtain ⟨s, hs, hapart⟩ := h
  refine ⟨s ++ w, by rw [hs, hrest, List.append_assoc], fun ch hch => ?_⟩
  rcases List.eq_nil_or_concat w with rfl | ⟨w', ch', rfl⟩
  · rw [List.append_nil] at hch
    by_contra hd
    obtain ⟨ch', ds, rfl⟩ := List.exists_cons_of_ne_nil hds.1
    have hfirst := hapart ch hch (by simpa using hd) ch' (by rw [hrest]; rfl)
    rw [hds.2 ch' (by simp)] at hfirst
    cases hfirst
  · exact hw.not_isDigit ch (by simpa using hch)

/-- Each step goes from such a place to the next one. What could not be worked out on the way is a
whole run of digits. -/
theorem Apart.next (h : c.Apart source) :
    c.next.2.Apart source ∧
      (c.next.1 = .error (.overlong n) → HoldsOverlong n source.toList) := by
  have hstep := c.step_next
  generalize c.next.1 = item at hstep ⊢
  generalize c.next.2 = c' at hstep ⊢
  cases hstep with
  | finish hw hrest =>
      obtain ⟨s, hs, -⟩ := h
      refine ⟨⟨source.toList, (List.append_nil _).symm, fun _ _ _ => startsWithout_nil⟩, ?_⟩
      intro he
      cases he
  | @numeral w ds rest hw hds hend hrest =>
      obtain ⟨s, hs, hbefore⟩ := h.before_digits hw hds hrest
      refine ⟨⟨s ++ ds, ?_, fun _ _ _ => hend⟩, fun he => ?_⟩
      · rw [hs, List.append_assoc]
        rfl
      · exact ⟨s, ds, rest, hs, hbefore, hds, hend, overlong_of_numeral he⟩
  | @symbol w rest ch k hw hk hrest =>
      obtain ⟨s, hs, -⟩ := h
      refine ⟨⟨s ++ w ++ [ch], ?_, fun ch' hch' hd => ?_⟩, fun he => by cases he⟩
      · rw [hs, hrest]
        simp [onto]
      · rw [List.getLast?_concat, Option.mem_some_iff] at hch'
        subst hch'
        rw [symbol_not_digit hk] at hd
        cases hd
  | @stray w rest ch hw hb hd hk hrest =>
      obtain ⟨s, hs, -⟩ := h
      refine ⟨⟨s ++ w, ?_, fun _ _ _ => startsWithout_cons hd⟩, fun he => by cases he⟩
      rw [hs, hrest, List.append_assoc]
      rfl

theorem Apart.listing (h : c.Apart source) (he : c.listing.2 = some (.overlong n)) :
    HoldsOverlong n source.toList := by
  induction c using listing_induction with
  | error c e hc =>
      rw [listing_of_error hc, Option.some.injEq] at he
      exact h.next.2 (by rw [hc, he])
  | endOfInput c t hc hk =>
      rw [listing_of_endOfInput hc hk] at he
      cases he
  | token c t hc hk ih =>
      rw [listing_of_token hc hk] at he
      exact ih (h.next (n := n)).1 he

/-- Where such a numeral comes first, it is all that is found. -/
theorem next_of_beginsOverlong (h : BeginsOverlong n c.rest) :
    c.next.1 = .error (.overlong n) := by
  obtain ⟨w, ds, rest, hrest, hw, hds, hend, hn⟩ := h
  rw [(Step.numeral hw hds hend hrest).next_eq]
  dsimp only
  rw [numeral, hn]

end Cursor

/-- Whatever is met in a text that cannot be worked out is a numeral of the text. -/
def overlongs (source : String) : Inheritance source where
  token _ := True
  failure e := ∀ n, e = .overlong n → HoldsOverlong n source.toList
  mismatch _ _ _ he := by cases he
  nesting _ _ he := by cases he
  operation _ _ _ _ _ _ he := by cases he

theorem holdsOverlong_of_evaluate [Host]
    (h : evaluate source line allowTrailing = .error (.overlong n)) :
    HoldsOverlong n source.toList := by
  refine (overlongs source).failure_of_evaluate (R := fun c => c.Apart source)
    Cursor.apart_ofSource (fun c hc => ⟨?_, (hc.next (n := n)).1⟩) h n rfl
  cases hitem : c.next.1 with
  | ok t => exact trivial
  | error e => exact fun n he => hc.next.2 (hitem.trans (congrArg Except.error he))

theorem evaluate_of_beginsOverlong [Host] (h : BeginsOverlong n source.toList) (line : Int)
    (allowTrailing : Bool) : evaluate source line allowTrailing = .error (.overlong n) := by
  have hnext : (Cursor.ofSource source line).next.1 = .error (.overlong n) :=
    Cursor.next_of_beginsOverlong h
  rw [← Cursor.toStream_next_fst] at hnext
  rw [evaluate_eq_stream, evaluate_of_no_reader (ofStream_eq_error_iff.2 hnext)]

/-! ## One line -/

namespace Session

theorem faultCode_le (f : Fault) : faultCode f ≤ valueCode := by
  rw [faultCode]
  split <;> decide

theorem faultCode_ne_okCode (f : Fault) : faultCode f ≠ okCode := by
  rw [faultCode]
  split <;> decide

/-- A line comes to a code, or to the one accident that it can cause. -/
theorem processLine_ends [Host] (settings : Settings) (source : String) (line : Int)
    (filename : String) :
    (∃ code ≤ valueCode, (processLine settings source line filename).ended = .ok code) ∨
    ∃ n, HoldsOverlong n source.toList ∧
      (processLine settings source line filename).ended = .error (.overlong n) := by
  rcases processLine_cases settings source line filename with
    ⟨v, -, hended⟩ | ⟨e, -, hended, he⟩
  · exact .inl ⟨okCode, by decide, hended⟩
  · cases e with
    | fault f => exact .inl ⟨faultCode f, faultCode_le f, hended⟩
    | overlong n =>
        refine .inr ⟨n, ?_, hended⟩
        rcases he with he | he
        · exact holdsOverlong_of_evaluate he
        · exact Cursor.apart_ofSource.listing he

theorem processLine_of_beginsOverlong [Host] (h : BeginsOverlong n source.toList)
    (settings : Settings) (line : Int) (filename : String) :
    (processLine settings source line filename).ended = .error (.overlong n) := by
  have hanswer : (answer settings source line filename).ended = .error (.overlong n) := by
    rw [answer, evaluate_of_beginsOverlong h]
    rfl
  have htable : (Token.table source line).2 = some (.overlong n) :=
    congrArg Prod.snd (Cursor.listing_of_error (Cursor.next_of_beginsOverlong h))
  rw [processLine]
  split
  · split
    · next he =>
        rw [he, Option.some.injEq] at htable
        rw [htable]
        rfl
    · exact hanswer
  · exact hanswer

theorem isBlankLine_of_beginsOverlong (h : BeginsOverlong n source.toList) :
    Text.isBlankLine source = false := by
  obtain ⟨w, ds, rest, hsource, -, hds, -, -⟩ := h
  obtain ⟨ch, ds, rfl⟩ := List.exists_cons_of_ne_nil hds.1
  have hb := Text.isBlank_eq_false_of_isDigit (hds.2 ch (by simp))
  rw [Text.isBlankLine, hsource]
  simp [hb]

theorem lineReport_ends [Host] (settings : Settings) (filename : String) (number : Nat)
    (text : String) :
    (∃ code ≤ valueCode, (lineReport settings filename number text).ended = .ok code) ∨
    ∃ n, HoldsOverlong n text.toList ∧
      (lineReport settings filename number text).ended = .error (.overlong n) := by
  rw [lineReport]
  split
  · exact .inl ⟨okCode, by decide, rfl⟩
  · exact processLine_ends ..

/-! ## A whole session -/

variable {s : Session} {texts : List String}

theorem exists_not_finishes (rs : List (Report Nat)) :
    (∀ r ∈ rs, r.Finishes) ∨
    ∃ before r later e, rs = before ++ r :: later ∧ (∀ q ∈ before, q.Finishes) ∧
      r.ended = .error e := by
  induction rs with
  | nil => exact .inl (by simp)
  | cons r rs ih =>
      cases hr : r.ended with
      | error e => exact .inr ⟨[], r, rs, e, rfl, by simp, hr⟩
      | ok code =>
          rcases ih with hall | ⟨before, q, later, e, rfl, hbefore, he⟩
          · exact .inl (List.forall_mem_cons.2 ⟨⟨code, hr⟩, hall⟩)
          · exact .inr ⟨r :: before, q, later, e, rfl,
              List.forall_mem_cons.2 ⟨⟨code, hr⟩, hbefore⟩, he⟩

theorem worst_le {rs : List (Report Nat)} (h : ∀ r ∈ rs, codeOf r ≤ valueCode) :
    worst rs ≤ valueCode := by
  induction rs with
  | nil => decide
  | cons r rs ih =>
      obtain ⟨hr, hrs⟩ := List.forall_mem_cons.1 h
      exact Nat.max_le.2 ⟨hr, ih hrs⟩

theorem codeOf_processLine_le [Host] (settings : Settings) (source : String) (line : Int)
    (filename : String) : codeOf (processLine settings source line filename) ≤ valueCode := by
  rcases processLine_ends settings source line filename with ⟨code, hle, h⟩ | ⟨n, -, h⟩
  · rw [codeOf, h]
    exact hle
  · rw [codeOf, h]
    exact Nat.zero_le _

theorem finishes_of_not_holdsOverlong [Host]
    (h : ∀ text ∈ texts, ∀ n, ¬ HoldsOverlong n text.toList) :
    ∀ r ∈ s.reports texts, r.Finishes := by
  intro r hr
  obtain ⟨text, hmem, hended⟩ := ended_of_mem_reports hr
  rcases lineReport_ends s.settings s.filename 1 text with
    ⟨code, -, hcode⟩ | ⟨n, hn, -⟩
  · exact ⟨code, hended.trans hcode⟩
  · exact absurd hn (h text hmem n)

theorem worst_reports_le [Host] (s : Session) (texts : List String) :
    worst (s.reports texts) ≤ valueCode := by
  refine worst_le fun r hr => ?_
  obtain ⟨i, hi, rfl⟩ := List.mem_mapIdx.1 hr
  rw [lineReport]
  split
  · exact Nat.zero_le _
  · exact codeOf_processLine_le ..

/-- A line that begins with such a numeral is not survived. -/
theorem runAll_of_beginsOverlong [Host] (hmem : text ∈ texts) (h : BeginsOverlong n text.toList) :
    ∃ m, (s.runAll (texts.map .line)).ended = .error (.overlong m) := by
  rcases exists_not_finishes (s.reports texts) with
    hall | ⟨before, r, later, e, hrs, hbefore, he⟩
  · obtain ⟨code, hcode⟩ := finishes_of_mem_texts hall hmem
    rw [lineReport, isBlankLine_of_beginsOverlong h, if_neg (by simp),
      processLine_of_beginsOverlong h] at hcode
    cases hcode
  · have hrun := run_lines_of_error hrs hbefore he []
    rw [List.append_nil] at hrun
    obtain ⟨text', -, hended⟩ := ended_of_mem_reports
      (show r ∈ s.reports texts by rw [hrs]; simp)
    rw [he] at hended
    rw [runAll, hrun]
    rcases lineReport_ends s.settings s.filename 1 text' with
      ⟨code, -, hcode⟩ | ⟨m, -, hm⟩
    · rw [hcode] at hended
      cases hended
    · rw [hm] at hended
      exact ⟨m, hended⟩

end Session

/-! ## A whole document -/

namespace Editor

theorem diagnoseLine_ends [Host] (text : String) (number : Nat) :
    (∃ d, diagnoseLine text number = .ok d) ∨
    ∃ n, HoldsOverlong n text.toList ∧ diagnoseLine text number = .error (.overlong n) := by
  rw [diagnoseLine]
  split
  · exact .inl ⟨_, rfl⟩
  · split
    · exact .inl ⟨_, rfl⟩
    · exact .inl ⟨_, rfl⟩
    · next n he => exact .inr ⟨n, holdsOverlong_of_evaluate he, rfl⟩

theorem diagnoseLine_of_beginsOverlong [Host] (h : BeginsOverlong n text.toList) (number : Nat) :
    diagnoseLine text number = .error (.overlong n) := by
  rw [diagnoseLine, Session.isBlankLine_of_beginsOverlong h, if_neg (by simp),
    evaluate_of_beginsOverlong h]

theorem diagnoseLines_of_ok [Host] {texts : List String}
    (h : ∀ text ∈ texts, ∀ n, ¬ HoldsOverlong n text.toList) (number : Nat) :
    ∃ ds, diagnoseLines number texts = .ok ds := by
  induction texts generalizing number with
  | nil => exact ⟨[], rfl⟩
  | cons text texts ih =>
      obtain ⟨hfirst, hmore⟩ := List.forall_mem_cons.1 h
      obtain ⟨ds, hds⟩ := ih hmore (number + 1)
      rcases diagnoseLine_ends text number with ⟨d, hd⟩ | ⟨n, hn, -⟩
      · refine ⟨d.toList ++ ds, ?_⟩
        rw [diagnoseLines, hd, hds]
        rfl
      · exact absurd hn (hfirst n)

theorem diagnoseLines_of_beginsOverlong [Host] {texts : List String} (hmem : text ∈ texts)
    (h : BeginsOverlong n text.toList) (number : Nat) :
    ∃ m, diagnoseLines number texts = .error (.overlong m) := by
  induction texts generalizing number with
  | nil => cases hmem
  | cons first texts ih =>
      rw [diagnoseLines]
      rcases List.mem_cons.1 hmem with rfl | hmem
      · exact ⟨n, by rw [diagnoseLine_of_beginsOverlong h]; rfl⟩
      · obtain ⟨m, hm⟩ := ih hmem (number + 1)
        rcases diagnoseLine_ends first number with ⟨d, hd⟩ | ⟨k, -, hk⟩
        · exact ⟨m, by rw [hd, hm]; rfl⟩
        · exact ⟨k, by rw [hk]; rfl⟩

end Editor

/-- The only accident that a line of Unicode scalar values can cause is a numeral that is too long
to be worked out. Every line ends with a code, or holds one; and a line that begins with one ends
with the accident, whatever the settings. So a session whose lines hold none answers every one of
them, and for a document whose lines hold none the diagnostics are published; but a line that begins
with one ends the session, and nothing is published for its document. -/
theorem accidents_of_numerals [Host] (settings : Settings) (text : String) :
    (∀ line filename, let r := processLine settings text line filename
      ((∃ code ≤ valueCode, r.ended = .ok code) ∨
        ∃ n, HoldsOverlong n text.toList ∧ r.ended = .error (.overlong n)) ∧
      ∀ n, BeginsOverlong n text.toList → r.ended = .error (.overlong n)) ∧
    (∀ interactive filename,
      let s := start settings interactive filename
      let rs := s.reports (Text.feedLines text)
      ((∀ piece ∈ Text.feedLines text, ∀ n, ¬ HoldsOverlong n piece.toList) →
        (∀ r ∈ rs, r.Finishes) ∧ ∃ code ≤ valueCode, s.runAll (events text) =
          .done (s.greeting ++ (s.answers rs ++ (s.prompt ++ s.farewell))) code) ∧
      ∀ piece ∈ Text.feedLines text, ∀ n, BeginsOverlong n piece.toList →
        ∃ m, (s.runAll (events text)).ended = .error (.overlong m)) ∧
    (∀ (S : Store) s uri, S.text? s uri = some text →
      ((∀ line ∈ Text.lines text, ∀ n, ¬ HoldsOverlong n line.toList) →
        ∃ ds, diagnose text = .ok ds ∧ S.publish s uri = some ⟨uri, ds⟩) ∧
      ∀ line ∈ Text.lines text, ∀ n, BeginsOverlong n line.toList →
        S.publish s uri = none) := by
  refine ⟨fun line filename => ⟨Session.processLine_ends .., fun n h =>
    Session.processLine_of_beginsOverlong h ..⟩, fun interactive filename => ⟨fun h => ?_,
    fun piece hmem n h => Session.runAll_of_beginsOverlong hmem h⟩, fun S s uri htext =>
    ⟨fun h => ?_, fun line hmem n h => ?_⟩⟩
  · have hall : ∀ r ∈ (start settings interactive filename).reports (Text.feedLines text),
        r.Finishes := Session.finishes_of_not_holdsOverlong h
    have hrun := Session.runAll_lines hall [] (.inl rfl)
    rw [List.append_nil] at hrun
    refine ⟨hall, _, ?_, hrun⟩
    rw [Session.exitCode]
    split
    · exact Nat.zero_le _
    · exact Nat.max_le.2 ⟨Nat.zero_le _, Session.worst_reports_le ..⟩
  · obtain ⟨ds, hds⟩ := Editor.diagnoseLines_of_ok h 1
    refine ⟨ds, hds, ?_⟩
    rw [Store.publish, htext]
    dsimp only
    rw [diagnose, hds]
  · obtain ⟨m, hm⟩ := Editor.diagnoseLines_of_beginsOverlong hmem h 1
    rw [Store.publish, htext]
    dsimp only
    rw [diagnose, hm]

/-! ## Nothing but zeros -/

theorem dropWhile_zeros (n : Nat) : (List.replicate n '0').dropWhile (· == '0') = [] := by
  simp

theorem beginsOverlong_zeros (hn : Text.maxDigits < n) :
    BeginsOverlong n (List.replicate n '0') := by
  refine ⟨[], List.replicate n '0', [], by simp, by simp [Blanks], ⟨?_, ?_⟩, startsWithout_nil, ?_⟩
  · rw [Ne, List.replicate_eq_nil_iff]
    exact Nat.ne_of_gt (Nat.lt_of_le_of_lt (Nat.zero_le _) hn)
  · intro ch hch
    rw [List.eq_of_mem_replicate hch]
    rfl
  · rw [Text.Numeral.ofDigits, dropWhile_zeros, if_neg (by simp), List.length_replicate, if_pos hn]

/-- A numeral that is worth nothing, in one more digit than can be worked out, is not answered. -/
theorem zeros_break_off :
    let zeros := String.ofList (List.replicate 4301 '0')
    Text.decimalValue zeros.toList = 0 ∧
    (processLine .default zeros 1 "<stdin>").ended = .error (.overlong 4301) ∧
    diagnoseLine zeros 1 = .error (.overlong 4301) := by
  intro zeros
  have hzeros : BeginsOverlong 4301 zeros.toList := by
    rw [String.toList_ofList]
    exact beginsOverlong_zeros (by decide)
  refine ⟨?_, Session.processLine_of_beginsOverlong hzeros .., Editor.diagnoseLine_of_beginsOverlong
    hzeros 1⟩
  rw [String.toList_ofList, ← Text.decimalValue_dropWhile_zero, dropWhile_zeros]
  rfl

end Abacus

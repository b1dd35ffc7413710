import Abacus.Proofs.Calls
import Abacus.Proofs.FirstFault
import Abacus.Proofs.LineBreaks
import Abacus.Proofs.Lookahead
import Abacus.Proofs.Trailing

/-!
# With and without a listing of the tokens

A line can be answered with a listing of its tokens first. The listing reads the whole line before
anything is evaluated, whereas the reader asks for tokens as it goes along and stops one token
behind the expression. As long as every part of the line is a token this is no difference, and the
listing is all that is added to the answer.

A fault in the listing is the answer, and the line is not evaluated. Without the listing the reader
may have come to another fault before, of any kind; or it may not have got as far as the first one,
if there is an expression before it and trailing tokens are allowed. Only then has the line a value.
-/

namespace Abacus

open Reader
open Session (answer faultCode formCode okCode processLine refuse valueCode)

/-- The tokens begin with an expression that is worth `v`, and go on with a token that is no
operator. -/
def Accepts [Host] (ts : List Token) (v : Int) : Prop :=
  ∃ us k e, us ++ [k] <+: ts ∧ Derives maxDepth .expression us e ∧ e.eval = .ok v ∧
    k.kind ∉ [.plus, .minus, .times, .divide]

/-- What a row of the listing says of its token: the line and the column where it starts, what its
kind is called, and the value of an integer. -/
inductive Token.ListedAs (t : Token) : String → Prop
  | integer {v : Int} (hk : t.kind = .integer) (hv : t.value = some v) :
      ListedAs t s!"  {t.span.start.line}:{t.span.start.column} INTEGER {v}\n"
  | symbol {name : String} (hname : (t.kind, name) ∈ [(.plus, "PLUS"), (.minus, "MINUS"),
        (.times, "MUL"), (.divide, "DIV"), (.leftParen, "LPAREN"), (.rightParen, "RPAREN"),
        (.endOfInput, "EOF")]) :
      ListedAs t s!"  {t.span.start.line}:{t.span.start.column} {name}\n"

variable {source filename : String} {line : Int} {c : Cursor} {ts : List Token} {t : Token}
  {e : Failure} {f : Fault} {v : Int} {n : Nat} {allowTrailing : Bool} {settings : Settings}

/-! ## The listing as text -/

theorem Token.oneLine_label (k : Token.Kind) : OneLine k.label := by
  cases k <;> decide

/-- A token is listed on a line of its own. -/
theorem Token.exists_row_eq (t : Token) : ∃ text, t.row = text ++ "\n" ∧ OneLine text := by
  refine ⟨_, rfl, ?_⟩
  have hvalue : OneLine (if t.kind = .integer then " " ++ t.numberText else "") := by
    split
    · exact oneLine_append.2 ⟨by decide, t.oneLine_numberText⟩
    · decide
  simp only [oneLine_append]
  exact ⟨⟨⟨⟨⟨⟨by decide, oneLine_toString _⟩, by decide⟩, oneLine_toString _⟩, by decide⟩,
    oneLine_label _⟩, hvalue⟩

theorem feedLines_rows (ts : List Token) :
    Text.feedLines (String.join (ts.map Token.row)) = ts.map Token.row := by
  induction ts with
  | nil => rfl
  | cons t ts ih =>
      obtain ⟨text, hrow, hline⟩ := t.exists_row_eq
      have hchars : ∀ c ∈ text.toList, c ≠ '\n' := fun c hc h => hline (h ▸ hc)
      have hlist : (String.join ((t :: ts).map Token.row)).toList =
          text.toList ++ '\n' :: (String.join (ts.map Token.row)).toList := by
        rw [List.map_cons, hrow]
        simp
      rw [Text.feedLines, hlist, Text.cutAfterFeeds_feed hchars, List.map_cons, List.map_cons,
        ← Text.feedLines, ih, hrow]
      congr 1
      show String.ofList (text.toList ++ "\n".toList) = text ++ "\n"
      rw [← String.toList_append, String.ofList_toList]

theorem Token.listedAs_row (h : t.kind = .integer → ∃ v, t.value = some v) :
    t.ListedAs t.row := by
  have htext : ∀ s : String, toString s = s := fun _ => rfl
  by_cases hk : t.kind = .integer
  · obtain ⟨v, hv⟩ := h hk
    have hrow : t.row = s!"  {t.span.start.line}:{t.span.start.column} INTEGER {v}\n" := by
      apply String.toList_inj.1
      simp [row, hk, numberText, hv, Kind.label, htext]
    rw [hrow]
    exact .integer hk hv
  · have hrow : t.row = s!"  {t.span.start.line}:{t.span.start.column} {t.kind.label}\n" := by
      simp [row, hk, htext]
    rw [hrow]
    refine .symbol ?_
    cases hkind : t.kind with
    | integer => exact absurd hkind hk
    | plus | minus | times | divide | leftParen | rightParen | endOfInput => decide

theorem Cursor.exists_value_of_next (h : c.next.1 = .ok t) (hk : t.kind = .integer) :
    ∃ v, t.value = some v := by
  have hreads : c.Reads t c.next.2 := reads_iff.2 ⟨Prod.ext h rfl, by rw [hk]; simp⟩
  generalize c.next.2 = c' at hreads
  cases hreads with
  | @intro w raw rest k value hw hraw =>
      obtain rfl : k = Token.Kind.integer := hk
      cases hraw with
      | integer => exact ⟨_, rfl⟩
      | symbol hsymbol =>
          rw [← Token.Kind.symbol?_eq_some_iff] at hsymbol
          cases hsymbol

theorem Cursor.exists_next_of_mem_listing (h : t ∈ c.listing.1) :
    ∃ c' : Cursor, c'.next.1 = .ok t := by
  induction c using listing_induction with
  | error c e he =>
      rw [listing_of_error he] at h
      cases h
  | endOfInput c u hu hk =>
      rw [listing_of_endOfInput hu hk, List.mem_singleton] at h
      exact ⟨c, h ▸ hu⟩
  | token c u hu hk ih =>
      rw [listing_of_token hu hk] at h
      rcases List.mem_cons.1 h with rfl | h
      · exact ⟨c, hu⟩
      · exact ih h

/-- Every row of a listing says what there is to say of its token. -/
theorem Cursor.listedAs_of_mem_listing (h : t ∈ c.listing.1) : t.ListedAs t.row := by
  obtain ⟨c', hnext⟩ := exists_next_of_mem_listing h
  exact Token.listedAs_row (exists_value_of_next hnext)

/-! ## What has been read -/

/-- The reader of a text takes items from the listing only. -/
theorem Cursor.take_run [Host] (c : Cursor) (source : String) (allowTrailing : Bool) :
    c.toStream.take (c.toStream.run source allowTrailing).2 <+: c.items := by
  have hcut := TokenStream.take_take (c.run_le_items source allowTrailing) c.toStream
  rw [c.take_toStream] at hcut
  rw [← hcut]
  exact List.take_prefix _ _

/-- What cannot be worked out in a text that is evaluated is where the listing ends as well. -/
theorem listing_of_evaluate_overlong [Host]
    (h : evaluate source line allowTrailing = .error (.overlong n)) :
    (Cursor.ofSource source line).listing.2 = some (.overlong n) := by
  have htakes := takes_run (Cursor.ofSource source line).toStream source allowTrailing
  have hprefix := (Cursor.ofSource source line).take_run source allowTrailing
  rw [TokenStream.run_fst, ← evaluate_eq_stream, h] at htakes
  generalize (Cursor.ofSource source line).toStream.take _ = items at htakes hprefix
  cases htakes with
  | failure =>
      have hmem := hprefix.subset (List.mem_append_right _ (List.mem_singleton_self _))
      simpa [Cursor.items] using hmem

/-- A value was read off the tokens before the failure of the listing. -/
theorem accepts_of_evaluate [Host] (hlisting : (Cursor.ofSource source line).listing = (ts, some e))
    (hkinds : ∀ t ∈ ts, t.kind ≠ .endOfInput) (h : evaluate source line allowTrailing = .ok v) :
    allowTrailing = true ∧ Accepts ts v := by
  have hprefix := (Cursor.ofSource source line).take_run source allowTrailing
  have hitems : leadingTokens (Cursor.ofSource source line).items = ts := by
    rw [Cursor.items, hlisting, leadingTokens_append]
    exact List.append_nil ts
  rw [evaluate_eq_stream] at h
  cases hr : ofStream (Cursor.ofSource source line).toStream with
  | error e => rw [evaluate_of_no_reader hr] at h; cases h
  | ok r =>
      rw [← TokenStream.runWithin_maxDepth, ← Likeness.taken_after_expression hr] at hprefix
      have hout := expression_outcome source r
      cases hexpr : expression source r with
      | error e r' => rw [evaluate_of_no_expression hr hexpr] at h; cases h
      | ok w r' =>
          rw [evaluate_of_expression hr hexpr] at h
          rw [hexpr] at hout
          have hafter : after (ruleAt source maxDepth .expression r) = r' := congrArg after hexpr
          rw [hafter] at hprefix
          cases hout with
          | @value us e' _ _ hus he hv hstop =>
              rw [take_of_ofStream hr hus] at hprefix
              have hahead : us ++ [r'.lookahead] <+: ts := by
                rw [← hitems]
                exact isPrefix_leadingTokens (by rwa [List.map_append])
              have hk : r'.lookahead.kind ≠ .endOfInput := hkinds _ (hahead.subset (by simp))
              split at h
              · cases h
              · next hpolicy =>
                  cases h
                  refine ⟨by simpa [hk] using hpolicy, us, _, e', hahead, he, hv, ?_⟩
                  exact Level.stops_expression_iff.1 hstop

/-- Where the tokens before the failure are enough, the failure is not met. -/
theorem evaluate_of_accepts [Host] (hlisting : (Cursor.ofSource source line).listing.1 = ts)
    (h : Accepts ts v) : evaluate source line true = .ok v := by
  obtain ⟨us, k, e, ⟨vs, rfl⟩, he, hv, hstop⟩ := h
  have hcut : Cut (Cursor.ofSource source line).items us v k := by
    refine ⟨?_, ⟨maxDepth, e, he, hv⟩, hstop⟩
    rw [Cursor.items, hlisting, List.map_append, List.map_append, List.append_assoc,
      List.append_assoc]
    exact List.prefix_append _ _
  have hlist : (TokenStream.ofList (Cursor.ofSource source line).items).evaluate source true =
      .ok v := hcut.evaluate_lenient he.nested
  rwa [← TokenStream.run_fst, Cursor.run_items, TokenStream.run_fst, ← evaluate_eq_stream] at hlist

/-- Nothing in the listing can be met that a session is not prepared for. -/
theorem finishes_answer [Host] (settings : Settings) (source : String) (line : Int)
    (filename : String)
    (h : ∀ n, (Cursor.ofSource source line).listing.2 ≠ some (.overlong n)) :
    ∃ code, (answer settings source line filename).ended = .ok code ∧
      (code = okCode ↔ ∃ v, evaluate source line settings.allowTrailing = .ok v) := by
  rcases Session.answer_cases settings source line filename with ⟨v, hv, hanswer⟩ | ⟨e, he, hanswer⟩
  · exact ⟨okCode, by rw [hanswer]; rfl, iff_of_true rfl ⟨v, hv⟩⟩
  · cases e with
    | overlong n => exact absurd (listing_of_evaluate_overlong he) (h n)
    | fault f =>
        refine ⟨faultCode f, by rw [hanswer]; rfl, iff_of_false (Session.faultCode_ne_okCode f) ?_⟩
        rintro ⟨v, hv⟩
        rw [he] at hv
        cases hv

/-- The listing of a text ends with a character or with a numeral that does not fit. -/
theorem fault_of_listing (h : (Cursor.ofSource source line).listing.2 = some (.fault f)) :
    (faultCode f = formCode ∧ ∃ text, f.cause = .character text) ∨
      (faultCode f = valueCode ∧ ∃ digits, f.cause = .numeral digits) := by
  have hbegin : (Cursor.ofSource source line).Faultless source line := Cursor.faultless_ofSource
  obtain ⟨p, -, hreported⟩ := hbegin.listing.2 _ h
  cases hreported with
  | stray => exact .inl ⟨rfl, _, rfl⟩
  | tooLarge => exact .inr ⟨rfl, _, rfl⟩

/-- What the listing adds to the answer, and what takes its place if the listing breaks off. -/
theorem processLine_listed [Host] (settings : Settings) (filename : String)
    {failure : Option Failure} (h : (Cursor.ofSource source line).listing = (ts, failure)) :
    processLine { settings with debug := true } source line filename =
      (match failure with
      | none => answer settings source line filename
      | some e => refuse filename e).after (.ofErr (String.join (ts.map Token.row))) := by
  have htable : Token.table source line = (String.join (ts.map Token.row), failure) := by
    rw [Token.table, h]
  rw [processLine, if_pos rfl, htable]
  cases failure <;> rfl

/-- What a listing of the tokens changes. If all of the line are tokens, they are listed down to the
end of the line, one in a row, before what is written on the error stream anyway. A row says where
its token starts, what kind it is of, and the value of an integer. If the listing breaks off at a
fault, the answer is that fault after the rows that come before it, with the code for a character or
for a numeral; and the line would not have had a value otherwise, unless trailing tokens are allowed
and there is an expression, with one more token behind it, before the fault. -/
theorem processLine_debug [Host] (settings : Settings) (source : String) (line : Int)
    (filename : String) :
    let plain := processLine { settings with debug := false } source line filename
    let listed := processLine { settings with debug := true } source line filename
    (∀ tokens, Token.ofSource source line = .ok tokens →
      (∃ ts t, tokens = ts ++ [t] ∧ t.kind = .endOfInput ∧ ∀ u ∈ ts, u.kind ≠ .endOfInput) ∧
      (∀ t ∈ tokens, t.ListedAs t.row) ∧
      (∃ code, plain.ended = .ok code ∧ listed.ended = .ok code) ∧
      listed.written.out = plain.written.out ∧
      listed.written.err = String.join (tokens.map Token.row) ++ plain.written.err) ∧
    (∀ ts f, (Cursor.ofSource source line).listing = (ts, some (.fault f)) →
      Token.ofSource source line = .error (.fault f) ∧
      (∀ t ∈ ts, t.ListedAs t.row) ∧
      listed.written.out = "" ∧
      listed.written.err = String.join (ts.map Token.row) ++ (f.snippet filename ++ "\n") ∧
      listed.ended = .ok (faultCode f) ∧
      ((faultCode f = formCode ∧ ∃ text, f.cause = .character text) ∨
        (faultCode f = valueCode ∧ ∃ digits, f.cause = .numeral digits)) ∧
      ∃ code, plain.ended = .ok code ∧
        (code = okCode ↔ settings.allowTrailing = true ∧ ∃ v, Accepts ts v)) ∧
    ∀ ts : List Token, Text.feedLines (String.join (ts.map Token.row)) = ts.map Token.row := by
  intro plain listed
  have hplain : plain = answer settings source line filename := rfl
  obtain ⟨_, -, us, -, hkinds, hend⟩ := Cursor.exists_listing_eq (Cursor.ofSource source line)
  have hrows : ∀ t ∈ (Cursor.ofSource source line).listing.1, t.ListedAs t.row :=
    fun t ht => Cursor.listedAs_of_mem_listing ht
  refine ⟨fun tokens htokens => ?_, fun ts f hlisting => ?_, feedLines_rows⟩
  · rcases hend with ⟨t, -, hk, hlisting⟩ | ⟨e, -, hlisting⟩
    · rw [Token.ofSource, hlisting] at htokens
      cases htokens
      obtain ⟨code, hcode, -⟩ := finishes_answer settings source line filename
        (by rw [hlisting]; simp)
      have hlisted : listed = plain.after (.ofErr (String.join ((us ++ [t]).map Token.row))) :=
        processLine_listed settings filename hlisting
      rw [hlisting] at hrows
      rw [hlisted, hplain]
      exact ⟨⟨us, t, rfl, hk, hkinds⟩, hrows, ⟨code, hcode, hcode⟩, String.empty_append, rfl⟩
    · rw [Token.ofSource, hlisting] at htokens
      cases htokens
  · have hts : ∀ t ∈ ts, t.kind ≠ .endOfInput := by
      rcases hend with ⟨t, -, -, hlisting'⟩ | ⟨e, -, hlisting'⟩ <;>
        rw [hlisting] at hlisting' <;> cases hlisting'
      exact hkinds
    rw [hlisting] at hrows
    have hsome := congrArg Prod.snd hlisting
    have hlisted : listed =
        (refuse filename (.fault f)).after (.ofErr (String.join (ts.map Token.row))) :=
      processLine_listed settings filename hlisting
    obtain ⟨code, hcode, hok⟩ := finishes_answer settings source line filename
      (by rw [hsome]; simp)
    rw [hlisted, hplain]
    refine ⟨by rw [Token.ofSource, hlisting], hrows, String.empty_append, rfl, rfl,
      fault_of_listing hsome, code, hcode, hok.trans ⟨?_, ?_⟩⟩
    · rintro ⟨v, hv⟩
      obtain ⟨htrailing, haccepts⟩ := accepts_of_evaluate hlisting hts hv
      exact ⟨htrailing, v, haccepts⟩
    · rintro ⟨htrailing, v, haccepts⟩
      rw [htrailing]
      exact ⟨v, evaluate_of_accepts (congrArg Prod.fst hlisting) haccepts⟩

/-- The character that is no token stands behind the token that is looked at after the sum: the
value is not printed, though the line has one. -/
theorem processLine_debug_trailing :
    let settings := { Settings.default with allowTrailing := true }
    let plain := processLine { settings with debug := false } "1+2 3$" 1 "<stdin>"
    let listed := processLine { settings with debug := true } "1+2 3$" 1 "<stdin>"
    plain = .done (.ofOut "3\n") okCode ∧ listed.written.out = "" ∧ listed.ended = .ok formCode ∧
      ∃ v, Accepts (Cursor.ofSource "1+2 3$" 1).listing.1 v := by
  intro settings plain listed
  have hfault : (Cursor.ofSource "1+2 3$" 1).listing.2 = some (.fault
      ⟨.character "$", ⟨.onLine 1 5, .onLine 1 6⟩, "1+2 3$"⟩) := by decide +kernel
  have hplain : plain = .done (.ofOut "3\n") okCode := by
    have hvalue : evaluate "1+2 3$" 1 true = .ok 3 := by decide +kernel
    show answer settings "1+2 3$" 1 "<stdin>" = _
    rw [answer, show settings.allowTrailing = true from rfl, hvalue]
    rfl
  obtain ⟨-, -, hout, -, hended, -, code, hcode, hok⟩ :=
    (processLine_debug settings "1+2 3$" 1 "<stdin>").2.1 _ _ (Prod.ext rfl hfault)
  refine ⟨hplain, hout, hended, (hok.1 ?_).2⟩
  rw [show processLine _ _ _ _ = _ from hplain] at hcode
  cases hcode
  rfl

end Abacus

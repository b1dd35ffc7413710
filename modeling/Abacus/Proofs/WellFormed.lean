import Abacus.Editor.Diagnostic
import Abacus.Proofs.LineByLine
import Abacus.Proofs.Lookahead
import Abacus.Proofs.WordKinds

/-!
# Faults of form and faults of value

The reader evaluates while it reads, and so a fault of value is found with the rest of the line
unread. What it says of the form of the line reaches as far as the reading did: the words up to
there begin a sentence. Whether they are followed by the end of one, nobody has looked; the line is
well-formed exactly if they are. In the other direction nothing is lost. A line with a value is
well-formed, and a fault of form is only reported for a line that is not, or that nests too deep.

`Ends` has one case for each way in which strict reading of a text can end, with what it shows about
the words that were passed over.
-/

namespace Abacus

open Reader
open Editor (diagnoseLine Diagnostic)
open Session (processLine faultCode okCode formCode valueCode)

/-- How far into the text the fault says anything of its form: up to a numeral whose value does not
fit, and else up to the end of what is to blame. -/
def Fault.reach (f : Fault) : Nat :=
  match f.cause with
  | .numeral _ => f.span.start.offset
  | _ => f.span.stop.offset

/-- The first `n` characters are words with which a sentence begins, and it depends on the others
alone whether the whole text is one. -/
def WellFormedUpTo (source : String) (n : Nat) : Prop :=
  ∃ ks, kindsOf (source.toList.take n) = some ks ∧ Viable (ones ks) ∧
    (WellFormed source ↔
      ∃ ks' ∈ kindsOf (source.toList.drop n), Sentence (ones (ks ++ ks')))

/-- How strict reading of a text ends, after it has passed over some tokens. -/
inductive Ends [Host] (source : String) (line : Int) : Except Failure Int → Prop
  | value {ts : List Token} {c : Cursor} {v : Int}
      (hts : Cursor.Passes (.ofSource source line) ts c) (hrest : Blanks c.rest)
      (h : Sentence ts) : Ends source line (.ok v)
  | item {ts : List Token} {c : Cursor} {e : Failure}
      (hts : Cursor.Passes (.ofSource source line) ts c) (he : c.next.1 = .error e)
      (h : Viable ts) : Ends source line (.error e)
  | mismatch {ts : List Token} {c : Cursor} {k : Token} {x : Expectation}
      (hts : Cursor.Passes (.ofSource source line) ts c) (hk : c.next.1 = .ok k)
      (hend : k.kind = .endOfInput → ¬ Sentence ts) (hmid : ¬ Viable (ts ++ [k])) :
      Ends source line (.error (.fault ⟨.mismatch x k, k.span, source⟩))
  | nesting {ts : List Token} {c : Cursor} {k : Token}
      (hts : Cursor.Passes (.ofSource source line) ts c)
      (h : Leads ts .operand (maxDepth + 1)) :
      Ends source line (.error (.fault ⟨.nesting k, k.span, source⟩))
  | operation {ts : List Token} {c : Cursor} {f : Fault}
      (hts : Cursor.Passes (.ofSource source line) ts c) (h : Viable ts)
      (hf : f.cause.isEvaluation = true) (hreach : f.reach = c.offset) :
      Ends source line (.error (.fault f))

variable {source : String} {line : Int} {c : Cursor} {ts : List Token} {k t : Token} {due : Due}
  {m n : Nat} {f : Fault} {e : Failure} {v : Int} {w rest : List Char}

/-! ## How reading ends -/

theorem not_viable_of_step (h : Leads ts due m) (hstep : due.step k.kind m = none) :
    ¬ Viable (ts ++ [k]) := by
  intro hv
  exact viable_iff_scan.1 hv (h.scan_eq_none hstep)

/-- The failure of an operation reaches up to the end of its right operand. -/
theorem EndsInFailure.reach_eq (h : EndsInFailure source ts f)
    (hts : Cursor.Passes c ts c') : f.cause.isEvaluation = true ∧ f.reach = c'.offset := by
  cases h with
  | @intro d ℓ ℓ' pre ls ms l o m op e g a b z hℓ he ha hop hg hb hz =>
      have hlast := List.dropLast_concat_getLast (List.cons_ne_nil m ms)
      have hsplit : pre ++ (l :: ls ++ o :: m :: ms) =
          (pre ++ (l :: ls) ++ [o] ++ (m :: ms).dropLast) ++
            [(m :: ms).getLast (List.cons_ne_nil m ms)] := by
        rw [List.append_assoc, hlast]
        simp
      rw [hsplit] at hts
      have hstop := congrArg Position.offset hts.stop_eq
      cases z with
      | zeroDivisor => exact ⟨rfl, hstop⟩
      | tooLarge x => exact ⟨rfl, hstop⟩

theorem ends_of_fails [Host] {r r' : Reader} (hc : (Cursor.ofSource source line).Shows r)
    (h : Fails source maxDepth .expression r e r') : Ends source line (.error e) := by
  cases h with
  | @item ts due m _ r₁ _ hts hlead he =>
      have hkind := hlead.kind_ne_endOfInput
      obtain ⟨c₁, hpasses, hc₁⟩ := hc.passes hts fun t ht => hkind t (by simp [ht])
      obtain ⟨c₂, hreads, hstream⟩ := hc₁.reads (hkind _ (by simp))
      have hnext := eat_error he
      rw [hstream, Cursor.toStream_next_fst] at hnext
      exact .item (hpasses.append (.cons hreads (.nil c₂))) hnext hlead.viable
  | @mismatch ts due m x r₁ hts hlead hm hstep _ =>
      obtain ⟨c₁, hpasses, hc₁⟩ := hc.passes hts hlead.kind_ne_endOfInput
      have hnone := hstep 0
      rw [Nat.zero_add] at hnone
      refine .mismatch hpasses hc₁.next_fst (fun _ hs => ?_) (not_viable_of_step hlead hnone)
      have heq := (hlead 0).symm.trans hs.scan_eq
      rw [Option.some.injEq, Prod.mk.injEq] at heq
      exact hm heq.1 (by omega)
  | @operation pre j d₀ ℓ₀ _ r₀ _ hpre hlead hd hb =>
      obtain ⟨f, us, rfl, hus, hlead', hf⟩ := endsInFailure_of_breaks pre hb
      have hall := hlead.append hlead'
      obtain ⟨c₁, hpasses, -⟩ := hc.passes (hpre.append hus) hall.kind_ne_endOfInput
      obtain ⟨heval, hreach⟩ := hf.reach_eq hpasses
      exact .operation hpasses hall.viable heval hreach
  | @nesting ts r₁ hts hlead =>
      obtain ⟨c₁, hpasses, -⟩ := hc.passes hts hlead.kind_ne_endOfInput
      exact .nesting hpasses hlead

theorem ends_evaluate [Host] (source : String) (line : Int) :
    Ends source line (evaluate source line false) := by
  rw [evaluate_eq_stream]
  cases hr : ofStream (Cursor.ofSource source line).toStream with
  | error e =>
      rw [evaluate_of_no_reader hr]
      have hnext := ofStream_eq_error_iff.1 hr
      rw [Cursor.toStream_next_fst] at hnext
      exact .item (.nil _) hnext (by decide)
  | ok r =>
      have hc : (Cursor.ofSource source line).Shows r := ofStream_eq_ok hr
      have hout := expression_outcome source r
      cases hexpr : expression source r with
      | error e r' =>
          rw [evaluate_of_no_expression hr hexpr]
          rw [hexpr] at hout
          cases hout with
          | failure hf => exact ends_of_fails hc hf
      | ok v r' =>
          rw [(evaluate_policies hr hexpr).2]
          rw [hexpr] at hout
          cases hout with
          | @value ts e _ _ hts he hv hstop =>
              obtain ⟨c₁, hpasses, hc₁⟩ := hc.passes hts he.leads.kind_ne_endOfInput
              have hsent : Sentence ts := he.phrase
              split
              · next hk =>
                  have hblanks := (Cursor.exists_blanks_of_endOfInput hc₁.next_fst hk).1
                  exact .value hpasses hblanks hsent
              · next hk =>
                  exact .mismatch hpasses hc₁.next_fst (fun h => absurd h hk)
                    (not_viable_of_step he.leads (step_operator_zero hstop))

/-! ## What the form of the rest has to be -/

theorem Cursor.Passes.wellFormed_iff (h : Cursor.Passes (.ofSource source line) ts c) :
    WellFormed source ↔ ∃ ks ∈ kindsOf c.rest, Sentence (ones (ts.map Token.kind ++ ks)) := by
  have hkinds : kindsOf source.toList = _ := h.kindsOf_eq
  rw [WellFormed, hkinds]
  constructor
  · rintro ⟨ks, hks, hs⟩
    obtain ⟨ks', hks', rfl⟩ := Option.map_eq_some_iff.1 hks
    exact ⟨ks', hks', hs⟩
  · rintro ⟨ks, hks, hs⟩
    exact ⟨_, Option.map_eq_some_iff.2 ⟨ks, hks, rfl⟩, hs⟩

theorem wellFormed_of_blanks (h : Cursor.Passes (.ofSource source line) ts c)
    (hrest : Blanks c.rest) : WellFormed source ↔ Sentence ts := by
  rw [h.wellFormed_iff, kindsOf, wordKinds_blanks hrest]
  simp [sentence_ones]

theorem not_wellFormed_of_token (h : Cursor.Passes (.ofSource source line) ts c)
    (hk : c.next.1 = .ok k) (hend : k.kind ≠ .endOfInput) (hv : ¬ Viable (ts ++ [k])) :
    ¬ WellFormed source := by
  rw [h.wellFormed_iff]
  rintro ⟨ks, hks, hs⟩
  have hreads := Cursor.reads_iff.2 ⟨(Prod.ext hk rfl : c.next = (.ok k, c.next.2)), hend⟩
  rw [hreads.kindsOf_eq] at hks
  obtain ⟨ks', -, rfl⟩ := Option.map_eq_some_iff.1 hks
  refine hv (viable_ones.1 (Viable.of_append (ones ks') ?_))
  have happend : ones ((ts ++ [k]).map Token.kind) ++ ones ks' =
      ones (ts.map Token.kind ++ k.kind :: ks') := by simp [ones]
  rw [happend]
  exact hs.viable

theorem not_shallow_of_leads [Host] (h : Cursor.Passes (.ofSource source line) ts c)
    (hlead : Leads ts .operand (maxDepth + 1)) (hw : WellFormed source) : ¬ Shallow source := by
  intro hshallow
  obtain ⟨ks, hks, -⟩ := h.wellFormed_iff.1 hw
  have hkinds : kindsOf source.toList = _ := h.kindsOf_eq
  have hmem : ts.map Token.kind ++ ks ∈ kindsOf source.toList := by
    rw [hkinds]
    exact Option.map_eq_some_iff.2 ⟨ks, hks, rfl⟩
  have hn := hshallow _ hmem
  have hle := hn (ones (ts.map Token.kind)) ⟨ones ks, by simp [ones]⟩
  have hb := hlead.balance
  have hopened : opened (ones (ts.map Token.kind)) = opened ts := by
    simp [opened, ones, List.countP_map, Function.comp_def]
  have hclosed : closed (ones (ts.map Token.kind)) = closed ts := by
    simp [closed, ones, List.countP_map, Function.comp_def]
  omega

theorem not_wellFormed_of_mismatch (h : Cursor.Passes (.ofSource source line) ts c)
    (hk : c.next.1 = .ok k) (hend : k.kind = .endOfInput → ¬ Sentence ts)
    (hv : ¬ Viable (ts ++ [k])) : ¬ WellFormed source := by
  by_cases hkind : k.kind = .endOfInput
  · have hblanks := (Cursor.exists_blanks_of_endOfInput hk hkind).1
    rw [wellFormed_of_blanks h hblanks]
    exact hend hkind
  · exact not_wellFormed_of_token h hk hkind hv

/-- Where tokens that begin a sentence have been passed over, the rest decides. -/
theorem wellFormedUpTo_of_passes (h : Cursor.Passes (.ofSource source line) ts c) (hv : Viable ts)
    (hw : Blanks w) (hrest : c.rest = w ++ rest) (hn : n = c.offset + w.length) :
    WellFormedUpTo source n := by
  obtain ⟨front, hfront, hc⟩ := h.exists_rest
  have hsource : source.toList = (front ++ w) ++ rest := by
    rw [List.append_assoc, ← hrest]
    exact hfront
  have hoffset : c.offset = front.length := by
    have hoffset : c.offset = 0 + front.length := congrArg Cursor.offset hc
    omega
  have hlen : n = (front ++ w).length := by rw [hn, hoffset, List.length_append]
  refine ⟨ts.map Token.kind, ?_, viable_ones.2 hv, ?_⟩
  · rw [hsource, hlen, List.take_left, kindsOf, wordKinds_append_blanks hw]
    exact h.kindsOf_front hfront
  · rw [h.wellFormed_iff, hsource, hlen, List.drop_left, hrest, kindsOf_blanks_append hw]

/-! ## Faults of the line -/

/-- A token that cannot be read is a numeral with the line in order before it, or else the line
is not well-formed. -/
theorem form_of_next_error (h : Cursor.Passes (.ofSource source line) ts c)
    (he : c.next.1 = .error (.fault f)) :
    (f.cause.isEvaluation = false → ¬ WellFormed source) ∧
      (f.cause.isEvaluation = true → Viable ts → WellFormedUpTo source f.reach) := by
  rcases Cursor.kindsOf_of_next_error he with
    ⟨hf, hnone⟩ | ⟨w, ds, rest, hw, hds, hend, hrest, hcause, hspan⟩
  · refine ⟨fun _ hwell => ?_, fun hf' => absurd (hf.symm.trans hf') (by decide)⟩
    obtain ⟨ks, hks, -⟩ := h.wellFormed_iff.1 hwell
    rw [hnone] at hks
    cases hks
  · refine ⟨fun hf => absurd (hcause ▸ hf) (by simp [Cause.isEvaluation]), fun _ hv => ?_⟩
    refine wellFormedUpTo_of_passes h hv hw hrest ?_
    rw [Fault.reach, hcause, hspan]
    rfl

theorem wellFormed_of_evaluate [Host] (h : evaluate source line false = .ok v) :
    WellFormed source := by
  have hends := ends_evaluate source line
  rw [h] at hends
  cases hends with
  | value hts hrest hs => exact (wellFormed_of_blanks hts hrest).2 hs

/-- A fault of form is only found in a line that is not well-formed, or too deep. -/
theorem not_wellFormed_of_form [Host] (h : evaluate source line false = .error (.fault f))
    (hf : f.cause.isEvaluation = false) (hshallow : Shallow source) : ¬ WellFormed source := by
  have hends := ends_evaluate source line
  rw [h] at hends
  cases hends with
  | item hts he _ => exact (form_of_next_error hts he).1 hf
  | mismatch hts hk hend hmid => exact not_wellFormed_of_mismatch hts hk hend hmid
  | nesting hts hlead => exact fun hw => not_shallow_of_leads hts hlead hw hshallow
  | operation _ _ hf' => rw [hf] at hf'; cases hf'

/-- A fault of value is only found in a line that is in order up to there. -/
theorem wellFormedUpTo_of_value [Host] (h : evaluate source line false = .error (.fault f))
    (hf : f.cause.isEvaluation = true) : WellFormedUpTo source f.reach := by
  have hends := ends_evaluate source line
  rw [h] at hends
  cases hends with
  | item hts he hv => exact (form_of_next_error hts he).2 hf hv
  | mismatch => cases hf
  | nesting => cases hf
  | operation hts hv _ hreach =>
      exact wellFormedUpTo_of_passes (w := []) hts hv (by simp [Blanks]) rfl hreach

theorem not_wellFormed_of_table (h : (Token.table source line).2 = some (.fault f))
    (hf : f.cause.isEvaluation = false) : ¬ WellFormed source := by
  obtain ⟨ts, c, hts, he⟩ := Cursor.exists_passes_of_listing (.ofSource source line) _ h
  exact (form_of_next_error hts he).1 hf

/-! ## Codes and severities -/

/-- Where the code of a line comes from. -/
theorem processLine_code [Host] {settings : Settings} {filename : String} {code : Nat}
    (h : (processLine settings source line filename).ended = .ok code) :
    (code = okCode ∧ ∃ v, evaluate source line settings.allowTrailing = .ok v) ∨
    ∃ f, code = faultCode f ∧
      (evaluate source line settings.allowTrailing = .error (.fault f) ∨
        (Token.table source line).2 = some (.fault f)) := by
  rcases Session.processLine_cases settings source line filename with
    ⟨v, hv, hended⟩ | ⟨e, -, hended, he⟩
  · rw [h] at hended
    cases hended
    exact .inl ⟨rfl, v, hv⟩
  · rw [h] at hended
    cases e with
    | fault f =>
        cases hended
        exact .inr ⟨f, rfl, he⟩
    | overlong digits => cases hended

theorem faultCode_eq_valueCode : faultCode f = valueCode ↔ f.cause.isEvaluation = true := by
  rw [faultCode]
  cases f.cause.isEvaluation <;> simp [formCode, valueCode]

/-- Form and value of a line, under the strict policy. If the line has a value it is well-formed. If
it has a fault of form it is not, unless it nests too deep. A fault of value says that the words up
to it begin a sentence, and leaves it to what follows whether the line is well-formed. So a
well-formed line never gets the code or the severity of a fault of form, and a line that is not
well-formed gets the one or the other, but is never let pass. -/
theorem form_of_faults [Host] (source : String) (line : Int) :
    (∀ v, evaluate source line false = .ok v → WellFormed source) ∧
    (∀ f, evaluate source line false = .error (.fault f) →
      (f.cause.isEvaluation = false → Shallow source → ¬ WellFormed source) ∧
      (f.cause.isEvaluation = true → WellFormedUpTo source f.reach)) ∧
    (∀ settings filename code, settings.allowTrailing = false →
      (processLine settings source line filename).ended = .ok code →
      (¬ WellFormed source → code = formCode ∨ code = valueCode) ∧
      (WellFormed source → Shallow source → code = okCode ∨ code = valueCode)) ∧
    (∀ number d, Text.isBlankLine source = false → diagnoseLine source number = .ok d →
      (¬ WellFormed source → d ≠ none) ∧
      (WellFormed source → Shallow source → ∀ x ∈ d, x.severity = .warning)) := by
  refine ⟨fun v => wellFormed_of_evaluate, fun f h => ⟨not_wellFormed_of_form h,
    wellFormedUpTo_of_value h⟩, fun settings filename code hstrict h => ?_,
    fun number d hblank h => ?_⟩
  · rcases processLine_code h with ⟨rfl, v, hv⟩ | ⟨f, rfl, hf⟩
    · rw [hstrict] at hv
      exact ⟨fun hw => absurd (wellFormed_of_evaluate hv) hw, fun _ _ => .inl rfl⟩
    · refine ⟨fun _ => ?_, fun hw hshallow => .inr (faultCode_eq_valueCode.2 ?_)⟩
      · rw [faultCode]
        cases f.cause.isEvaluation with
        | true => exact .inr rfl
        | false => exact .inl rfl
      · by_contra heval
        rw [Bool.not_eq_true] at heval
        rcases hf with hf | hf
        · rw [hstrict] at hf
          exact not_wellFormed_of_form hf heval hshallow hw
        · exact not_wellFormed_of_table hf heval hw
  · rw [diagnoseLine, hblank, if_neg (by simp)] at h
    split at h
    · next v hv =>
        cases h
        exact ⟨fun hw => absurd (wellFormed_of_evaluate hv) hw,
          fun _ _ x hx => absurd hx (Option.not_mem_none x)⟩
    · next f hf =>
        cases h
        refine ⟨fun _ => Option.some_ne_none _, fun hw hshallow x hx => ?_⟩
        cases hx
        have heval : f.cause.isEvaluation = true := by
          by_contra heval
          rw [Bool.not_eq_true] at heval
          exact not_wellFormed_of_form hf heval hshallow hw
        rw [Diagnostic.ofFault, heval]
        rfl
    · cases h

/-- The zero divisor is found before the parenthesis that is too many. The line counts as one
without a value, although it is no expression. -/
theorem zeroDivisor_before_parenthesis :
    ¬ WellFormed "1/0)" ∧
    evaluate "1/0)" 1 false =
      .error (.fault ⟨.zeroDivisor, ⟨.onLine 1 2, .onLine 1 3⟩, "1/0)"⟩) ∧
    (processLine .default "1/0)" 1 "<stdin>").ended = .ok valueCode ∧
    diagnoseLine "1/0)" 1 = .ok (some
      ⟨⟨0, 2⟩, ⟨0, 3⟩, "division by zero: right operand of '/' is zero", .warning⟩) := by
  decide +kernel

end Abacus

import Abacus.Toml.Document

/-!
# What scanning a document can come to

Every scanner takes characters off the front of the text. So whatever a later one sees stands
somewhere in the text that the first one was given, and a scanner can only fail because of a long
integer if the digits of that integer are there to be read. There is no third way to fail.

`Keeps` says this of one result and `Scan.Honest` of a scanner. A sequence of two scanners is honest
if both are, and that carries it from the characters up to the whole document.
-/

namespace Abacus.Toml

/-- Somewhere in the text stand `n` digits in a row, with nothing but underscores between them. -/
def HoldsDigits (n : Nat) (text : List Char) : Prop :=
  ∃ run, run <:+: text ∧ (∀ c ∈ run, c.isDigit = true ∨ c = '_') ∧ run.countP Char.isDigit = n

/-- What a scanner may come to on a text. It takes characters off the front of the text. It may fail
because of an integer with too many digits to be worked out, but only if those stand in the text. -/
inductive Keeps {α : Type} (text : List Char) : Except Fault (α × List Char) → Prop
  | ok {a : α} {rest : List Char} (h : rest <:+ text) : Keeps text (.ok (a, rest))
  | malformed : Keeps text (.error .malformed)
  | overlong {n : Nat} (hn : Text.maxDigits < n) (h : HoldsDigits n text) :
      Keeps text (.error (.overlong n))

/-- The scanner keeps to that on a text. -/
def Scan.Honest {α : Type} (m : Scan α) (text : List Char) : Prop :=
  Keeps text (m text)

variable {α β : Type} {m : Scan α} {f : α → Scan β} {text rest : List Char} {n : Nat}

theorem HoldsDigits.mono (h : HoldsDigits n rest) (hr : rest <:+: text) : HoldsDigits n text := by
  obtain ⟨run, hrun, hchars, hn⟩ := h
  exact ⟨run, hrun.trans hr, hchars, hn⟩

theorem Keeps.mono {x : Except Fault (α × List Char)} (h : Keeps rest x) (hr : rest <:+ text) :
    Keeps text x := by
  cases h with
  | ok h => exact .ok (h.trans hr)
  | malformed => exact .malformed
  | overlong hn h => exact .overlong hn (h.mono hr.isInfix)

namespace Scan

/-! ## Steps -/

theorem bind_run (m : Scan α) (f : α → Scan β) (text : List Char) :
    (m >>= f) text =
      match m text with
      | .error e => .error e
      | .ok (a, rest) => f a rest := by
  show StateT.bind m f text = _
  rw [StateT.bind]
  cases m text <;> rfl

theorem lift_bind_run (x : Except Fault α) (f : α → Scan β) (text : List Char) :
    ((liftM x : Scan α) >>= f) text =
      match x with
      | .error e => .error e
      | .ok a => f a text := by
  cases x <;> rfl

theorem honest_pure (a : α) : Honest (pure a : Scan α) text :=
  .ok (List.suffix_refl text)

theorem honest_fail : Honest (fail : Scan α) text :=
  .malformed

theorem Honest.bind_of (h : Honest m text)
    (hf : ∀ a rest, m text = .ok (a, rest) → rest <:+ text → Honest (f a) rest) :
    Honest (m >>= f) text := by
  rw [Honest, bind_run]
  rw [Honest] at h
  cases hm : m text with
  | error e =>
      rw [hm] at h
      cases h with
      | malformed => exact .malformed
      | overlong hn h => exact .overlong hn h
  | ok p =>
      rw [hm] at h
      cases h with
      | ok hr => exact (hf _ _ hm hr).mono hr

theorem honest_fail_bind (f : α → Scan β) : Honest (fail >>= f) text :=
  honest_fail.bind_of fun _ _ h _ => by cases h

theorem Honest.bind (h : Honest m text) (hf : ∀ a rest, rest <:+ text → Honest (f a) rest) :
    Honest (m >>= f) text :=
  h.bind_of fun a rest _ hr => hf a rest hr

theorem honest_get_bind {f : List Char → Scan β} (hf : Honest (f text) text) :
    Honest (get >>= f) text :=
  hf

theorem honest_set_bind {f : PUnit → Scan β} (h : rest <:+ text) (hf : Honest (f ⟨⟩) rest) :
    Honest (set rest >>= f) text :=
  Keeps.mono hf h

theorem honest_peek? : Honest peek? text :=
  honest_get_bind (honest_pure _)

theorem honest_takeWhile (p : Char → Bool) : Honest (takeWhile p) text :=
  honest_get_bind (honest_set_bind (List.dropWhile_suffix p) (honest_pure _))

theorem honest_skipWhile (p : Char → Bool) : Honest (skipWhile p) text :=
  (honest_takeWhile p).bind fun _ _ _ => honest_pure _

theorem honest_skip? (word : List Char) : Honest (skip? word) text := by
  refine honest_get_bind ?_
  split
  · exact honest_set_bind (List.drop_suffix _ _) (honest_pure _)
  · exact honest_pure _

/-- Where the text does not begin with the word, nothing is taken. -/
theorem skip?_eq (word text : List Char) :
    skip? word text =
      if word.isPrefixOf text then .ok (true, text.drop word.length) else .ok (false, text) := by
  show (if word.isPrefixOf text then _ else _ : Scan Bool) text = _
  split <;> rfl

theorem honest_expect (word : List Char) : Honest (expect word) text := by
  refine (honest_skip? word).bind fun found _ _ => ?_
  split
  · exact honest_pure _
  · exact honest_fail

theorem honest_takeExactly (n : Nat) (p : Char → Bool) : Honest (takeExactly n p) text := by
  refine honest_get_bind ?_
  dsimp only
  split
  · exact honest_set_bind (List.drop_suffix n text) (honest_pure _)
  · exact honest_fail_bind _

end Scan

theorem honest_skipSpaces : skipSpaces.Honest text :=
  Scan.honest_skipWhile _

theorem honest_skipComment : skipComment.Honest text := by
  refine Scan.honest_peek?.bind fun _ _ _ => ?_
  split
  · refine (Scan.honest_takeWhile _).bind fun _ _ _ => ?_
    split
    · exact Scan.honest_fail
    · exact Scan.honest_pure _
  · exact Scan.honest_pure _

theorem honest_rounds (n : Nat) (text : List Char) : (skipLines.rounds n).Honest text := by
  induction n generalizing text with
  | zero => exact Scan.honest_pure _
  | succ n ih =>
      refine (Scan.honest_skipWhile _).bind fun _ text _ => ?_
      refine Scan.honest_peek?.bind fun _ text _ => ?_
      split
      · exact honest_skipComment.bind fun _ text _ => ih text
      · exact Scan.honest_pure _

theorem honest_skipLines : skipLines.Honest text :=
  Scan.honest_get_bind (honest_rounds _ _)

/-! ## Texts and keys -/

theorem honest_hexCharacter (digits : Nat) : (hexCharacter digits).Honest text := by
  refine (Scan.honest_takeExactly _ _).bind fun _ _ _ => ?_
  dsimp only
  split
  · exact Scan.honest_pure _
  · exact Scan.honest_fail

theorem honest_lineEnding : lineEnding.Honest text := by
  refine honest_skipSpaces.bind fun _ _ _ => Scan.honest_peek?.bind fun _ _ _ => ?_
  split
  · exact Scan.honest_pure _
  · exact (Scan.honest_skipWhile _).bind fun _ _ _ => Scan.honest_pure _
  · exact Scan.honest_fail

theorem honest_escaped (multiline : Bool) : (escaped multiline).Honest text := by
  refine Scan.honest_get_bind ?_
  split
  · exact Scan.honest_fail
  · next c rest =>
      split
      · exact honest_lineEnding
      · refine Scan.honest_set_bind (List.suffix_cons c rest) ?_
        -- One character, or several for the number of one.
        split <;> first
          | exact Scan.honest_pure _
          | exact Scan.honest_fail
          | exact (honest_hexCharacter _).bind fun _ _ _ => Scan.honest_pure _

theorem honest_basicBody_rounds (multiline : Bool) (n : Nat) (read text : List Char) :
    (basicBody.rounds multiline n read).Honest text := by
  induction n generalizing read text with
  | zero => exact Scan.honest_fail
  | succ n ih =>
      refine Scan.honest_get_bind ?_
      split
      · exact Scan.honest_fail
      · next c rest =>
          have hrest : rest <:+ c :: rest := List.suffix_cons c rest
          split
          · split
            · exact Scan.honest_set_bind hrest (Scan.honest_pure _)
            · refine (Scan.honest_skip? _).bind_of fun found after h hafter => ?_
              split
              · exact Scan.honest_pure _
              · next hfound =>
                  rw [Scan.skip?_eq] at h
                  split at h <;> cases h
                  · exact absurd rfl hfound
                  · exact Scan.honest_set_bind hrest (ih _ _)
          · split
            · exact Scan.honest_set_bind hrest
                ((honest_escaped _).bind fun _ _ _ => ih _ _)
            · split
              · exact Scan.honest_fail
              · exact Scan.honest_set_bind hrest (ih _ _)

theorem honest_basicBody (multiline : Bool) : (basicBody multiline).Honest text :=
  Scan.honest_get_bind (honest_basicBody_rounds _ _ _ _)

theorem suffix_of_splitAtMark {mark before : List Char}
    (h : splitAtMark mark text = some (before, rest)) : rest <:+ text := by
  induction text generalizing before with
  | nil =>
      rw [splitAtMark] at h
      split at h <;> cases h
      exact List.suffix_refl _
  | cons c text ih =>
      rw [splitAtMark] at h
      split at h
      · cases h
        exact List.drop_suffix _ _
      · obtain ⟨p, hp, heq⟩ := Option.map_eq_some_iff.1 h
        cases heq
        exact (ih hp).trans (List.suffix_cons c text)

theorem honest_literalBody (multiline : Bool) : (literalBody multiline).Honest text := by
  refine Scan.honest_get_bind ?_
  dsimp only
  split
  · exact Scan.honest_fail
  · next body rest hsplit =>
      split
      · exact Scan.honest_fail_bind _
      · exact Scan.honest_set_bind (suffix_of_splitAtMark hsplit) (Scan.honest_pure _)

theorem honest_extraQuotes (quote : Char) : (extraQuotes quote).Honest text := by
  refine (Scan.honest_skip? _).bind fun _ _ _ => ?_
  split
  · refine (Scan.honest_skip? _).bind fun _ _ _ => ?_
    split <;> exact Scan.honest_pure _
  · exact Scan.honest_pure _

theorem honest_singleLine (quote : Char) : (singleLine quote).Honest text := by
  refine (Scan.honest_expect _).bind fun _ _ _ => ?_
  dsimp only
  split
  · exact (honest_basicBody false).bind fun _ _ _ => Scan.honest_pure _
  · exact (honest_literalBody false).bind fun _ _ _ => Scan.honest_pure _

theorem honest_severalLines (quote : Char) : (severalLines quote).Honest text := by
  refine (Scan.honest_expect _).bind fun _ _ _ => (Scan.honest_skip? _).bind fun _ _ _ => ?_
  dsimp only
  split
  · exact (honest_basicBody true).bind fun _ _ _ =>
      (honest_extraQuotes quote).bind fun _ _ _ => Scan.honest_pure _
  · exact (honest_literalBody true).bind fun _ _ _ =>
      (honest_extraQuotes quote).bind fun _ _ _ => Scan.honest_pure _

theorem honest_quotedText (quote : Char) : (quotedText quote).Honest text := by
  refine Scan.honest_get_bind ?_
  split
  · exact honest_severalLines quote
  · exact honest_singleLine quote

theorem honest_keyPart : keyPart.Honest text := by
  refine Scan.honest_peek?.bind fun _ _ _ => ?_
  split
  · exact honest_singleLine _
  · exact honest_singleLine _
  · refine (Scan.honest_takeWhile _).bind fun _ _ _ => ?_
    split
    · exact Scan.honest_fail
    · exact Scan.honest_pure _

theorem honest_key_rounds (n : Nat) (parts : List String) (text : List Char) :
    (key.rounds n parts).Honest text := by
  induction n generalizing parts text with
  | zero => exact Scan.honest_pure _
  | succ n ih =>
      refine (Scan.honest_skip? _).bind fun _ _ _ => ?_
      split
      · exact honest_skipSpaces.bind fun _ _ _ => honest_keyPart.bind fun _ _ _ =>
          honest_skipSpaces.bind fun _ _ _ => ih _ _
      · exact Scan.honest_pure _

theorem honest_key : key.Honest text :=
  honest_keyPart.bind fun _ _ _ => honest_skipSpaces.bind fun _ _ _ =>
    Scan.honest_get_bind (honest_key_rounds _ _ _)

/-! ## Numbers -/

/-- A run of digits is read up to its end, and its underscores are left out. -/
theorem exists_run_of_moreDigits (p : Char → Bool) (text : List Char) :
    ∃ run, text = run ++ (moreDigits p text).2 ∧ (∀ c ∈ run, p c = true ∨ c = '_') ∧
      (p '_' = false → run.countP p = (moreDigits p text).1.length) := by
  fun_induction moreDigits p text with
  | case1 c rest hc digits after hmore ih =>
      obtain ⟨run, hrun, hchars, hcount⟩ := ih
      rw [hmore] at hrun hcount
      refine ⟨'_' :: c :: run, by rw [hrun]; rfl, ?_, fun hp => ?_⟩
      · simpa [hc] using hchars
      · simp [hp, hc, hcount hp]
  | case3 c rest _ hc digits after hmore ih =>
      obtain ⟨run, hrun, hchars, hcount⟩ := ih
      rw [hmore] at hrun hcount
      refine ⟨c :: run, by rw [hrun]; rfl, ?_, fun hp => ?_⟩
      · simpa [hc] using hchars
      · simp [hc, hcount hp]
  | case2 | case4 | case5 => exact ⟨[], rfl, by simp, fun _ => rfl⟩

theorem exists_run_of_digitRun? {p : Char → Bool} {digits : List Char}
    (h : digitRun? p text = some (digits, rest)) :
    ∃ run, text = run ++ rest ∧ (∀ c ∈ run, p c = true ∨ c = '_') ∧
      (p '_' = false → run.countP p = digits.length) := by
  cases text with
  | nil => cases h
  | cons c text =>
      rw [digitRun?] at h
      split at h
      · next hc =>
          cases h
          obtain ⟨run, hrun, hchars, hcount⟩ := exists_run_of_moreDigits p text
          refine ⟨c :: run, by rw [List.cons_append, ← hrun], ?_, fun hp => ?_⟩
          · simpa [hc] using hchars
          · simp [hc, hcount hp]
      · cases h

theorem suffix_of_digitRun? {p : Char → Bool} {digits : List Char}
    (h : digitRun? p text = some (digits, rest)) : rest <:+ text := by
  obtain ⟨run, rfl, -, -⟩ := exists_run_of_digitRun? h
  exact List.suffix_append run rest

theorem suffix_sign (text : List Char) : (sign text).2 <:+ text := by
  unfold sign
  split <;> simp

theorem suffix_of_based? {k : Int} (h : based? text = some (k, rest)) : rest <:+ text := by
  unfold based? at h
  split at h
  · next mark more =>
      have hread : ∀ {base p}, ((digitRun? p more).map fun q : List Char × List Char =>
          ((valueIn base q.1 : Int), q.2)) = some (k, rest) → rest <:+ more := by
        intro base p h
        obtain ⟨q, hq, heq⟩ := Option.map_eq_some_iff.1 h
        cases heq
        exact suffix_of_digitRun? hq
      have hmore : more <:+ '0' :: mark :: more :=
        (List.suffix_cons mark more).trans (List.suffix_cons '0' _)
      dsimp only at h
      split at h
      · exact (hread h).trans hmore
      · exact (hread h).trans hmore
      · exact (hread h).trans hmore
      · cases h
  · cases h

theorem suffix_fraction (text : List Char) : (fraction text).2 <:+ text := by
  unfold fraction
  split
  · next more =>
      split
      · next digits after h => exact (suffix_of_digitRun? h).trans (List.suffix_cons '.' more)
      · exact List.suffix_refl _
  · exact List.suffix_refl _

theorem suffix_exponent (text : List Char) : (exponent text).2 <:+ text := by
  unfold exponent
  split
  · exact List.suffix_refl _
  · next e more =>
      split
      · dsimp only
        split
        · next digits after h =>
            exact ((suffix_of_digitRun? h).trans (suffix_sign more)).trans (List.suffix_cons e more)
        · exact List.suffix_refl _
      · exact List.suffix_refl _

/-- The digits before a point stand at the front of the text. -/
theorem exists_run_of_wholePart? {whole : List Char} (h : wholePart? text = some (whole, rest)) :
    ∃ run, text = run ++ rest ∧ (∀ c ∈ run, c.isDigit = true ∨ c = '_') ∧
      run.countP Char.isDigit = whole.length := by
  unfold wholePart? at h
  split at h
  · cases h
    exact ⟨['0'], rfl, by simp, rfl⟩
  · obtain ⟨run, hrun, hchars, hcount⟩ := exists_run_of_digitRun? h
    exact ⟨run, hrun, hchars, hcount rfl⟩

/-- A decimal number leaves what is behind it, and one that is too long has its digits in the
text. -/
theorem decimal?_cases (text : List Char) :
    (∃ value rest, decimal? text = .ok (some (value, rest)) ∧ rest <:+ text) ∨
    decimal? text = .ok none ∨
    ∃ n, decimal? text = .error (.overlong n) ∧ Text.maxDigits < n ∧ HoldsDigits n text := by
  rw [decimal?]
  dsimp only
  split
  · exact .inr (.inl rfl)
  · next whole rest hwhole =>
      obtain ⟨run, hrun, hchars, hcount⟩ := exists_run_of_wholePart? hwhole
      have hsign := suffix_sign text
      have hrest : rest <:+ text :=
        (show rest <:+ (sign text).2 by rw [hrun]; exact List.suffix_append run rest).trans hsign
      have hafter : (exponent (fraction rest).2).2 <:+ text :=
        ((suffix_exponent _).trans (suffix_fraction rest)).trans hrest
      split
      · exact .inl ⟨_, _, rfl, hafter⟩
      · split
        · next hlong =>
            refine .inr (.inr ⟨_, rfl, hlong, run, ?_, hchars, hcount⟩)
            refine List.IsInfix.trans ?_ hsign.isInfix
            rw [hrun]
            exact (List.prefix_append run rest).isInfix
        · exact .inl ⟨_, _, rfl, hafter⟩

theorem suffix_of_special? {value : Value} (h : special? text = some (value, rest)) :
    rest <:+ text := by
  rw [special?] at h
  dsimp only at h
  split at h
  · cases h
    exact (List.drop_suffix 3 _).trans (suffix_sign text)
  · cases h

/-! ## Dates and times -/

theorem suffix_of_fixedDigits? {n read k : Nat}
    (h : fixedDigits? n read text = some (k, rest)) : rest <:+ text := by
  induction n generalizing read text with
  | zero =>
      cases h
      exact List.suffix_refl _
  | succ n ih =>
      cases text with
      | nil => cases h
      | cons c text =>
          rw [fixedDigits?] at h
          split at h
          · exact (ih h).trans (List.suffix_cons c text)
          · cases h

theorem suffix_of_field? {n low high k : Nat} (h : field? n low high text = some (k, rest)) :
    rest <:+ text := by
  rw [field?] at h
  split at h
  · next hfixed =>
      split at h <;> cases h
      exact suffix_of_fixedDigits? hfixed
  · cases h

theorem suffix_of_single? {c : Char} (h : single? c text = some rest) : rest <:+ text := by
  cases text with
  | nil => cases h
  | cons d text =>
      rw [single?] at h
      split at h <;> cases h
      exact List.suffix_cons d _

theorem suffix_of_date? {date : Date} (h : date? text = some (date, rest)) : rest <:+ text := by
  simp only [date?, Option.bind_eq_bind, Option.bind_eq_some_iff, Option.pure_def,
    Option.some.injEq, Prod.mk.injEq] at h
  obtain ⟨⟨year, r₁⟩, h₁, r₂, h₂, ⟨month, r₃⟩, h₃, r₄, h₄, ⟨day, r₅⟩, h₅, -, rfl⟩ := h
  exact (suffix_of_field? h₅).trans ((suffix_of_single? h₄).trans ((suffix_of_field? h₃).trans
    ((suffix_of_single? h₂).trans (suffix_of_field? h₁))))

theorem suffix_of_afterTime? (h : afterTime? text = some rest) : rest <:+ text := by
  simp only [afterTime?, Option.bind_eq_bind, Option.bind_eq_some_iff] at h
  obtain ⟨⟨hour, r₁⟩, h₁, r₂, h₂, ⟨minute, r₃⟩, h₃, r₄, h₄, ⟨second, r₅⟩, h₅, h⟩ := h
  have hfront : r₅ <:+ text := (suffix_of_field? h₅).trans ((suffix_of_single? h₄).trans
    ((suffix_of_field? h₃).trans ((suffix_of_single? h₂).trans (suffix_of_field? h₁))))
  refine List.IsSuffix.trans ?_ hfront
  dsimp only at h
  split at h
  · next c more =>
      cases h
      split
      · exact (List.dropWhile_suffix _).trans
          ((List.suffix_cons c more).trans (List.suffix_cons '.' _))
      · exact List.suffix_refl _
  · cases h
    exact List.suffix_refl _

theorem suffix_afterOffset (text : List Char) : afterOffset text <:+ text := by
  unfold afterOffset
  split
  · next c more =>
      split
      · exact List.suffix_cons c more
      · split
        · dsimp only
          unfold Option.getD
          split
          · next rest h =>
              simp only [Option.bind_eq_bind, Option.bind_eq_some_iff, Option.pure_def,
                Option.some.injEq] at h
              obtain ⟨⟨hour, r₁⟩, h₁, r₂, h₂, ⟨minute, r₃⟩, h₃, rfl⟩ := h
              exact ((suffix_of_field? h₃).trans ((suffix_of_single? h₂).trans
                (suffix_of_field? h₁))).trans (List.suffix_cons c more)
          · exact List.suffix_refl _
        · exact List.suffix_refl _
  · exact List.suffix_refl _

theorem suffix_afterDayTime (text : List Char) : afterDayTime text <:+ text := by
  unfold afterDayTime
  split
  · next c more =>
      split
      · split
        · next rest hrest =>
            exact (suffix_afterOffset rest).trans
              ((suffix_of_afterTime? hrest).trans (List.suffix_cons c more))
        · exact List.suffix_refl _
      · exact List.suffix_refl _
  · exact List.suffix_refl _

theorem suffix_of_dateTime? {valid : Bool} {value : Value}
    (h : dateTime? text = some (valid, value, rest)) : rest <:+ text := by
  obtain ⟨⟨date, after⟩, hdate, heq⟩ := Option.map_eq_some_iff.1 h
  cases heq
  exact (suffix_afterDayTime after).trans (suffix_of_date? hdate)

theorem suffix_of_time? {value : Value} (h : time? text = some (value, rest)) : rest <:+ text := by
  obtain ⟨after, hafter, heq⟩ := Option.map_eq_some_iff.1 h
  cases heq
  exact suffix_of_afterTime? hafter

/-! ## Values -/

theorem honest_scalar : scalar.Honest text := by
  refine Scan.honest_get_bind ?_
  split
  · next valid value rest h =>
      split
      · exact Scan.honest_set_bind (suffix_of_dateTime? h) (Scan.honest_pure _)
      · exact Scan.honest_fail
  · split
    · next value rest h =>
        exact Scan.honest_set_bind (suffix_of_time? h) (Scan.honest_pure _)
    · split
      · next k rest h =>
          exact Scan.honest_set_bind (suffix_of_based? h) (Scan.honest_pure _)
      · rw [Scan.Honest, Scan.lift_bind_run]
        rcases decimal?_cases text with ⟨value, rest, h, hrest⟩ | h | ⟨n, h, hn, hdigits⟩
        · rw [h]
          exact Scan.honest_set_bind hrest (Scan.honest_pure _)
        · rw [h]
          cases hspecial : special? text with
          | none => exact Scan.honest_fail
          | some p => exact Scan.honest_set_bind (suffix_of_special? hspecial) (Scan.honest_pure _)
        · rw [h]
          exact .overlong hn hdigits

theorem honest_value (n : Nat) :
    (∀ text, (value n).Honest text) ∧ (∀ items text, (arrayRest n items).Honest text) ∧
      ∀ entries closed text, (tableRest n entries closed).Honest text := by
  -- The three readers count down from one number.
  induction n with
  | zero => exact ⟨fun _ => Scan.honest_fail, fun _ _ => Scan.honest_fail,
      fun _ _ _ => Scan.honest_fail⟩
  | succ n ih =>
      obtain ⟨hvalue, harray, htable⟩ := ih
      refine ⟨fun text => ?_, fun items text => ?_, fun entries closed text => ?_⟩
      · rw [value]
        refine Scan.honest_peek?.bind fun _ _ _ => ?_
        split
        · exact (honest_quotedText _).bind fun _ _ _ => Scan.honest_pure _
        · exact (honest_quotedText _).bind fun _ _ _ => Scan.honest_pure _
        · exact (Scan.honest_expect _).bind fun _ _ _ => harray _ _
        · refine (Scan.honest_expect _).bind fun _ _ _ => honest_skipSpaces.bind fun _ _ _ =>
            (Scan.honest_skip? _).bind fun _ _ _ => ?_
          split
          · exact Scan.honest_pure _
          · exact htable _ _ _
        · refine (Scan.honest_skip? _).bind fun _ _ _ => ?_
          split
          · exact Scan.honest_pure _
          · refine (Scan.honest_skip? _).bind fun _ _ _ => ?_
            split
            · exact Scan.honest_pure _
            · exact honest_scalar
      · rw [arrayRest]
        refine honest_skipLines.bind fun _ _ _ => (Scan.honest_skip? _).bind fun _ _ _ => ?_
        split
        · exact Scan.honest_pure _
        · refine (hvalue _).bind fun _ _ _ => honest_skipLines.bind fun _ _ _ =>
            (Scan.honest_skip? _).bind fun _ _ _ => ?_
          split
          · exact Scan.honest_pure _
          · exact (Scan.honest_expect _).bind fun _ _ _ => harray _ _
      · rw [tableRest]
        refine honest_key.bind fun _ _ _ => (Scan.honest_expect _).bind fun _ _ _ =>
          honest_skipSpaces.bind fun _ _ _ => (hvalue _).bind fun _ _ _ => ?_
        dsimp only
        split
        · exact Scan.honest_fail_bind _
        · split
          · exact Scan.honest_fail
          · refine honest_skipSpaces.bind fun _ _ _ => (Scan.honest_skip? _).bind fun _ _ _ => ?_
            split
            · exact Scan.honest_pure _
            · exact (Scan.honest_expect _).bind fun _ _ _ => honest_skipSpaces.bind fun _ _ _ =>
                htable _ _ _

theorem honest_keyValue : keyValue.Honest text :=
  honest_key.bind fun _ _ _ => (Scan.honest_expect _).bind fun _ _ _ =>
    honest_skipSpaces.bind fun _ text _ => Scan.honest_get_bind <|
      ((honest_value _).1 text).bind fun _ _ _ => Scan.honest_pure _

/-! ## Documents -/

theorem honest_accepted (x : Option α) : (accepted x).Honest text := by
  cases x with
  | none => exact Scan.honest_fail
  | some a => exact Scan.honest_pure _

theorem honest_header (d : Document) : (header d).Honest text := by
  refine (Scan.honest_skip? _).bind fun _ _ _ => ?_
  split
  · exact honest_skipSpaces.bind fun _ _ _ => honest_key.bind fun _ _ _ =>
      (honest_accepted _).bind fun _ _ _ => (Scan.honest_expect _).bind fun _ _ _ =>
        Scan.honest_pure _
  · exact (Scan.honest_expect _).bind fun _ _ _ => honest_skipSpaces.bind fun _ _ _ =>
      honest_key.bind fun _ _ _ => (honest_accepted _).bind fun _ _ _ =>
        (Scan.honest_expect _).bind fun _ _ _ => Scan.honest_pure _

theorem honest_statement (d : Document) (under : Key) : (statement d under).Honest text := by
  refine honest_skipSpaces.bind fun _ _ _ => Scan.honest_peek?.bind fun _ _ _ => ?_
  have hend : ∀ after text, Scan.Honest (skipSpaces >>= fun _ => skipComment >>= fun _ =>
      (pure after : Scan (Document × Key))) text := fun after text =>
    honest_skipSpaces.bind fun _ _ _ => honest_skipComment.bind fun _ _ _ => Scan.honest_pure _
  dsimp only
  split
  · exact hend _ _
  · exact hend _ _
  · exact hend _ _
  · exact (honest_header d).bind fun _ _ _ => hend _ _
  · exact honest_keyValue.bind fun _ _ _ => (honest_accepted _).bind fun _ _ _ => hend _ _

theorem honest_statements (n : Nat) (d : Document) (under : Key) (text : List Char) :
    (statements n d under).Honest text := by
  induction n generalizing d under text with
  | zero => exact Scan.honest_pure _
  | succ n ih =>
      refine (honest_statement d under).bind fun _ text _ => Scan.honest_get_bind ?_
      split
      · exact Scan.honest_pure _
      · next rest _ => exact Scan.honest_set_bind (List.suffix_cons _ rest) (ih _ _ _)
      · exact Scan.honest_fail

/-! ## Carriage returns -/

theorem prefix_of_prefix_dropReturns {run : List Char} (h : run <+: dropReturns text)
    (hrun : '\n' ∉ run) : run <+: text := by
  fun_induction dropReturns text generalizing run with
  | case1 => exact h
  | case2 rest _ =>
      rcases List.prefix_cons_iff.1 h with rfl | ⟨run, rfl, -⟩
      · exact List.nil_prefix
      · exact absurd List.mem_cons_self hrun
  | case3 c rest _ ih =>
      rcases List.prefix_cons_iff.1 h with rfl | ⟨run, rfl, hr⟩
      · exact List.nil_prefix
      · exact (List.prefix_cons_inj c).2 (ih hr (List.not_mem_of_not_mem_cons hrun))

/-- Dropping them brings no characters together but line feeds and what stands before them. -/
theorem infix_of_infix_dropReturns {run : List Char} (h : run <:+: dropReturns text)
    (hrun : '\n' ∉ run) : run <:+: text := by
  fun_induction dropReturns text with
  | case1 => exact h
  | case2 rest ih =>
      rcases List.infix_cons_iff.1 h with hr | hr
      · rw [← dropReturns.eq_2 rest] at hr
        exact (prefix_of_prefix_dropReturns hr hrun).isInfix
      · exact List.infix_cons (List.infix_cons (ih hr))
  | case3 c rest hc ih =>
      rcases List.infix_cons_iff.1 h with hr | hr
      · rw [← dropReturns.eq_3 c rest hc] at hr
        exact (prefix_of_prefix_dropReturns hr hrun).isInfix
      · exact List.infix_cons (ih hr)

theorem HoldsDigits.of_dropReturns (h : HoldsDigits n (dropReturns text)) : HoldsDigits n text := by
  obtain ⟨run, hrun, hchars, hn⟩ := h
  refine ⟨run, infix_of_infix_dropReturns hrun fun hfeed => ?_, hchars, hn⟩
  rcases hchars _ hfeed with h | h <;> cases h

theorem overlong_of_parse {text : String} (h : parse text = .error (.overlong n)) :
    Text.maxDigits < n ∧ HoldsDigits n text.toList := by
  have hhonest := honest_statements ((dropReturns text.toList).length + 1) .empty []
    (dropReturns text.toList)
  rw [Scan.Honest] at hhonest
  rw [parse] at h
  split at h
  · cases h
  · next e hrun =>
      cases h
      rw [StateT.run] at hrun
      rw [hrun] at hhonest
      cases hhonest with
      | overlong hn hdigits => exact ⟨hn, hdigits.of_dropReturns⟩

end Abacus.Toml

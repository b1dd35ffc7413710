import Abacus.Proofs.Numerals
import Abacus.Proofs.Scanning

/-!
# Every spelling of a tree is worth the tree

The end of the line from characters to values. A tree is spelled in many ways: with leading zeros,
with white space wherever two tokens meet, with parentheses that nothing calls for. `Spells` allows
all of them and keeps to the grammar otherwise, so that the text of a chain leans to the left and
the tighter operators stand inside the looser ones. Whichever way was chosen, the text comes to the
value of the tree, or fails as the tree fails.

The proof goes from the left through the text. What follows a part of it must not begin with a
digit, or else a numeral at the end of the part would be longer than it is written; a gap, an
operator and a parenthesis all see to that.
-/

namespace Abacus

open Reader

/-- The character that an operation is written with. -/
def Operation.sign : Operation → Char
  | .add => '+'
  | .subtract => '-'
  | .multiply => '*'
  | .divide => '/'

/-- The texts that spell a tree as a phrase of a rule, with at most `d` parentheses open at a
time. -/
inductive Spells : Nat → Level → List Char → Expr → Prop
  | literal {d : Nat} {ds : List Char} (hds : Digits ds) (hlen : ds.length ≤ 4300)
      (hfit : Text.decimalValue ds < 2 ^ 63) :
      Spells d .factor ds (.literal (Text.decimalValue ds))
  | parens {d : Nat} {w s w' : List Char} {e : Expr} (hw : Blanks w)
      (h : Spells d .expression s e) (hw' : Blanks w') :
      Spells (d + 1) .factor ('(' :: (w ++ (s ++ (w' ++ [')'])))) e
  | factor {d : Nat} {s : List Char} {e : Expr} (h : Spells d .factor s e) : Spells d .term s e
  | multiplicative {d : Nat} {s w w' s' : List Char} {op : Operation} {e f : Expr}
      (hl : Spells d .term s e) (hop : op = .multiply ∨ op = .divide) (hw : Blanks w)
      (hw' : Blanks w') (hr : Spells d .factor s' f) :
      Spells d .term (s ++ (w ++ op.sign :: (w' ++ s'))) (.binary op e f)
  | term {d : Nat} {s : List Char} {e : Expr} (h : Spells d .term s e) : Spells d .expression s e
  | additive {d : Nat} {s w w' s' : List Char} {op : Operation} {e f : Expr}
      (hl : Spells d .expression s e) (hop : op = .add ∨ op = .subtract) (hw : Blanks w)
      (hw' : Blanks w') (hr : Spells d .term s' f) :
      Spells d .expression (s ++ (w ++ op.sign :: (w' ++ s'))) (.binary op e f)

/-- The text spells the tree, with white space around it, and keeps within the limit on open
parentheses. -/
def Spelling [Host] (source : String) (e : Expr) : Prop :=
  ∃ w s w', source.toList = w ++ (s ++ w') ∧ Blanks w ∧ Spells maxDepth .expression s e ∧ Blanks w'

/-- Wherever the text stands, after white space and before no digit, it is read as a phrase that
spells the tree. -/
def Scans (d : Nat) (ℓ : Level) (s : List Char) (e : Expr) : Prop :=
  ∀ {c : Cursor} {w rest : List Char}, Blanks w → StartsWithout Char.isDigit rest →
    c.rest = w ++ (s ++ rest) → ∃ ts c', c.Passes ts c' ∧ c'.rest = rest ∧ Derives d ℓ ts e

variable {d : Nat} {ℓ ℓ' : Level} {s s' w w' rest : List Char} {e f : Expr} {op : Operation}
  {ch : Char} {k : Token.Kind} {c : Cursor}

theorem reads_symbol (hw : Blanks w) (hk : Token.Kind.ofSymbol? ch = some k)
    (hrest : c.rest = w ++ ch :: rest) : ∃ t c', c.Reads t c' ∧ t.kind = k ∧ c'.rest = rest := by
  refine ⟨_, _, .intro hw (.symbol hk) (fun hint => ?_) hrest, rfl, rfl⟩
  rw [hint, ← Token.Kind.symbol?_eq_some_iff] at hk
  cases hk

theorem scans_literal {ds : List Char} (hds : Digits ds) (hlen : ds.length ≤ 4300)
    (hfit : Text.decimalValue ds < 2 ^ 63) :
    Scans d .factor ds (.literal (Text.decimalValue ds)) := by
  intro c w rest hw hend hrest
  have hn := Text.ofDigits_of_fits hds.2 hlen hfit
  exact ⟨_, _, .cons (.intro hw (.integer hds hn) (fun _ => hend) hrest) (.nil _), rfl,
    .integer rfl⟩

theorem Scans.parens (h : Scans d .expression s e) (hw : Blanks w) (hw' : Blanks w') :
    Scans (d + 1) .factor ('(' :: (w ++ (s ++ (w' ++ [')'])))) e := by
  intro c v rest hv _ hrest
  have hclose : StartsWithout Char.isDigit (w' ++ ')' :: rest) :=
    hw'.startsWithout_digit (startsWithout_cons (by decide))
  obtain ⟨l, c₁, hl, hlk, hrest₁⟩ := reads_symbol (k := .leftParen) hv rfl hrest
  obtain ⟨ts, c₂, hts, hrest₂, he⟩ := h (c := c₁) hw hclose (by rw [hrest₁]; simp)
  obtain ⟨r, c₃, hr, hrk, hrest₃⟩ := reads_symbol (k := .rightParen) hw' rfl hrest₂
  exact ⟨l :: (ts ++ [r]), c₃, .cons hl (hts.append (.cons hr (.nil _))), hrest₃,
    .parens hlk he hrk⟩

theorem Scans.lift (hℓ : ℓ.operand? = some ℓ') (h : Scans d ℓ' s e) : Scans d ℓ s e := by
  intro c w rest hw hend hrest
  obtain ⟨ts, c', hts, hrest', he⟩ := h hw hend hrest
  exact ⟨ts, c', hts, hrest', he.lift hℓ⟩

theorem Scans.chain (hℓ : ℓ.operand? = some ℓ') (hl : Scans d ℓ s e)
    (hk : Token.Kind.ofSymbol? op.sign = some k) (hop : ℓ.operation? k = some op) (hw : Blanks w)
    (hw' : Blanks w') (hr : Scans d ℓ' s' f) :
    Scans d ℓ (s ++ (w ++ op.sign :: (w' ++ s'))) (.binary op e f) := by
  intro c v rest hv hend hrest
  have hsign : StartsWithout Char.isDigit (w ++ op.sign :: (w' ++ (s' ++ rest))) :=
    hw.startsWithout_digit (startsWithout_cons (symbol_not_digit hk))
  obtain ⟨ts, c₁, hts, hrest₁, he⟩ := hl (c := c) hv hsign (by rw [hrest]; simp)
  obtain ⟨o, c₂, ho, hok, hrest₂⟩ := reads_symbol hw hk hrest₁
  obtain ⟨us, c₃, hus, hrest₃, hf⟩ := hr hw' hend hrest₂
  rw [← hok] at hop
  exact ⟨ts ++ o :: us, c₃, hts.append (.cons ho hus), hrest₃, he.chain hℓ hop hf⟩

theorem Spells.scans (h : Spells d ℓ s e) : Scans d ℓ s e := by
  induction h with
  | literal hds hlen hfit => exact scans_literal hds hlen hfit
  | parens hw _ hw' ih => exact ih.parens hw hw'
  | factor _ ih => exact ih.lift (ℓ := .term) rfl
  | multiplicative _ hop hw hw' _ ihl ihr =>
      rcases hop with rfl | rfl
      · exact ihl.chain (ℓ := .term) (k := .times) rfl rfl rfl hw hw' ihr
      · exact ihl.chain (ℓ := .term) (k := .divide) rfl rfl rfl hw hw' ihr
  | term _ ih => exact ih.lift (ℓ := .expression) rfl
  | additive _ hop hw hw' _ ihl ihr =>
      rcases hop with rfl | rfl
      · exact ihl.chain (ℓ := .expression) (k := .plus) rfl rfl rfl hw hw' ihr
      · exact ihl.chain (ℓ := .expression) (k := .minus) rfl rfl rfl hw hw' ihr

/-! ## Trees that can be spelled -/

/-- Literals are not negative, and fit. -/
def Expr.InRange : Expr → Prop
  | .literal n => 0 ≤ n ∧ n < 2 ^ 63
  | .binary _ left right => left.InRange ∧ right.InRange

theorem Spells.inRange (h : Spells d ℓ s e) : e.InRange := by
  induction h with
  | @literal d ds _ _ hfit =>
      rw [Expr.InRange]
      omega
  | parens _ _ _ ih | factor _ ih | term _ ih => exact ih
  | multiplicative _ _ _ _ _ ihl ihr | additive _ _ _ _ _ ihl ihr => exact ⟨ihl, ihr⟩

theorem Spells.mono (h : Spells d ℓ s e) : ∀ {d'}, d ≤ d' → Spells d' ℓ s e := by
  induction h with
  | literal hds hlen hfit => intro d' _; exact .literal hds hlen hfit
  | parens hw _ hw' ih =>
      intro d' hd
      obtain ⟨n, rfl⟩ : ∃ n, d' = n + 1 := ⟨d' - 1, by omega⟩
      exact .parens hw (ih (by omega)) hw'
  | factor _ ih => intro d' hd; exact .factor (ih hd)
  | multiplicative _ hop hw hw' _ ihl ihr =>
      intro d' hd
      exact .multiplicative (ihl hd) hop hw hw' (ihr hd)
  | term _ ih => intro d' hd; exact .term (ih hd)
  | additive _ hop hw hw' _ ihl ihr =>
      intro d' hd
      exact .additive (ihl hd) hop hw hw' (ihr hd)

theorem spells_toDigits {n : Nat} (hn : n < 2 ^ 63) :
    Spells 0 .factor (Nat.toDigits 10 n) (.literal n) := by
  have hds : Digits (Nat.toDigits 10 n) :=
    ⟨Nat.toDigits_ne_nil, fun ch hch => Nat.isDigit_of_mem_toDigits (by omega) (by omega) hch⟩
  have hlen : (Nat.toDigits 10 n).length ≤ 20 := by
    rw [Nat.length_toDigits_le_iff (by omega) (by omega)]
    omega
  have hvalue := Text.decimalValue_toDigits n
  have h := Spells.literal (d := 0) hds (by omega) (by omega)
  rwa [hvalue] at h

theorem exists_spells_binary (hl : Spells d .factor s e) (hr : Spells d .factor s' f)
    (op : Operation) : ∃ s'', Spells d .expression s'' (.binary op e f) := by
  have hw : Blanks [] := by simp [Blanks]
  cases op with
  | multiply => exact ⟨_, .term (.multiplicative (.factor hl) (.inl rfl) hw hw hr)⟩
  | divide => exact ⟨_, .term (.multiplicative (.factor hl) (.inr rfl) hw hw hr)⟩
  | add => exact ⟨_, .additive (.term (.factor hl)) (.inl rfl) hw hw (.factor hr)⟩
  | subtract => exact ⟨_, .additive (.term (.factor hl)) (.inr rfl) hw hw (.factor hr)⟩

theorem exists_spells_factor (h : e.InRange) : ∃ d s, Spells d .factor s e := by
  induction e with
  | literal n =>
      obtain ⟨hpos, hlt⟩ := h
      obtain ⟨m, rfl⟩ := Int.eq_ofNat_of_zero_le hpos
      exact ⟨0, _, spells_toDigits (by omega)⟩
  | binary op e f ihl ihr =>
      obtain ⟨d₁, s, hs⟩ := ihl h.1
      obtain ⟨d₂, s', hs'⟩ := ihr h.2
      obtain ⟨s'', hs''⟩ := exists_spells_binary (hs.mono (Nat.le_max_left d₁ d₂))
        (hs'.mono (Nat.le_max_right d₁ d₂)) op
      have hw : Blanks [] := by simp [Blanks]
      exact ⟨_, _, .parens hw hs'' hw⟩

/-- The trees that can be spelled are those without a literal that is out of range. -/
theorem exists_spells_iff : (∃ d s, Spells d .expression s e) ↔ e.InRange := by
  constructor
  · rintro ⟨d, s, h⟩
    exact h.inRange
  · intro h
    obtain ⟨d, s, h⟩ := exists_spells_factor h
    exact ⟨d, s, .term (.factor h)⟩

/-! ## From a text to a value -/

/-- The reader of a spelled text finds a phrase for the tree, and the end of the input after it. -/
theorem Spelling.exists_reader [Host] {source : String} (h : Spelling source e) (line : Int) :
    ∃ r r' ts, ofStream (Cursor.ofSource source line).toStream = .ok r ∧ Eats r ts r' ∧
      r'.lookahead.kind = .endOfInput ∧ Derives maxDepth .expression ts e := by
  obtain ⟨w, s, w', hsource, hw, hs, hw'⟩ := h
  have hend : StartsWithout Char.isDigit w' := by
    simpa using hw'.startsWithout_digit startsWithout_nil
  obtain ⟨ts, c', hts, hrest, he⟩ := hs.scans (c := .ofSource source line) hw hend hsource
  have hnext := congrArg Prod.fst (Cursor.Step.finish hw' hrest).next_eq
  obtain ⟨r, r', hr, heats, hk⟩ := hts.exists_reader hnext
  exact ⟨r, r', ts, hr, heats, by rw [hk]; rfl, he⟩

/-- A text that spells a tree comes to the value of the tree, whichever line it is and whatever the
policy on trailing tokens. If the tree has no value, the text fails with the first failure of the
tree: a zero divisor, or a result that does not fit, with the exact result in the fault. -/
theorem evaluate_of_spelling [Host] {source : String} {e : Expr} (h : Spelling source e)
    (line : Int) (allowTrailing : Bool) :
    (∀ v, e.eval = .ok v → evaluate source line allowTrailing = .ok v) ∧
    (e.eval = .error .zeroDivisor → ∃ span,
      evaluate source line allowTrailing = .error (.fault ⟨.zeroDivisor, span, source⟩)) ∧
    (∀ x, e.eval = .error (.tooLarge x) → ∃ span,
      evaluate source line allowTrailing = .error (.fault ⟨.result x, span, source⟩)) := by
  obtain ⟨r, r', ts, hr, hts, hk, he⟩ := h.exists_reader line
  have hstop := Level.stops_of_endOfInput hk .expression
  have hcompletes : Completes source maxDepth .expression e r r' :=
    completes_of_derives he hts fun ℓ' hℓ' => ((Level.stops_iff hℓ').1 hstop).1
  have hfailure : ∀ z, e.eval = .error z → ∃ span,
      evaluate source line allowTrailing = .error (.fault ⟨z.cause, span, source⟩) := by
    intro z hz
    obtain ⟨span, r'', hrule⟩ := hcompletes.failure z hz
    have hrule : expression source r = .error (.fault ⟨z.cause, span, source⟩) r'' := hrule
    rw [evaluate_eq_stream]
    exact ⟨span, evaluate_of_no_expression hr hrule allowTrailing⟩
  refine ⟨fun v hv => ?_, hfailure .zeroDivisor, fun x => hfailure (.tooLarge x)⟩
  rw [evaluate_eq_stream]
  exact evaluate_of_endOfInput hr ((hcompletes.value v hv).stop hstop) hk allowTrailing

/-- Seven, with a leading zero, divided by a difference that is zero. -/
theorem evaluate_of_spelling_zeroDivisor :
    Spelling " 07/ (2 -2)" (.binary .divide (.literal 7)
      (.binary .subtract (.literal 2) (.literal 2))) ∧
    ∃ span, evaluate " 07/ (2 -2)" 1 false =
      .error (.fault ⟨.zeroDivisor, span, " 07/ (2 -2)"⟩) := by
  have hnone : Blanks [] := by simp [Blanks]
  have hspace : Blanks [' '] := by simp [Blanks, Text.isBlank]
  have hseven : Spells maxDepth .factor ['0', '7'] (.literal 7) :=
    .literal ⟨by simp, List.all_eq_true.1 rfl⟩ (by decide) (by decide)
  have htwo (d : Nat) : Spells d .factor ['2'] (.literal 2) :=
    .literal ⟨by simp, List.all_eq_true.1 rfl⟩ (by decide) (by decide)
  have hdifference : Spells 499 .expression "2 -2".toList
      (.binary .subtract (.literal 2) (.literal 2)) :=
    .additive (.term (.factor (htwo 499))) (.inr rfl) hspace hnone (.factor (htwo 499))
  have h : Spelling " 07/ (2 -2)" (.binary .divide (.literal 7)
      (.binary .subtract (.literal 2) (.literal 2))) :=
    ⟨[' '], "07/ (2 -2)".toList, [], by decide, hspace,
      .term (.multiplicative (.factor hseven) (.inr rfl) hnone hspace
        (.parens hnone hdifference hnone)), hnone⟩
  exact ⟨h, (evaluate_of_spelling h 1 false).2.1 rfl⟩

end Abacus

import Abacus.Proofs.Accidents
import Abacus.Proofs.Literals

/-!
# The leftmost fault of a text

Two things can be wrong with a text before there is any question of grammar: a character in it
belongs to nothing, or a run of digits in it cannot be read as a numeral. Both can be seen from the
text alone, at an index of their own, without moving any cursor over it. The tokens of a text can be
listed exactly if no index is faulty, and otherwise what is reported is the fault of the leftmost
faulty index, with the place and the characters of that one.

The invariant of the cursor is that everything behind it is in order. White space, the digits of a
numeral that was read and the characters of tokens are; and since the cursor takes all the digits
that there are, it never comes to stand where a run would seem to begin and does not.
-/

namespace Abacus

open Text (decimalValue)

/-- A character that is neither white space nor part of any token. -/
def Stray (ch : Char) : Prop :=
  Text.isBlank ch = false ∧ ch.isDigit = false ∧ ch ∉ ['+', '-', '*', '/', '(', ')']

instance (ch : Char) : Decidable (Stray ch) :=
  inferInstanceAs (Decidable (_ ∧ _ ∧ _))

/-- The digits of the text from the index on. -/
def digitsAt (text : List Char) (i : Nat) : List Char :=
  (text.drop i).takeWhile Char.isDigit

/-- At the index there is a digit, and no digit stands before it. -/
def RunBegins (text : List Char) (i : Nat) : Prop :=
  digitsAt text i ≠ [] ∧ ∀ ch ∈ (text.take i).getLast?, ch.isDigit = false

instance (text : List Char) (i : Nat) : Decidable (RunBegins text i) :=
  inferInstanceAs (Decidable (_ ∧ _))

/-- Digits that are read as no numeral: their value does not fit, or they are too many. -/
def Rejected (ds : List Char) : Prop :=
  2 ^ 63 - 1 < decimalValue ds ∨ 4300 < ds.length

instance (ds : List Char) : Decidable (Rejected ds) :=
  inferInstanceAs (Decidable (_ ∨ _))

/-- Something is wrong with the text at the index: a stray character is there, or a maximal run of
digits begins there that is rejected. -/
def Faulty (text : List Char) (i : Nat) : Prop :=
  (∃ ch ∈ text[i]?, Stray ch) ∨ (RunBegins text i ∧ Rejected (digitsAt text i))

instance (text : List Char) (i : Nat) : Decidable (Faulty text i) :=
  inferInstanceAs (Decidable (_ ∨ _))

/-- What is reported of a faulty index: the character, or the whole run of digits, or how many
digits there are if few of them count. -/
inductive Reported (source : String) (line : Int) (i : Nat) : Failure → Prop
  | stray {ch : Char} (hch : source.toList[i]? = some ch) (h : Stray ch) :
      Reported source line i (.fault
        ⟨.character (String.singleton ch), ⟨.onLine line i, .onLine line (i + 1)⟩, source⟩)
  | tooLarge {ds : List Char} (hds : digitsAt source.toList i = ds)
      (h : RunBegins source.toList i) (hlarge : 2 ^ 63 - 1 < decimalValue ds)
      (hwhy : 19 < (ds.dropWhile (· == '0')).length ∨ ds.length ≤ 4300) :
      Reported source line i (.fault
        ⟨.numeral (String.ofList ds), ⟨.onLine line i, .onLine line (i + ds.length)⟩, source⟩)
  | overlong {ds : List Char} (hds : digitsAt source.toList i = ds)
      (h : RunBegins source.toList i) (hfew : (ds.dropWhile (· == '0')).length ≤ 19)
      (hlong : 4300 < ds.length) : Reported source line i (.overlong ds.length)

variable {source : String} {line : Int} {c : Cursor} {text s w ds rest : List Char} {ch : Char}
  {i p : Nat} {e e' : Failure}

/-! ## Indices that are in order -/

theorem ofSymbol?_eq_none_iff :
    Token.Kind.ofSymbol? ch = none ↔ ch ∉ ['+', '-', '*', '/', '(', ')'] := by
  unfold Token.Kind.ofSymbol?
  split <;> simp_all

theorem digitsAt_eq_nil (h : text[i]? = some ch) (hd : ch.isDigit = false) :
    digitsAt text i = [] := by
  obtain ⟨hi, rfl⟩ := List.getElem?_eq_some_iff.1 h
  rw [digitsAt, List.drop_eq_getElem_cons hi, List.takeWhile_cons_of_neg (by simp [hd])]

theorem not_faulty_of_not_isDigit (h : text[i]? = some ch) (hd : ch.isDigit = false)
    (hs : ¬ Stray ch) : ¬ Faulty text i := by
  rintro (⟨ch', hch', hstray⟩ | ⟨⟨hne, -⟩, -⟩)
  · rw [h] at hch'
    cases hch'
    exact hs hstray
  · exact hne (digitsAt_eq_nil h hd)

theorem not_faulty_of_length_le (h : text.length ≤ i) : ¬ Faulty text i := by
  rintro (⟨ch, hch, -⟩ | ⟨⟨hne, -⟩, -⟩)
  · rw [List.getElem?_eq_none h] at hch
    cases hch
  · rw [digitsAt, List.drop_eq_nil_of_le h] at hne
    exact hne rfl

theorem getElem?_middle (h : text = s ++ (w ++ rest)) (hlo : s.length ≤ i)
    (hhi : i < s.length + w.length) : ∃ ch ∈ w, text[i]? = some ch := by
  have hlt : i - s.length < w.length := by omega
  refine ⟨w[i - s.length], List.getElem_mem hlt, ?_⟩
  rw [h, List.getElem?_append_right hlo, List.getElem?_append_left hlt,
    List.getElem?_eq_getElem hlt]

theorem not_faulty_of_blanks (hw : Blanks w) (h : text = s ++ (w ++ rest)) (hlo : s.length ≤ i)
    (hhi : i < s.length + w.length) : ¬ Faulty text i := by
  obtain ⟨ch, hmem, hch⟩ := getElem?_middle h hlo hhi
  have hb := hw ch hmem
  refine not_faulty_of_not_isDigit hch (isDigit_eq_false_of_isBlank hb) fun hs => ?_
  rw [hs.1] at hb
  cases hb

/-- Inside of a run no other begins. -/
theorem not_faulty_of_digits (hds : Digits ds) (h : text = s ++ (ds ++ rest))
    (hlo : s.length < i) (hhi : i < s.length + ds.length) : ¬ Faulty text i := by
  obtain ⟨ch, hmem, hch⟩ := getElem?_middle h (Nat.le_of_lt hlo) hhi
  obtain ⟨before, hbefore, hlast⟩ := getElem?_middle (i := i - 1) h (by omega) (by omega)
  rintro (⟨ch', hch', hs⟩ | ⟨⟨-, hstart⟩, -⟩)
  · rw [hch] at hch'
    cases hch'
    exact absurd (hds.2 ch hmem) (by simp [hs.2.1])
  · have hget : (text.take i).getLast? = some before := by
      have hlen := (List.getElem?_eq_some_iff.1 hch).1
      rw [List.getLast?_eq_getElem?, List.length_take, Nat.min_eq_left (by omega),
        List.getElem?_take, if_pos (by omega), hlast]
    exact absurd (hds.2 before hbefore) (by simp [hstart before hget])

theorem digitsAt_of_append (hds : Digits ds) (hend : StartsWithout Char.isDigit rest)
    (h : text = s ++ (ds ++ rest)) : digitsAt text s.length = ds := by
  rw [digitsAt, h, List.drop_left, takeWhile_append_of_startsWithout hds.2 hend]

theorem runBegins_of_append (hds : Digits ds) (hend : StartsWithout Char.isDigit rest)
    (h : text = s ++ (ds ++ rest)) (hs : ∀ ch ∈ s.getLast?, ch.isDigit = false) :
    RunBegins text s.length := by
  refine ⟨?_, ?_⟩
  · rw [digitsAt_of_append hds hend h]
    exact hds.1
  · rw [h, List.take_left]
    exact hs

/-! ## What is reported -/

theorem Reported.faulty (h : Reported source line i e) : Faulty source.toList i := by
  cases h with
  | stray hch hs => exact .inl ⟨_, hch, hs⟩
  | tooLarge hds hrun hlarge _ => exact .inr ⟨hrun, .inl (hds ▸ hlarge)⟩
  | overlong hds hrun _ hlong => exact .inr ⟨hrun, .inr (hds ▸ hlong)⟩

theorem Reported.unique (h : Reported source line i e) (h' : Reported source line i e') :
    e = e' := by
  have hclash : ∀ {ch}, source.toList[i]? = some ch → Stray ch → ¬ RunBegins source.toList i :=
    fun hch hs hrun => hrun.1 (digitsAt_eq_nil hch hs.2.1)
  cases h with
  | stray hch hs =>
      cases h' with
      | stray hch' _ =>
          rw [hch] at hch'
          cases hch'
          rfl
      | tooLarge _ hrun | overlong _ hrun => exact absurd hrun (hclash hch hs)
  | tooLarge hds hrun _ hwhy =>
      cases h' with
      | stray hch hs => exact absurd hrun (hclash hch hs)
      | tooLarge hds' => rw [← hds, ← hds']
      | overlong hds' _ hfew hlong =>
          rw [← hds', hds] at hfew hlong
          omega
  | overlong hds hrun hfew hlong =>
      cases h' with
      | stray hch hs => exact absurd hrun (hclash hch hs)
      | tooLarge hds' _ _ hwhy =>
          rw [← hds', hds] at hwhy
          omega
      | overlong hds' => rw [← hds, ← hds']

/-! ## Behind the cursor -/

namespace Cursor

/-- The cursor stands somewhere in the text, not between two digits, and all that it has moved over
is in order. -/
structure Faultless (c : Cursor) (source : String) (line : Int) : Prop where
  on : c.On source line
  apart : c.Apart source
  behind : ∀ i < c.offset, ¬ Faulty source.toList i

theorem faultless_ofSource : (Cursor.ofSource source line).Faultless source line :=
  ⟨on_ofSource, apart_ofSource, fun i hi => absurd hi (Nat.not_lt_zero i)⟩

/-- White space does not change that. -/
theorem Faultless.exists_front (h : c.Faultless source line) (hw : Blanks w)
    (hrest : c.rest = w ++ rest) :
    ∃ s, source.toList = s ++ rest ∧ s.length = c.offset + w.length ∧
      ∀ i < s.length, ¬ Faulty source.toList i := by
  obtain ⟨s, hs, hlen⟩ := h.on.rest_eq
  rw [hrest] at hs
  refine ⟨s ++ w, by rw [hs, List.append_assoc], by rw [List.length_append, hlen], fun i hi => ?_⟩
  rw [List.length_append] at hi
  rcases Nat.lt_or_ge i s.length with hlt | hge
  · exact h.behind i (by omega)
  · exact not_faulty_of_blanks hw hs hge hi

/-- A step comes to the end of a text that is in order, or it goes on with what is behind still in
order, or it reports the first index that is not. -/
inductive Checks (source : String) (line : Int) (c' : Cursor) : Item → Prop
  | finish {t : Token} (hk : t.kind = .endOfInput) (h : ∀ i, ¬ Faulty source.toList i) :
      Checks source line c' (.ok t)
  | token {t : Token} (hk : t.kind ≠ .endOfInput) (h : c'.Faultless source line) :
      Checks source line c' (.ok t)
  | report {e : Failure} {p : Nat} (hp : ∀ i < p, ¬ Faulty source.toList i)
      (h : Reported source line p e) : Checks source line c' (.error e)

theorem Faultless.checks_numeral (h : c.Faultless source line) (hw : Blanks w) (hds : Digits ds)
    (hend : StartsWithout Char.isDigit rest) (hrest : c.rest = w ++ (ds ++ rest)) :
    Checks source line (c.onto (w.length + ds.length) rest)
      (numeral c.source ds (c.stretch w.length ds.length)) := by
  obtain ⟨s, hs, hlen, hbehind⟩ := h.exists_front hw hrest
  have hrun : RunBegins source.toList s.length := by
    obtain ⟨s', hs', hbefore⟩ := h.apart.before_digits hw hds hrest
    obtain rfl : s' = s := List.append_cancel_right (hs'.symm.trans hs)
    exact runBegins_of_append hds hend hs hbefore
  have hdigits : digitsAt source.toList s.length = ds := digitsAt_of_append hds hend hs
  have hspan : c.stretch w.length ds.length =
      ⟨.onLine line s.length, .onLine line (s.length + ds.length)⟩ := by
    rw [stretch, h.on.line_eq, hlen]
  rw [numeral, h.on.source_eq, hspan]
  rcases Text.ofDigits_cases hds.2 with
    ⟨hread, hfit, hlen'⟩ | ⟨hread, hlarge, hwhy⟩ | ⟨hread, hfew, hlong⟩
  · rw [hread]
    refine .token (by simp) ⟨?_, ?_, fun i hi => ?_⟩
    · have hsplit : c.rest = (w ++ ds) ++ rest := by rw [hrest, List.append_assoc]
      have hon := h.on.onto hsplit
      rwa [List.length_append] at hon
    · have happart := (h.apart.next (n := 0)).1
      rwa [(Step.numeral hw hds hend hrest).next_eq] at happart
    · have hi : i < s.length + ds.length := by
        simp only [onto] at hi
        omega
      rcases Nat.lt_trichotomy i s.length with hlt | rfl | hgt
      · exact hbehind i hlt
      · -- The run begins here, but it has been read.
        rintro (⟨ch, hch, hstray⟩ | ⟨-, hrejected⟩)
        · exact hrun.1 (digitsAt_eq_nil hch hstray.2.1)
        · rw [hdigits, Rejected] at hrejected
          simp only [Text.maxDigits] at hlen'
          omega
      · exact not_faulty_of_digits hds hs hgt hi
  · simp only [Text.maxSignificant, Text.maxDigits] at hwhy
    rw [hread]
    exact .report hbehind (.tooLarge hdigits hrun (by omega) hwhy)
  · simp only [Text.maxSignificant, Text.maxDigits] at hfew hlong
    rw [hread]
    exact .report hbehind (.overlong hdigits hrun hfew hlong)

theorem Faultless.checks_symbol {k : Token.Kind} (h : c.Faultless source line) (hw : Blanks w)
    (hk : Token.Kind.ofSymbol? ch = some k) (hrest : c.rest = w ++ ch :: rest) :
    (c.onto (w.length + 1) rest).Faultless source line := by
  obtain ⟨s, hs, hlen, hbehind⟩ := h.exists_front hw hrest
  have hget : source.toList[s.length]? = some ch := by
    rw [hs, List.getElem?_append_right (Nat.le_refl _), Nat.sub_self]
    rfl
  have hstray : ¬ Stray ch := fun hstray => by
    rw [ofSymbol?_eq_none_iff.2 hstray.2.2] at hk
    cases hk
  refine ⟨?_, ?_, fun i hi => ?_⟩
  · have hsplit : c.rest = (w ++ [ch]) ++ rest := by rw [hrest, List.append_assoc]; rfl
    have hon := h.on.onto hsplit
    rwa [List.length_append] at hon
  · have happart := (h.apart.next (n := 0)).1
    rwa [(Step.symbol hw hk hrest).next_eq] at happart
  · have hi : i < s.length + 1 := by
      simp only [onto] at hi
      omega
    rcases Nat.lt_or_ge i s.length with hlt | hge
    · exact hbehind i hlt
    · obtain rfl : i = s.length := by omega
      exact not_faulty_of_not_isDigit hget (symbol_not_digit hk) hstray

theorem Faultless.checks (h : c.Faultless source line) :
    Checks source line c.next.2 c.next.1 := by
  have hstep := c.step_next
  generalize c.next.1 = item at hstep ⊢
  generalize c.next.2 = c' at hstep ⊢
  cases hstep with
  | @finish w hw hrest =>
      have hsplit : c.rest = w ++ [] := by rw [hrest, List.append_nil]
      obtain ⟨s, hs, -, hbehind⟩ := h.exists_front hw hsplit
      rw [List.append_nil] at hs
      refine .finish rfl fun i => ?_
      rcases Nat.lt_or_ge i s.length with hlt | hge
      · exact hbehind i hlt
      · exact not_faulty_of_length_le (by rw [hs]; exact hge)
  | numeral hw hds hend hrest => exact h.checks_numeral hw hds hend hrest
  | symbol hw hk hrest =>
      exact .token (Lexeme.symbol hk).kind_ne_endOfInput (h.checks_symbol hw hk hrest)
  | @stray w rest ch hw hb hd hk hrest =>
      obtain ⟨s, hs, hlen, hbehind⟩ := h.exists_front hw hrest
      have hget : source.toList[s.length]? = some ch := by
        rw [hs, List.getElem?_append_right (Nat.le_refl _), Nat.sub_self]
        rfl
      rw [h.on.source_eq, h.on.line_eq, ← hlen]
      exact .report hbehind (.stray hget ⟨hb, hd, ofSymbol?_eq_none_iff.1 hk⟩)

/-- The listing comes to the end, or it ends with the report of the first faulty index. -/
theorem Faultless.listing (h : c.Faultless source line) :
    (c.listing.2 = none → ∀ i, ¬ Faulty source.toList i) ∧
    ∀ e, c.listing.2 = some e →
      ∃ p, (∀ i < p, ¬ Faulty source.toList i) ∧ Reported source line p e := by
  induction c using listing_induction with
  | error c e hc =>
      have hchecks := h.checks
      rw [hc] at hchecks
      rw [listing_of_error hc]
      cases hchecks with
      | report hp hreported =>
          refine ⟨fun hnone => absurd hnone (by simp), fun e' he' => ?_⟩
          cases he'
          exact ⟨_, hp, hreported⟩
  | endOfInput c t hc hk =>
      have hchecks := h.checks
      rw [hc] at hchecks
      rw [listing_of_endOfInput hc hk]
      cases hchecks with
      | finish _ hall => exact ⟨fun _ => hall, fun e he => by cases he⟩
      | token hk' => exact absurd hk hk'
  | token c t hc hk ih =>
      have hchecks := h.checks
      rw [hc] at hchecks
      rw [listing_of_token hc hk]
      cases hchecks with
      | finish hk' => exact absurd hk' hk
      | token _ hnext => exact ih hnext

end Cursor

/-! ## Whole texts -/

theorem ofSource_cases (source : String) (line : Int) :
    ((∃ tokens, Token.ofSource source line = .ok tokens) ∧ ∀ i, ¬ Faulty source.toList i) ∨
    ∃ e p, Token.ofSource source line = .error e ∧ (∀ i < p, ¬ Faulty source.toList i) ∧
      Reported source line p e := by
  have hbegin : (Cursor.ofSource source line).Faultless source line := Cursor.faultless_ofSource
  obtain ⟨hnone, hsome⟩ := hbegin.listing
  rw [Token.ofSource]
  split
  · next tokens hlisting => exact .inl ⟨⟨tokens, rfl⟩, hnone (congrArg Prod.snd hlisting)⟩
  · next tokens e hlisting =>
      obtain ⟨p, hp, hreported⟩ := hsome e (congrArg Prod.snd hlisting)
      exact .inr ⟨e, p, rfl, hp, hreported⟩

/-- The tokens of a text can be listed exactly if no index of it is faulty, and the failure is
otherwise the report of the leftmost index that is. -/
theorem ofSource_leftmost_fault (source : String) (line : Int) :
    ((∃ tokens, Token.ofSource source line = .ok tokens) ↔ ∀ i, ¬ Faulty source.toList i) ∧
    ∀ e, Token.ofSource source line = .error e ↔
      ∃ p, Faulty source.toList p ∧ (∀ i < p, ¬ Faulty source.toList i) ∧
        Reported source line p e := by
  rcases ofSource_cases source line with ⟨⟨tokens, hok⟩, hall⟩ | ⟨e, p, herror, hp, hreported⟩
  · rw [hok]
    refine ⟨⟨fun _ => hall, fun _ => ⟨tokens, rfl⟩⟩, fun e => ?_⟩
    exact iff_of_false (fun he => by cases he) fun ⟨p, hfaulty, _⟩ => hall p hfaulty
  · rw [herror]
    refine ⟨iff_of_false (fun ⟨tokens, hok⟩ => by cases hok) fun hall => hall p hreported.faulty,
      fun e' => ⟨fun he => ?_, fun ⟨p', hfaulty, hp', hreported'⟩ => ?_⟩⟩
    · cases he
      exact ⟨p, hreported.faulty, hp, hreported⟩
    · obtain rfl : p = p' := by
        rcases Nat.lt_trichotomy p p' with hlt | heq | hgt
        · exact absurd hreported.faulty (hp' p hlt)
        · exact heq
        · exact absurd hfaulty (hp p' hgt)
      rw [hreported.unique hreported']

end Abacus

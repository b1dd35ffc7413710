import Mathlib.Data.List.Chain
import Abacus.Proofs.Items
import Abacus.Proofs.Numerals
import Abacus.Proofs.Reproduction

/-!
# Texts and lists of tokens

A text whose tokens can be listed is some white space, and then words with more white space after
each; nothing of it is lost, since the tokens have the words as their texts and the places of the
words as their spans. Only numerals need the white space, and only from one another: without it two
of them would be one. That is the one condition on a `Layout`, and it is enough to go back. Whatever
the words are and however much white space is put around them, the text that comes of it has these
words for its tokens.
-/

namespace Abacus

open Text (decimalValue)

/-- What a single token is written as: a numeral whose value fits, or the character of a kind. -/
inductive Word where
  | numeral (ds : List Char) (hds : Digits ds) (hlen : ds.length ≤ 4300)
      (hfit : decimalValue ds < 2 ^ 63)
  | symbol (kind : Token.Kind) (ch : Char) (hch : kind.symbol? = some ch)

namespace Word

/-- The characters of a word. -/
def raw : Word → List Char
  | numeral ds _ _ _ => ds
  | symbol _ ch _ => [ch]

/-- Two words of this sort must be kept apart. -/
def IsNumeral : Word → Prop
  | numeral .. => True
  | symbol .. => False

/-- The token that a word is in a text. -/
def token (span : Span) : Word → Token
  | numeral ds _ _ _ => ⟨.integer, some (decimalValue ds), String.ofList ds, span⟩
  | symbol kind ch _ => ⟨kind, none, String.singleton ch, span⟩

@[simp]
theorem token_span (w : Word) (span : Span) : (w.token span).span = span := by
  cases w <;> rfl

@[simp]
theorem token_raw (w : Word) (span : Span) : (w.token span).raw = String.ofList w.raw := by
  cases w <;> rfl

end Word

/-- Words with white space before the first and after each of them. There is some between two
numerals. -/
structure Layout where
  lead : List Char
  words : List (Word × List Char)
  lead_blanks : Blanks lead
  gap_blanks : ∀ p ∈ words, Blanks p.2
  apart : words.IsChain fun p q => p.1.IsNumeral → q.1.IsNumeral → p.2 ≠ []

namespace Layout

/-- Words and gaps, written down. -/
def spell (words : List (Word × List Char)) : List Char :=
  words.flatMap fun p => p.1.raw ++ p.2

/-- The text of a layout. -/
def text (l : Layout) : List Char :=
  l.lead ++ spell l.words

/-- The number of characters before the `i`-th word. -/
def before (l : Layout) (i : Nat) : Nat :=
  (l.lead ++ spell (l.words.take i)).length

/-- The tokens of a layout whose text begins at the offset `n` of a line: the words in the places
where they stand, and the end of the input behind the text. -/
def tokens (l : Layout) (line : Int) (n : Nat) : List Token :=
  l.words.mapIdx (fun i p => p.1.token ⟨.onLine line (n + l.before i),
    .onLine line (n + l.before i + p.1.raw.length)⟩) ++ [.endAt (.onLine line (n + l.text.length))]

/-- White space only. -/
def blank (w : List Char) (hw : Blanks w) : Layout :=
  ⟨w, [], hw, by simp, .nil⟩

/-- The words of a layout begin with a numeral. -/
def StartsNumeral (l : Layout) : Prop :=
  ∃ p ∈ l.words.head?, p.1.IsNumeral

/-- One more word, in front. -/
def cons (w : List Char) (hw : Blanks w) (word : Word) (l : Layout)
    (h : word.IsNumeral → l.StartsNumeral → l.lead ≠ []) : Layout :=
  ⟨w, (word, l.lead) :: l.words, hw, List.forall_mem_cons.2 ⟨l.lead_blanks, l.gap_blanks⟩,
    List.isChain_cons.2 ⟨fun q hq hword hnum => h hword ⟨q, hq, hnum⟩, l.apart⟩⟩

/-- Every layout is white space with words put in front one by one. -/
theorem words_induction {motive : Layout → Prop} (blank : ∀ w hw, motive (blank w hw))
    (cons : ∀ w hw word l h, motive l → motive (cons w hw word l h)) (l : Layout) : motive l := by
  obtain ⟨lead, words, hlead, hgap, hapart⟩ := l
  induction words generalizing lead with
  | nil => exact blank lead hlead
  | cons p words ih =>
      obtain ⟨word, gap⟩ := p
      have hapart' := List.isChain_cons.1 hapart
      have hmore := ih gap (hgap (word, gap) (by simp)) (fun q hq => hgap q (by simp [hq]))
        hapart'.2
      refine cons lead hlead word _ ?_ hmore
      rintro hword ⟨q, hq, hnum⟩
      exact hapart'.1 q hq hword hnum

variable {w : List Char} {hw : Blanks w} {word : Word} {l : Layout} {line : Int} {n : Nat}
  {h : word.IsNumeral → l.StartsNumeral → l.lead ≠ []}

@[simp]
theorem text_blank : (blank w hw).text = w := by
  simp [text, blank, spell]

@[simp]
theorem text_cons : (cons w hw word l h).text = w ++ (word.raw ++ l.text) := by
  simp [text, cons, spell]

@[simp]
theorem tokens_blank :
    (blank w hw).tokens line n = [.endAt (.onLine line (n + w.length))] := by
  rw [tokens, text_blank]
  rfl

theorem before_cons (i : Nat) :
    (cons w hw word l h).before (i + 1) = w.length + word.raw.length + l.before i := by
  simp [before, cons, spell]
  omega

@[simp]
theorem tokens_cons :
    (cons w hw word l h).tokens line n =
      word.token ⟨.onLine line (n + w.length), .onLine line (n + w.length + word.raw.length)⟩ ::
        l.tokens line (n + w.length + word.raw.length) := by
  have hwords : (cons w hw word l h).words = (word, l.lead) :: l.words := rfl
  have hfirst : (cons w hw word l h).before 0 = w.length := by simp [before, cons, spell]
  rw [tokens, tokens, hwords, List.mapIdx_cons, List.cons_append, hfirst, text_cons]
  simp only [before_cons, List.length_append, Nat.add_assoc]

/-- What a layout begins with cannot make a numeral before it longer. -/
theorem startsWithout_digit_iff :
    StartsWithout Char.isDigit l.text ↔ (l.StartsNumeral → l.lead ≠ []) := by
  obtain ⟨lead, words, hlead, hgap, hapart⟩ := l
  cases lead with
  | cons ch lead =>
      have hch : ch.isDigit = false := by
        by_contra hd
        have hb := hlead ch (by simp)
        rw [Text.isBlank_eq_false_of_isDigit (by simpa using hd)] at hb
        cases hb
      exact ⟨fun _ _ => by simp, fun _ => startsWithout_cons hch⟩
  | nil =>
      rcases words with _ | ⟨⟨word, gap⟩, words⟩
      · refine ⟨fun _ hs => ?_, fun _ => startsWithout_nil⟩
        obtain ⟨p, hp, -⟩ := hs
        cases hp
      · cases word with
        | symbol kind ch hch =>
            have hd := symbol_not_digit (Token.Kind.symbol?_eq_some_iff.1 hch)
            refine ⟨fun _ hs => ?_, fun _ => startsWithout_cons hd⟩
            obtain ⟨p, hp, hnum⟩ := hs
            cases hp
            cases hnum
        | numeral ds hds hlen hfit =>
            refine ⟨fun h => ?_, fun h => absurd rfl (h ⟨_, rfl, trivial⟩)⟩
            obtain ⟨ch, ds, rfl⟩ := List.exists_cons_of_ne_nil hds.1
            have hd := h ch rfl
            rw [hds.2 ch (by simp)] at hd
            cases hd

end Layout

/-! ## Words and tokens -/

namespace Cursor

variable {c c' : Cursor} {w rest : List Char} {word : Word} {t : Token} {tokens : List Token}

theorem reads_word (hw : Blanks w) (hend : word.IsNumeral → StartsWithout Char.isDigit rest)
    (hrest : c.rest = w ++ (word.raw ++ rest)) :
    c.Reads (word.token (c.stretch w.length word.raw.length))
      (c.onto (w.length + word.raw.length) rest) := by
  cases word with
  | numeral ds hds hlen hfit =>
      have hn := Text.ofDigits_of_fits hds.2 hlen hfit
      exact .intro hw (.integer hds hn) (fun _ => hend trivial) hrest
  | symbol kind ch hch =>
      refine .intro hw (.symbol (Token.Kind.symbol?_eq_some_iff.1 hch)) (fun hk => ?_) hrest
      rw [hk] at hch
      cases hch

theorem Reads.exists_word (h : c.Reads t c') :
    ∃ (w : List Char) (word : Word) (rest : List Char), Blanks w ∧
      (word.IsNumeral → StartsWithout Char.isDigit rest) ∧
      c.rest = w ++ (word.raw ++ rest) ∧ t = word.token (c.stretch w.length word.raw.length) ∧
      c' = c.onto (w.length + word.raw.length) rest := by
  cases h with
  | @intro w raw rest k value hw hraw hend hrest =>
      cases hraw with
      | @integer _ n hds hn =>
          obtain ⟨hlen, hfit, rfl⟩ := Text.ofDigits_eq_value hn
          exact ⟨w, .numeral raw hds hlen hfit, rest, hw, fun _ => hend rfl, hrest, rfl, rfl⟩
      | @symbol ch _ hk =>
          exact ⟨w, .symbol k ch (Token.Kind.symbol?_eq_some_iff.2 hk), rest, hw, False.elim,
            hrest, rfl, rfl⟩

theorem exists_blanks_of_endOfInput (h : c.next.1 = .ok t) (hk : t.kind = .endOfInput) :
    Blanks c.rest ∧ t = .endAt (.onLine c.line (c.offset + c.rest.length)) := by
  have hstep := c.step_next
  rw [h] at hstep
  generalize hitem : (.ok t : Item) = item at hstep
  generalize c.next.2 = c' at hstep
  cases hstep with
  | finish hw hrest =>
      rw [hrest]
      cases hitem
      exact ⟨hw, rfl⟩
  | numeral hw hds hend hrest =>
      rw [Cursor.numeral] at hitem
      split at hitem <;> cases hitem
      cases hk
  | symbol hw hk' hrest =>
      cases hitem
      exact absurd hk (Lexeme.symbol hk').kind_ne_endOfInput
  | stray => cases hitem

/-- Where a layout is left to read, its tokens are listed. -/
theorem listing_of_layout (l : Layout) : ∀ {c : Cursor}, c.rest = l.text →
    c.listing = (l.tokens c.line c.offset, none) := by
  induction l using Layout.words_induction with
  | blank w hw =>
      intro c hrest
      rw [Layout.text_blank] at hrest
      rw [Layout.tokens_blank]
      exact listing_of_endOfInput (congrArg Prod.fst (Step.finish hw hrest).next_eq) rfl
  | cons w hw word l h ih =>
      intro c hrest
      rw [Layout.text_cons] at hrest
      have hreads := reads_word hw (fun hword => Layout.startsWithout_digit_iff.2 (h hword)) hrest
      obtain ⟨hnext, hk⟩ := reads_iff.1 hreads
      have hlisting := ih (c := c.onto (w.length + word.raw.length) l.text) rfl
      rw [listing_of_token (congrArg Prod.fst hnext) hk, hnext, hlisting, Layout.tokens_cons]
      simp only [onto, stretch, Nat.add_assoc]

/-- Where all that is left can be listed, a layout is left. -/
theorem exists_layout_of_listing (c : Cursor) : ∀ tokens : List Token,
    c.listing = (tokens, none) → ∃ l : Layout, l.text = c.rest ∧
      l.tokens c.line c.offset = tokens := by
  induction c using listing_induction with
  | error c e h =>
      intro tokens hc
      rw [listing_of_error h] at hc
      cases hc
  | endOfInput c t h hk =>
      intro tokens hc
      rw [listing_of_endOfInput h hk] at hc
      cases hc
      obtain ⟨hw, ht⟩ := exists_blanks_of_endOfInput h hk
      exact ⟨.blank c.rest hw, Layout.text_blank, by rw [Layout.tokens_blank, ht]⟩
  | token c t h hk ih =>
      intro tokens hc
      rw [listing_of_token h hk, Prod.mk.injEq] at hc
      obtain ⟨rfl, hnone⟩ := hc
      obtain ⟨l, htext, htokens⟩ := ih c.next.2.listing.1 (Prod.ext rfl hnone)
      obtain ⟨w, word, rest, hw, hend, hrest, ht, hc'⟩ :=
        (reads_iff.2 ⟨Prod.ext h rfl, hk⟩ : c.Reads t c.next.2).exists_word
      rw [hc'] at htext htokens
      -- The cursor took all the digits there were, so two numerals do not touch.
      have hsep : word.IsNumeral → l.StartsNumeral → l.lead ≠ [] := fun hword =>
        Layout.startsWithout_digit_iff.1 (by rw [htext]; exact hend hword)
      refine ⟨.cons w hw word l hsep, ?_, ?_⟩
      · rw [Layout.text_cons, htext, hrest]
        rfl
      · rw [Layout.tokens_cons, hc', ht, ← htokens]
        simp only [onto, stretch, Nat.add_assoc]

end Cursor

/-! ## Whole texts -/

namespace Layout

theorem span_text_of_mem (l : Layout) {source : String} {line : Int} :
    ∀ {s : List Char}, source.toList = s ++ l.text → ∀ t ∈ l.tokens line s.length,
      t.span.text source = t.raw := by
  induction l using words_induction with
  | blank w hw =>
      intro s hsource t ht
      rw [tokens_blank, List.mem_singleton] at ht
      rw [ht]
      have hend : source.toList = (s ++ w) ++ ([] ++ []) := by simpa using hsource
      exact text_of_append hend (by simp [Position.onLine]) (by simp [Position.onLine])
  | cons w hw word l h ih =>
      intro s hsource t ht
      rw [text_cons, ← List.append_assoc] at hsource
      rw [tokens_cons, List.mem_cons] at ht
      rcases ht with rfl | ht
      · rw [Word.token_span, Word.token_raw]
        exact text_of_append hsource (by simp [Position.onLine]) (by simp [Position.onLine])
      · refine ih (s := s ++ w ++ word.raw) (by simpa using hsource) t ?_
        simpa [Nat.add_assoc] using ht

end Layout

/-- The texts whose tokens can be listed are those of layouts, and the tokens are those of the
layout: in the order of its words, each in the place where its word is written, and the end of the
input behind the last character. So the text under the span of a token is the text of the token. -/
theorem ofSource_iff_layout (source : String) (line : Int) (tokens : List Token) :
    (Token.ofSource source line = .ok tokens ↔
      ∃ l : Layout, l.text = source.toList ∧ l.tokens line 0 = tokens) ∧
    (Token.ofSource source line = .ok tokens → ∀ t ∈ tokens, t.span.text source = t.raw) := by
  have hiff : Token.ofSource source line = .ok tokens ↔
      ∃ l : Layout, l.text = source.toList ∧ l.tokens line 0 = tokens := by
    constructor
    · intro h
      rw [Token.ofSource] at h
      split at h
      · next hlisting =>
          cases h
          exact Cursor.exists_layout_of_listing _ _ hlisting
      · cases h
    · rintro ⟨l, htext, rfl⟩
      rw [Token.ofSource, Cursor.listing_of_layout l (c := .ofSource source line) htext.symm]
      rfl
  refine ⟨hiff, fun h t ht => ?_⟩
  obtain ⟨l, htext, rfl⟩ := hiff.1 h
  exact l.span_text_of_mem (s := []) htext.symm t ht

end Abacus

import Abacus.Proofs.Lexing
import Abacus.Proofs.Streams

/-!
# From characters to tokens

The tokens of a stretch of text depend on its characters only; where the text stands and what it
stands in decide no more than the places noted in the tokens. `Reads` is one token read by a cursor
and `Passes` is any number of them, both in terms of the characters that are passed over. A reader
that consumes tokens of a text moves a cursor over it, and the other way round.

That is what it takes to cut a stretch out of a text: the same tokens are read from the piece, each
moved by the same distance (`Passes.moved`).
-/

namespace Abacus

open Reader

/-- The characters of a token, with its kind and its value. -/
inductive Lexeme : List Char → Token.Kind → Option Int → Prop
  | integer {ds : List Char} {n : Nat} (hds : Digits ds)
      (hn : Text.Numeral.ofDigits ds = .value n) : Lexeme ds .integer (some n)
  | symbol {ch : Char} {k : Token.Kind} (hk : Token.Kind.ofSymbol? ch = some k) :
      Lexeme [ch] k none

theorem Lexeme.kind_ne_endOfInput {raw : List Char} {k : Token.Kind} {value : Option Int}
    (h : Lexeme raw k value) : k ≠ .endOfInput := by
  cases h with
  | integer => simp
  | symbol hk =>
      rw [← Token.Kind.symbol?_eq_some_iff] at hk
      rintro rfl
      cases hk

namespace Cursor

/-- A token, not the end of the input, is read after some white space. -/
inductive Reads (c : Cursor) : Token → Cursor → Prop
  | intro {w raw rest : List Char} {k : Token.Kind} {value : Option Int} (hw : Blanks w)
      (hraw : Lexeme raw k value) (hend : k = .integer → StartsWithout Char.isDigit rest)
      (hrest : c.rest = w ++ (raw ++ rest)) :
      Reads c ⟨k, value, String.ofList raw, c.stretch w.length raw.length⟩
        (c.onto (w.length + raw.length) rest)

/-- The tokens are read one after the other. -/
inductive Passes : Cursor → List Token → Cursor → Prop
  | nil (c : Cursor) : Passes c [] c
  | cons {c c₁ c' : Cursor} {t : Token} {ts : List Token} (h : c.Reads t c₁)
      (hs : Passes c₁ ts c') : Passes c (t :: ts) c'

variable {c c₁ c₂ c' d : Cursor} {t : Token} {ts us : List Token} {n : Nat}
  {w mid mid₁ tail : List Char}

theorem reads_iff : c.Reads t c' ↔ c.next = (.ok t, c') ∧ t.kind ≠ .endOfInput := by
  constructor
  · intro h
    cases h with
    | intro hw hraw hend hrest =>
        refine ⟨?_, hraw.kind_ne_endOfInput⟩
        cases hraw with
        | integer hds hn =>
            rw [(Step.numeral hw hds (hend rfl) hrest).next_eq, Cursor.numeral, hn]
        | symbol hk =>
            rw [(Step.symbol hw hk hrest).next_eq]
            rfl
  · rintro ⟨h, hk⟩
    rw [next_eq_iff] at h
    generalize hitem : (.ok t : Item) = item at h
    cases h with
    | finish => cases hitem; exact absurd rfl hk
    | @numeral w ds rest hw hds hend hrest =>
        rw [Cursor.numeral] at hitem
        split at hitem
        · next n hn =>
            cases hitem
            exact .intro hw (.integer hds hn) (fun _ => hend) hrest
        · cases hitem
        · cases hitem
    | symbol hw hk' hrest =>
        cases hitem
        refine .intro hw (.symbol hk') (fun hint => ?_) hrest
        subst hint
        rw [← Token.Kind.symbol?_eq_some_iff] at hk'
        cases hk'
    | stray => cases hitem

theorem Reads.stop_eq (h : c.Reads t c') : t.span.stop = c'.position := by
  cases h with
  | intro => simp [stretch, onto, position, Nat.add_assoc]

theorem Reads.exists_rest (h : c.Reads t c') :
    ∃ mid, c.rest = mid ++ c'.rest ∧ c' = c.onto mid.length c'.rest := by
  cases h with
  | @intro w raw rest k value hw hraw hend hrest =>
      exact ⟨w ++ raw, by rw [hrest, List.append_assoc]; rfl, by simp [onto]⟩

/-- The white space before a token may have been passed over before. -/
theorem Reads.from_start (h : c.Reads t c') :
    ∃ w rest, Blanks w ∧ c.rest = w ++ rest ∧ t.span.start = (c.onto w.length rest).position ∧
      (c.onto w.length rest).Reads t c' := by
  cases h with
  | @intro w raw rest k value hw hraw hend hrest =>
      refine ⟨w, raw ++ rest, hw, hrest, rfl, ?_⟩
      have h := Reads.intro (c := c.onto w.length (raw ++ rest)) (w := []) (by simp [Blanks]) hraw
        hend rfl
      simpa [onto, stretch, Nat.add_assoc] using h

theorem Passes.append (h : Passes c ts c₁) (h' : Passes c₁ us c₂) : Passes c (ts ++ us) c₂ := by
  induction h with
  | nil c => exact h'
  | cons ht _ ih => exact .cons ht (ih h')

theorem passes_append : Passes c (ts ++ us) c₂ ↔ ∃ c₁, Passes c ts c₁ ∧ Passes c₁ us c₂ := by
  refine ⟨fun h => ?_, fun ⟨c₁, h, h'⟩ => h.append h'⟩
  induction ts generalizing c with
  | nil => exact ⟨c, .nil c, h⟩
  | cons t ts ih =>
      cases h with
      | cons ht hs =>
          obtain ⟨c₁, h₁, h₂⟩ := ih hs
          exact ⟨c₁, .cons ht h₁, h₂⟩

theorem Passes.exists_rest (h : Passes c ts c') :
    ∃ mid, c.rest = mid ++ c'.rest ∧ c' = c.onto mid.length c'.rest := by
  induction h with
  | nil c => exact ⟨[], rfl, rfl⟩
  | @cons c c₁ c' t ts ht hs ih =>
      obtain ⟨mid, hrest, hc₁⟩ := ht.exists_rest
      obtain ⟨mid', hrest', hc'⟩ := ih
      refine ⟨mid ++ mid', by rw [hrest, hrest', List.append_assoc], ?_⟩
      rw [hc', hc₁]
      simp [onto, Nat.add_assoc]

theorem Passes.stop_eq (h : Passes c (ts ++ [t]) c') : t.span.stop = c'.position := by
  obtain ⟨c₁, -, h⟩ := passes_append.1 h
  cases h with
  | cons ht hs => cases hs; exact ht.stop_eq

/-! ## A piece of a text on its own -/

end Cursor

/-- The token as it is found on another line, `n` characters nearer to the beginning. -/
def Token.moved (line : Int) (n : Nat) (t : Token) : Token :=
  { t with span := ⟨.onLine line (t.span.start.offset - n), .onLine line (t.span.stop.offset - n)⟩ }

namespace Cursor

variable {c c₁ c' d : Cursor} {t : Token} {ts : List Token} {n : Nat} {mid mid₁ tail : List Char}

theorem Reads.moved (h : c.Reads t c₁) (hrest : c.rest = mid ++ tail)
    (hrest₁ : c₁.rest = mid₁ ++ tail) (hd : d.rest = mid) (hn : d.offset + n = c.offset) :
    d.Reads (t.moved d.line n) ⟨d.source, d.line, c₁.offset - n, mid₁⟩ := by
  cases h with
  | @intro w raw rest k value hw hraw hend hc =>
      -- The token ends within the piece, so that what follows the piece can be cancelled.
      obtain rfl : rest = mid₁ ++ tail := hrest₁
      have hall : d.rest ++ tail = (w ++ (raw ++ mid₁)) ++ tail := by
        rw [hd, ← hrest, hc]
        simp
      have hmid : d.rest = w ++ (raw ++ mid₁) := List.append_cancel_right hall
      have h := Reads.intro hw hraw (fun hk => (hend hk).append) hmid
      have hstart : c.offset + w.length - n = d.offset + w.length := by omega
      have hstop : c.offset + w.length + raw.length - n = d.offset + w.length + raw.length := by
        omega
      have htoken : Token.moved d.line n
          ⟨k, value, String.ofList raw, c.stretch w.length raw.length⟩ =
            ⟨k, value, String.ofList raw, d.stretch w.length raw.length⟩ := by
        simp only [Token.moved, stretch, Position.onLine, hstart, hstop]
      have honto : (⟨d.source, d.line, (c.onto (w.length + raw.length) (mid₁ ++ tail)).offset - n,
          mid₁⟩ : Cursor) = d.onto (w.length + raw.length) mid₁ := by
        simp only [onto, Cursor.mk.injEq, true_and, and_true]
        omega
      rw [htoken, honto]
      exact .intro hw hraw (fun hk => (hend hk).append) hmid

/-- The same tokens are read from a piece of a text as from the text. -/
theorem Passes.moved (h : Passes c ts c') : ∀ {d : Cursor} {mid : List Char},
    c.rest = mid ++ c'.rest → d.rest = mid → d.offset + n = c.offset →
      Passes d (ts.map (Token.moved d.line n)) ⟨d.source, d.line, c'.offset - n, []⟩ := by
  induction h with
  | nil c =>
      intro d mid hrest hd hn
      have hnil : d.rest = [] := by
        rw [hd]
        exact List.append_left_eq_self.1 hrest.symm
      obtain ⟨source, line, offset, rest⟩ := d
      simp only at hnil hn
      rw [hnil, ← hn, Nat.add_sub_cancel]
      exact .nil _
  | @cons c c₁ c' t ts ht hs ih =>
      intro d mid hrest hd hn
      obtain ⟨mid', -, hc₁⟩ := ht.exists_rest
      obtain ⟨mid₁, hrest₁, -⟩ := hs.exists_rest
      have hoffset : c₁.offset = c.offset + mid'.length := congrArg offset hc₁
      exact .cons (ht.moved hrest hrest₁ hd hn)
        (ih (d := ⟨d.source, d.line, c₁.offset - n, mid₁⟩) hrest₁ rfl (by simp only; omega))

/-! ## Listings -/

theorem listing_of_error {e : Failure} (h : c.next.1 = .error e) : c.listing = ([], some e) := by
  rw [listing, h]

theorem listing_of_endOfInput (h : c.next.1 = .ok t) (hk : t.kind = .endOfInput) :
    c.listing = ([t], none) := by
  have hlast : Item.isLast (.ok t) = true := by simp [Item.isLast, hk]
  rw [listing, h]
  simp only [hlast]
  rfl

theorem listing_of_token (h : c.next.1 = .ok t) (hk : t.kind ≠ .endOfInput) :
    c.listing = (t :: c.next.2.listing.1, c.next.2.listing.2) := by
  have hlast : Item.isLast (.ok t) = false := by simpa [Item.isLast] using hk
  rw [listing, h]
  simp only [hlast]
  rfl

/-! ## Readers and cursors -/

theorem toStream_of_isLast (h : c.next.1.isLast = true) : c.toStream = ⟨[], c.next.1⟩ := by
  rw [toStream, dif_pos h]

theorem toStream_of_not_isLast (h : c.next.1.isLast = false) :
    c.toStream.next = (c.next.1, c.next.2.toStream) := by
  rw [toStream, dif_neg (by simp [h])]
  rfl

theorem toStream_next_fst (c : Cursor) : c.toStream.next.1 = c.next.1 := by
  cases h : c.next.1.isLast with
  | true => rw [toStream_of_isLast h]; rfl
  | false => rw [toStream_of_not_isLast h]

theorem Reads.toStream_next (h : c.Reads t c') : c.toStream.next = (.ok t, c'.toStream) := by
  obtain ⟨hn, hk⟩ := reads_iff.1 h
  have hlast : c.next.1.isLast = false := by
    rw [hn]
    simpa [Item.isLast] using hk
  rw [toStream_of_not_isLast hlast, hn]

/-- The reader looks at the token that the cursor reads next. -/
def Shows (c : Cursor) (r : Reader) : Prop :=
  c.toStream.next = (.ok r.lookahead, r.stream)

theorem Shows.next_fst {r : Reader} (h : c.Shows r) : c.next.1 = .ok r.lookahead := by
  rw [← toStream_next_fst, h]

theorem Shows.reads {r : Reader} (h : c.Shows r) (hk : r.lookahead.kind ≠ .endOfInput) :
    ∃ c', c.Reads r.lookahead c' ∧ r.stream = c'.toStream := by
  have hnext : c.next = (.ok r.lookahead, c.next.2) := by rw [← h.next_fst]
  have hreads := reads_iff.2 ⟨hnext, hk⟩
  refine ⟨c.next.2, hreads, ?_⟩
  have hstream := hreads.toStream_next
  rw [h, Prod.mk.injEq] at hstream
  exact hstream.2

theorem shows_of_eat {r r₁ : Reader} (hr : r.stream = c.toStream) (h : eat r = .ok t r₁) :
    c.Shows r₁ := by
  rw [Shows, ← hr]
  exact (eat_ok h).2.1

/-- Where a reader consumes tokens, a cursor passes over them. -/
theorem Shows.passes {r r' : Reader} (h : Eats r ts r') : ∀ {c : Cursor}, c.Shows r →
    (∀ t ∈ ts, t.kind ≠ .endOfInput) → ∃ c', Passes c ts c' ∧ c'.Shows r' := by
  induction h with
  | nil r => intro c hc _; exact ⟨c, .nil c, hc⟩
  | @cons r r₁ r' t ts ht hs ih =>
      intro c hc hts
      have hk := hts t (by simp)
      rw [(eat_ok ht).1] at hk ⊢
      obtain ⟨c₁, hreads, hstream⟩ := hc.reads hk
      obtain ⟨c', hpasses, hc'⟩ := ih (shows_of_eat hstream ht) fun u hu => hts u (by simp [hu])
      exact ⟨c', .cons hreads hpasses, hc'⟩

theorem Passes.next_ok {k : Token} (h : Passes c ts c') (hk : c'.next.1 = .ok k) :
    ∃ k', c.next.1 = .ok k' := by
  cases h with
  | nil => exact ⟨k, hk⟩
  | cons ht => exact ⟨_, congrArg Prod.fst (reads_iff.1 ht).1⟩

theorem Passes.eats {k : Token} (h : Passes c ts c') (hk : c'.next.1 = .ok k) :
    ∀ {r : Reader}, c.Shows r → ∃ r', Eats r ts r' ∧ c'.Shows r' := by
  induction h with
  | nil c => intro r hr; exact ⟨r, .nil r, hr⟩
  | @cons c c₁ c' t ts ht hs ih =>
      intro r hr
      have hnext := ht.toStream_next
      rw [hr, Prod.mk.injEq, Except.ok.injEq] at hnext
      obtain ⟨k₁, hk₁⟩ := hs.next_ok hk
      have hstream : r.stream.next = (.ok k₁, c₁.toStream.next.2) := by
        rw [hnext.2, ← hk₁, ← toStream_next_fst]
      have heat := eat_of_next hstream
      obtain ⟨r', hs', hr'⟩ := ih hk (shows_of_eat hnext.2 heat)
      rw [← hnext.1]
      exact ⟨r', .cons heat hs', hr'⟩

/-- Where a cursor passes over tokens and finds one more, a reader consumes them and looks at that
one. -/
theorem Passes.exists_reader {k : Token} (h : Passes c ts c') (hk : c'.next.1 = .ok k) :
    ∃ r r', ofStream c.toStream = .ok r ∧ Eats r ts r' ∧ r'.lookahead = k := by
  obtain ⟨k', hk'⟩ := h.next_ok hk
  have hstream : c.toStream.next = (.ok k', c.toStream.next.2) := by
    rw [← hk', ← toStream_next_fst]
  obtain ⟨r', hts, hr'⟩ := h.eats hk (r := ⟨k', c.toStream.next.2, k'.span.start, 1⟩) hstream
  refine ⟨_, r', ofStream_of_next hstream, hts, ?_⟩
  rw [hr'.next_fst, Except.ok.injEq] at hk
  exact hk

end Cursor

end Abacus

import Abacus.Proofs.Parallel
import Abacus.Proofs.Scanning

/-!
# The items of a text

A cursor that has come to its last item gives that item again and again, so the items of a text are
what the cursor gives one step after the other, without end. Two cursors whose steps are alike give
streams that are alike. And the listing of a text, with its failure behind it, is the beginning of
the stream, up to the first item after which no reader asks for more.
-/

namespace Abacus

namespace Cursor

variable {c d : Cursor} {t : Token} {e : Failure}

/-- A cursor goes on behind a numeral, whatever has come of it. -/
theorem isLast_numeral (source : String) (ds : List Char) (span : Span) :
    (numeral source ds span).isLast = false := by
  rw [numeral]
  split <;> rfl

/-- The last item comes again, and the cursor stays where it is. -/
theorem next_next (h : c.next.1.isLast = true) : c.next.2.next = c.next := by
  obtain ⟨item, c', hnext⟩ : ∃ item c', c.next = (item, c') := ⟨_, _, rfl⟩
  rw [hnext] at h ⊢
  refine Step.next_eq ?_
  cases next_eq_iff.1 hnext with
  | @finish w hw hrest =>
      exact Step.finish (c := c.onto w.length []) (w := []) (by simp [Blanks]) rfl
  | numeral => exact absurd h (by simp [isLast_numeral])
  | symbol hw hk hrest =>
      exact absurd (by simpa [Item.isLast] using h) (Lexeme.symbol hk).kind_ne_endOfInput
  | @stray w rest ch hw hb hd hk hrest =>
      exact Step.stray (c := c.onto w.length (ch :: rest)) (w := []) (by simp [Blanks]) hb hd hk rfl

theorem next_again (h : c.next.1.isLast = true) : c.next.2.next.1 = c.next.1 := by
  rw [next_next h]

theorem toStream_next (c : Cursor) : c.toStream.next = (c.next.1, c.next.2.toStream) := by
  cases h : c.next.1.isLast with
  | false => exact toStream_of_not_isLast h
  | true =>
      have hagain := next_again h
      rw [toStream_of_isLast h, toStream_of_isLast (by rw [hagain]; exact h), hagain]
      rfl

/-- Cursors whose steps are alike, for ever, have streams that are alike. -/
theorem ahead_toStream {source source' : String} (L : Likeness source source')
    {R : Cursor → Cursor → Prop}
    (hR : ∀ c d, R c d → L.Alike c.next.1 d.next.1 ∧ R c.next.2 d.next.2) (n : Nat) :
    ∀ {c d}, R c d → L.Ahead n c.toStream d.toStream := by
  induction n with
  | zero => intro c d _; trivial
  | succ n ih =>
      intro c d h
      obtain ⟨halike, hnext⟩ := hR c d h
      rw [Likeness.Ahead, toStream_next, toStream_next]
      exact ⟨halike, ih hnext⟩

/-- Texts whose cursors take steps that are alike come to the same value or to failures that are
alike. -/
theorem evaluate_same [Host] {source source' : String} (L : Likeness source source')
    {R : Cursor → Cursor → Prop} {line line' : Int}
    (hR : ∀ c d, R c d → L.Alike c.next.1 d.next.1 ∧ R c.next.2 d.next.2)
    (h : R (.ofSource source line) (.ofSource source' line')) (allowTrailing : Bool) :
    L.Same (evaluate source line allowTrailing) (evaluate source' line' allowTrailing) := by
  have hsame := (L.run_of_ahead allowTrailing (ahead_toStream L hR _ h) (Nat.le_refl _)).1
  rwa [TokenStream.run_fst, TokenStream.run_fst, ← evaluate_eq_stream,
    ← evaluate_eq_stream] at hsame

/-! ## Listings -/

/-- The tokens of the listing, and then its failure if it has one. -/
def items (c : Cursor) : List Item :=
  c.listing.1.map .ok ++ c.listing.2.toList.map .error

/-- An induction over the steps of a cursor, down to the first item after which nothing is asked
for. -/
theorem listing_induction {motive : Cursor → Prop}
    (error : ∀ c e, c.next.1 = .error e → motive c)
    (endOfInput : ∀ c t, c.next.1 = .ok t → t.kind = .endOfInput → motive c)
    (token : ∀ c t, c.next.1 = .ok t → t.kind ≠ .endOfInput → motive c.next.2 → motive c)
    (c : Cursor) : motive c := by
  generalize hn : c.rest.length = n
  induction n using Nat.strong_induction_on generalizing c with
  | _ n ih =>
      cases hnext : c.next.1 with
      | error e => exact error c e hnext
      | ok t =>
          by_cases hk : t.kind = .endOfInput
          · exact endOfInput c t hnext hk
          · have hlast : c.next.1.isLast = false := by
              rw [hnext]
              simpa [Item.isLast] using hk
            exact token c t hnext hk (ih _ (hn ▸ rest_next_lt hlast) _ rfl)

theorem items_of_error (h : c.next.1 = .error e) : c.items = [.error e] := by
  rw [items, listing_of_error h]
  rfl

theorem items_of_endOfInput (h : c.next.1 = .ok t) (hk : t.kind = .endOfInput) :
    c.items = [.ok t] := by
  rw [items, listing_of_endOfInput h hk]
  rfl

theorem items_of_token (h : c.next.1 = .ok t) (hk : t.kind ≠ .endOfInput) :
    c.items = .ok t :: c.next.2.items := by
  rw [items, listing_of_token h hk]
  rfl

/-- The listing of a text is the beginning of its stream. -/
theorem take_toStream (c : Cursor) : c.toStream.take c.items.length = c.items := by
  induction c using listing_induction with
  | error c e h =>
      rw [items_of_error h, List.length_singleton, TokenStream.take, TokenStream.take,
        toStream_next, h]
  | endOfInput c t h hk =>
      rw [items_of_endOfInput h hk, List.length_singleton, TokenStream.take, TokenStream.take,
        toStream_next, h]
  | token c t h hk ih =>
      rw [items_of_token h hk, List.length_cons, TokenStream.take, toStream_next, h, ih]

end Cursor

end Abacus

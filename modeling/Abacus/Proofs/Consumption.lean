import Abacus.Proofs.Progress
import Abacus.Reader

/-!
# What a reader consumes

A reader moves in one way only: it consumes the token it looks at and looks at the next one. `Eats`
is any number of such moves in a row. Everything that a rule does to the reader is said in terms of
it: how many items were taken, where the text consumed last ends, and how much of the stream is
left.

The second half is about the end of a stream, where the last item comes again and again: every token
consumed before leaves one item less to come.
-/

namespace Abacus

/-- The first `n` items of a stream. -/
def TokenStream.take : Nat → TokenStream → List Item
  | 0, _ => []
  | n + 1, s => s.next.1 :: s.next.2.take n

namespace Reader

/-- By consuming the tokens, one after the other, the reader gets from `r` to `r'`. -/
inductive Eats : Reader → List Token → Reader → Prop where
  | nil (r : Reader) : Eats r [] r
  | cons {r r₁ r' : Reader} {t : Token} {ts : List Token} (h : eat r = .ok t r₁)
      (hs : Eats r₁ ts r') : Eats r (t :: ts) r'

section

variable {r r₁ r₂ r' : Reader} {t k : Token} {ts us : List Token} {e : Failure}

theorem eat_ok (h : eat r = .ok t r₁) :
    t = r.lookahead ∧ r.stream.next = (.ok r₁.lookahead, r₁.stream) ∧
      r₁.previousEnd = r.lookahead.span.stop ∧ r₁.taken = r.taken + 1 := by
  rw [eat] at h
  cases hn : r.stream.next with
  | mk item later =>
      rw [hn] at h
      cases item with
      | error e => cases h
      | ok k => cases h; exact ⟨rfl, rfl, rfl, rfl⟩

theorem eat_error (h : eat r = .error e r₁) : r.stream.next.1 = .error e := by
  rw [eat] at h
  cases hn : r.stream.next.1 with
  | error e' => rw [hn] at h; cases h; rfl
  | ok k => rw [hn] at h; cases h

theorem eat_of_next {s : TokenStream} (h : r.stream.next = (.ok k, s)) :
    eat r = .ok r.lookahead ⟨k, s, r.lookahead.span.stop, r.taken + 1⟩ := by
  rw [eat, h]

theorem Eats.single (h : eat r = .ok t r₁) : Eats r [t] r₁ :=
  .cons h (.nil r₁)

theorem Eats.append (h : Eats r ts r₁) (h' : Eats r₁ us r₂) : Eats r (ts ++ us) r₂ := by
  induction h with
  | nil r => exact h'
  | cons ht _ ih => exact .cons ht (ih h')

theorem eats_append : Eats r (ts ++ us) r₂ ↔ ∃ r₁, Eats r ts r₁ ∧ Eats r₁ us r₂ := by
  refine ⟨fun h => ?_, fun ⟨r₁, h, h'⟩ => h.append h'⟩
  induction ts generalizing r with
  | nil => exact ⟨r, .nil r, h⟩
  | cons t ts ih =>
      cases h with
      | cons ht hs =>
          obtain ⟨r₁, h₁, h₂⟩ := ih hs
          exact ⟨r₁, .cons ht h₁, h₂⟩

theorem eats_cons : Eats r (t :: ts) r₂ ↔ ∃ r₁, eat r = .ok t r₁ ∧ Eats r₁ ts r₂ :=
  ⟨fun h => by cases h with | cons ht hs => exact ⟨_, ht, hs⟩, fun ⟨_, ht, hs⟩ => .cons ht hs⟩

theorem Eats.eq_of_single (h : Eats r [t] r₁) : eat r = .ok t r₁ := by
  cases h with
  | cons ht hs => cases hs; exact ht

theorem Eats.lookahead_eq (h : Eats r (t :: ts) r') : r.lookahead = t := by
  cases h with
  | cons ht hs => exact (eat_ok ht).1.symm

/-- The items that a reader finds ahead are the tokens it can consume. -/
theorem eats_iff : (∃ r', Eats r ts r' ∧ r'.lookahead = k) ↔
    .ok r.lookahead :: r.stream.take ts.length = ts.map .ok ++ [.ok k] := by
  induction ts generalizing r with
  | nil =>
      constructor
      · rintro ⟨r', h, rfl⟩
        cases h
        rfl
      · intro h
        exact ⟨r, .nil r, by simpa [TokenStream.take] using h⟩
  | cons t ts ih =>
      constructor
      · rintro ⟨r', h, hk⟩
        cases h with
        | cons ht hs =>
            obtain ⟨rfl, hn, -, -⟩ := eat_ok ht
            have h' := ih.1 ⟨r', hs, hk⟩
            rw [List.length_cons, TokenStream.take, hn, h']
            rfl
      · intro h
        rw [List.length_cons, TokenStream.take, List.map_cons, List.cons_append,
          List.cons.injEq, Except.ok.injEq] at h
        obtain ⟨rfl, h⟩ := h
        cases hn : r.stream.next with
        | mk item later =>
            rw [hn] at h
            cases item with
            | error e => cases ts <;> cases h
            | ok k' =>
                obtain ⟨r', hs, hk⟩ := ih (r := ⟨k', later, _, _⟩) |>.2 h
                exact ⟨r', .cons (eat_of_next hn) hs, hk⟩

theorem Eats.taken_eq (h : Eats r ts r') : r'.taken = r.taken + ts.length := by
  induction h with
  | nil r => rfl
  | cons ht _ ih =>
      rw [ih, (eat_ok ht).2.2.2, List.length_cons]
      omega

theorem Eats.previousEnd_eq (h : Eats r (ts ++ [t]) r') : r'.previousEnd = t.span.stop := by
  obtain ⟨r₁, -, h⟩ := eats_append.1 h
  obtain ⟨rfl, -, hp, -⟩ := eat_ok h.eq_of_single
  exact hp

/-! ## The stream runs down

Every token consumed leaves one item less to come. Once none is left the stream repeats its last
item, and whatever is consumed then stays in view. -/

theorem eat_upcoming (h : eat r = .ok t r₁) : r₁.stream.upcoming = r.stream.upcoming.tail := by
  have hn := congrArg (fun p : Item × TokenStream => p.2.upcoming) (eat_ok h).2.1
  rw [← show r.stream.next.2.upcoming = r₁.stream.upcoming from hn]
  cases hs : r.stream with
  | mk upcoming last => cases upcoming <;> rfl

theorem Eats.upcoming_le (h : Eats r ts r') :
    r'.stream.upcoming.length ≤ r.stream.upcoming.length - ts.length := by
  induction h with
  | nil r => simp
  | cons ht _ ih =>
      rw [eat_upcoming ht, List.length_tail] at ih
      rw [List.length_cons]
      omega

/-- The reader looks at the item that the stream repeats. -/
def Idle (r : Reader) : Prop :=
  r.stream = ⟨[], .ok r.lookahead⟩

theorem idle_of_eat (hr : r.stream.upcoming = []) (h : eat r = .ok t r₁) : Idle r₁ := by
  obtain ⟨-, hn, -, -⟩ := eat_ok h
  cases hs : r.stream with
  | mk upcoming last =>
      rw [hs] at hr hn
      simp only at hr
      subst hr
      rw [TokenStream.next, Prod.mk.injEq] at hn
      rw [Idle, ← hn.2, hn.1]

theorem Eats.lookahead_of_idle (hr : Idle r) (h : Eats r ts r') : r'.lookahead = r.lookahead := by
  induction h with
  | nil r => rfl
  | cons ht _ ih =>
      have hi := idle_of_eat (by rw [hr]) ht
      obtain ⟨-, hn, -, -⟩ := eat_ok ht
      rw [hr, TokenStream.next, Prod.mk.injEq, Except.ok.injEq] at hn
      rw [ih hi, hn.1]

end

end Reader

end Abacus

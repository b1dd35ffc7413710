import Abacus.Proofs.Items
import Abacus.Proofs.Reproduction

/-!
# One call after the other

A cursor can be asked for the next item as often as one likes, and a failure is no reason to stop.
What is proved here holds of all these calls. The cursor always knows the character that it stands
before, and it never goes back. A token takes it forward, and so does a numeral that cannot be
accepted, which is passed over to its last digit. Only two calls leave it where it is: one that
finds the end of the text, and one that finds a character of no token. After either of them every
call does the same again. Since all the others use the text up, one of the two comes at the latest
with as many calls as the text has characters and one more, and there the listing of the text ends
too: it consists of the items of the calls, down to the first that is no token.
-/

namespace Abacus

/-- A numeral, whether it was read or rejected. -/
def Item.IsNumeral : Item → Prop
  | .ok t => t.kind = .integer
  | .error (.fault f) => ∃ ds, f.cause = .numeral ds
  | .error (.overlong _) => True

namespace Cursor

/-- The cursor after `n` calls, whatever has come of them. -/
def after (c : Cursor) : Nat → Cursor
  | 0 => c
  | n + 1 => (c.after n).next.2

/-- What holds of a cursor in a text, and of a call of it. -/
structure Behaves (c : Cursor) (source : String) : Prop where
  /-- It stands in the text, and knows the character there, if there is one. -/
  inside : c.offset ≤ source.toList.length
  current : c.current? = source.toList[c.offset]?
  /-- It does not go back, and a token takes it forward. -/
  forward : c.offset ≤ c.next.2.offset
  token : ∀ t, c.next.1 = .ok t → t.kind ≠ .endOfInput → c.offset < c.next.2.offset
  /-- So does a numeral, read or rejected, and no digit is left of it. -/
  numeral : c.next.1.IsNumeral →
    c.offset < c.next.2.offset ∧ ∀ ch ∈ c.next.2.current?, ch.isDigit = false
  /-- A character of no token stops it there, and is reported again by every later call. -/
  stray : ∀ text span whole, c.next.1 = .error (.fault ⟨.character text, span, whole⟩) →
    (∃ ch, c.next.2.current? = some ch ∧ text = String.singleton ch ∧
      span = ⟨c.next.2.position, c.next.2.position.succ⟩) ∧
    ∀ m, (c.next.2.after m).next = c.next
  /-- The end of the text, where it is once found, is found by every later call. -/
  finish : ∀ t, c.next.1 = .ok t → t.kind = .endOfInput → ∀ m, (c.next.2.after m).next = c.next

variable {source : String} {line : Int} {c c' : Cursor} {item : Item} {t : Token} {e : Failure}
  {n : Nat}

/-! ## One call -/

theorem Step.exists_rest (h : c.Step item c') :
    ∃ mid, c.rest = mid ++ c'.rest ∧ c' = c.onto mid.length c'.rest := by
  cases h with
  | @finish w hw hrest => exact ⟨w, by rw [hrest]; exact (List.append_nil w).symm, rfl⟩
  | @numeral w ds rest hw hds hend hrest =>
      exact ⟨w ++ ds, by rw [hrest, List.append_assoc]; rfl, by simp [onto]⟩
  | @symbol w rest ch k hw hk hrest => exact ⟨w ++ [ch], by rw [hrest]; simp [onto], by simp [onto]⟩
  | @stray w rest ch hw hb hd hk hrest => exact ⟨w, hrest, rfl⟩

theorem On.next (h : c.On source line) : c.next.2.On source line := by
  obtain ⟨mid, hrest, hc'⟩ := (step_next c).exists_rest
  rw [hc']
  exact h.onto hrest

theorem On.inside (h : c.On source line) : c.offset ≤ source.toList.length := by
  obtain ⟨s, hs, hlen⟩ := h.rest_eq
  rw [hs, List.length_append]
  omega

theorem On.current_eq (h : c.On source line) : c.current? = source.toList[c.offset]? := by
  obtain ⟨s, hs, hlen⟩ := h.rest_eq
  rw [current?, hs, hlen, List.getElem?_append_right (Nat.le_refl _), Nat.sub_self,
    List.head?_eq_getElem?]

theorem offset_next_ge (c : Cursor) : c.offset ≤ c.next.2.offset := by
  obtain ⟨mid, -, hc'⟩ := (step_next c).exists_rest
  rw [hc']
  exact Nat.le_add_right ..

theorem offset_next_gt (ht : c.next.1 = .ok t) (hk : t.kind ≠ .endOfInput) :
    c.offset < c.next.2.offset := by
  have hlast : c.next.1.isLast = false := by
    rw [ht]
    simpa [Item.isLast] using hk
  have hlt := rest_next_lt hlast
  obtain ⟨mid, hrest, hc'⟩ := (step_next c).exists_rest
  have hlen := congrArg List.length hrest
  rw [List.length_append] at hlen
  rw [hc']
  simp only [onto]
  omega

theorem next_of_isNumeral (h : c.next.1.IsNumeral) :
    c.offset < c.next.2.offset ∧ ∀ ch ∈ c.next.2.current?, ch.isDigit = false := by
  have hstep := c.step_next
  generalize c.next.1 = item at h hstep
  generalize c.next.2 = c' at hstep ⊢
  cases hstep with
  | finish => cases h
  | @numeral w ds rest hw hds hend hrest =>
      have hpos := List.length_pos_iff.2 hds.1
      refine ⟨?_, hend⟩
      simp only [onto]
      omega
  | @symbol w rest ch k hw hk hrest =>
      have hinteger : k = .integer := h
      rw [hinteger, ← Token.Kind.symbol?_eq_some_iff] at hk
      cases hk
  | stray =>
      obtain ⟨ds, hds⟩ := h
      cases hds

theorem next_of_character {text whole : String} {span : Span}
    (h : c.next.1 = .error (.fault ⟨.character text, span, whole⟩)) :
    ∃ ch, c.next.2.current? = some ch ∧ text = String.singleton ch ∧
      span = ⟨c.next.2.position, c.next.2.position.succ⟩ := by
  have hstep := c.step_next
  rw [h] at hstep
  generalize hitem : (.error (.fault ⟨.character text, span, whole⟩) : Item) = item at hstep
  generalize c.next.2 = c' at hstep ⊢
  cases hstep with
  | finish | symbol => cases hitem
  | numeral =>
      have hlast := congrArg Item.isLast hitem
      rw [isLast_numeral] at hlast
      cases hlast
  | @stray w rest ch hw hb hd hk hrest =>
      cases hitem
      exact ⟨ch, rfl, rfl, rfl⟩

/-! ## All calls -/

/-- Where a call has brought the last item, the later ones bring it again. -/
theorem next_after_of_isLast (h : c.next.1.isLast = true) (m : Nat) :
    (c.next.2.after m).next = c.next := by
  induction m with
  | zero => exact next_next h
  | succ m ih =>
      rw [after, ih]
      exact next_next h

theorem behaves_of_on (h : c.On source line) : c.Behaves source where
  inside := h.inside
  current := h.current_eq
  forward := c.offset_next_ge
  token _ ht hk := offset_next_gt ht hk
  numeral := next_of_isNumeral
  stray _ _ _ he := ⟨next_of_character he, next_after_of_isLast (by rw [he]; rfl)⟩
  finish _ ht hk := next_after_of_isLast (by rw [ht]; simp [Item.isLast, hk])

theorem on_after (h : c.On source line) (n : Nat) : (c.after n).On source line := by
  induction n with
  | zero => exact h
  | succ n ih => exact ih.next

theorem after_succ (c : Cursor) (n : Nat) : c.after (n + 1) = c.next.2.after n := by
  induction n with
  | zero => rfl
  | succ n ih => rw [after, ih, after]

/-- Before the text has run out there is a call that brings the last item. -/
theorem exists_isLast (c : Cursor) : ∃ n ≤ c.rest.length, (c.after n).next.1.isLast = true := by
  generalize hlen : c.rest.length = len
  induction len using Nat.strong_induction_on generalizing c with
  | _ len ih =>
      cases hlast : c.next.1.isLast with
      | true => exact ⟨0, Nat.zero_le _, hlast⟩
      | false =>
          have hlt := rest_next_lt hlast
          obtain ⟨n, hn, h⟩ := ih _ (hlen ▸ hlt) c.next.2 rfl
          exact ⟨n + 1, by omega, by rw [after_succ]; exact h⟩

/-- The last item is the end of the text or a character of no token in it. -/
theorem On.of_isLast (h : c.On source line) (hlast : c.next.1.isLast = true) :
    (∃ t, c.next.1 = .ok t ∧ t.kind = .endOfInput) ∨
      ∃ text span, c.next.1 = .error (.fault ⟨.character text, span, source⟩) := by
  have hstep := c.step_next
  generalize c.next.1 = item at hlast hstep ⊢
  generalize c.next.2 = c' at hstep
  cases hstep with
  | finish => exact .inl ⟨_, rfl, rfl⟩
  | numeral => exact absurd hlast (by simp [isLast_numeral])
  | symbol hw hk hrest =>
      exact absurd (by simpa [Item.isLast] using hlast) (Lexeme.symbol hk).kind_ne_endOfInput
  | stray => exact .inr ⟨_, _, by rw [h.source_eq]; rfl⟩

/-- The calls up to the first that brings no token, or the end of the text, are the listing. -/
theorem exists_listing_eq (c : Cursor) : ∃ n ≤ c.rest.length, ∃ ts : List Token,
    ((List.range n).map fun i => (c.after i).next.1) = ts.map .ok ∧
    (∀ t ∈ ts, t.kind ≠ .endOfInput) ∧
    ((∃ t, (c.after n).next.1 = .ok t ∧ t.kind = .endOfInput ∧ c.listing = (ts ++ [t], none)) ∨
      ∃ e, (c.after n).next.1 = .error e ∧ c.listing = (ts, some e)) := by
  induction c using listing_induction with
  | error c e h =>
      exact ⟨0, Nat.zero_le _, [], rfl, by simp, .inr ⟨e, h, listing_of_error h⟩⟩
  | endOfInput c t h hk =>
      exact ⟨0, Nat.zero_le _, [], rfl, by simp, .inl ⟨t, h, hk, listing_of_endOfInput h hk⟩⟩
  | token c t h hk ih =>
      obtain ⟨n, hn, ts, hts, hkinds, hend⟩ := ih
      have hlast : c.next.1.isLast = false := by
        rw [h]
        simpa [Item.isLast] using hk
      have hlt := rest_next_lt hlast
      refine ⟨n + 1, by omega, t :: ts, ?_, List.forall_mem_cons.2 ⟨hk, hkinds⟩, ?_⟩
      · rw [List.range_succ_eq_map, List.map_cons, List.map_map, List.map_cons, ← hts]
        refine congrArg₂ _ h (List.map_congr_left fun i _ => ?_)
        rw [Function.comp_apply, Nat.succ_eq_add_one, after_succ]
      · rw [after_succ, listing_of_token h hk]
        rcases hend with ⟨u, hu, hku, hlisting⟩ | ⟨e, he, hlisting⟩
        · exact .inl ⟨u, hu, hku, by rw [hlisting]; rfl⟩
        · exact .inr ⟨e, he, by rw [hlisting]⟩

/-- What holds of any number of calls on a text. -/
theorem calls_on_source (source : String) (line : Int) :
    (∀ n, ((ofSource source line).after n).Behaves source) ∧
    (∃ n ≤ source.toList.length,
      (∃ t, ((ofSource source line).after n).next.1 = .ok t ∧ t.kind = .endOfInput) ∨
      ∃ text span, ((ofSource source line).after n).next.1 =
        .error (.fault ⟨.character text, span, source⟩)) ∧
    ∃ n ≤ source.toList.length, ∃ ts : List Token,
      ((List.range n).map fun i => ((ofSource source line).after i).next.1) = ts.map .ok ∧
      (∀ t ∈ ts, t.kind ≠ .endOfInput) ∧
      ((∃ t, ((ofSource source line).after n).next.1 = .ok t ∧ t.kind = .endOfInput ∧
        Token.ofSource source line = .ok (ts ++ [t]) ∧
        Token.table source line = (String.join ((ts ++ [t]).map Token.row), none)) ∨
      ∃ e, ((ofSource source line).after n).next.1 = .error e ∧
        Token.ofSource source line = .error e ∧
        Token.table source line = (String.join (ts.map Token.row), some e)) := by
  have hon : ∀ n, ((ofSource source line).after n).On source line := on_after on_ofSource
  refine ⟨fun n => behaves_of_on (hon n), ?_, ?_⟩
  · obtain ⟨n, hn, hlast⟩ := exists_isLast (ofSource source line)
    exact ⟨n, hn, (hon n).of_isLast hlast⟩
  · obtain ⟨n, hn, ts, hts, hkinds, hend⟩ := exists_listing_eq (ofSource source line)
    refine ⟨n, hn, ts, hts, hkinds, ?_⟩
    rcases hend with ⟨t, ht, hk, hlisting⟩ | ⟨e, he, hlisting⟩
    · refine .inl ⟨t, ht, hk, ?_, ?_⟩
      · rw [Token.ofSource, hlisting]
      · rw [Token.table, hlisting]
    · refine .inr ⟨e, he, ?_, ?_⟩
      · rw [Token.ofSource, hlisting]
      · rw [Token.table, hlisting]

end Cursor

end Abacus

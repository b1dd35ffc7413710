import Abacus.Proofs.LineBreaks

/-!
# Where a text is cut

The lines of a text are what stands between its breaks, and a break at the very end is followed by
no line. A stream has its breaks rewritten first, the pairs and then what is left of the carriage
returns, and is cut behind each line feed after that. Lines come out the same either way, with all
characters in them that are no break.

A text can also be cut somewhere in between. Its lines are those of the front and then those of the
back just if the front ends with a break that the back has no part in: anywhere else the last line
of the front runs on, and there is one line less.
-/

namespace Abacus.Text

/-- A character that ends a line, alone or in a pair. -/
def IsBreak (c : Char) : Prop :=
  c = '\n' ∨ c = '\r'

instance (c : Char) : Decidable (IsBreak c) :=
  inferInstanceAs (Decidable (_ ∨ _))

/-- The pieces between the breaks of a text: one more than there are breaks. -/
def between : List Char → List (List Char)
  | [] => [[]]
  | '\r' :: '\n' :: rest => [] :: between rest
  | '\r' :: rest => [] :: between rest
  | '\n' :: rest => [] :: between rest
  | c :: rest => (between rest).modifyHead (c :: ·)

/-- The pieces but for the last one, if that is empty. -/
def withoutEmptyEnd (pieces : List (List Char)) : List (List Char) :=
  if pieces.getLast? = some [] then pieces.dropLast else pieces

/-- Every pair of a carriage return and a line feed becomes a line feed. -/
def replacePairs : List Char → List Char
  | [] => []
  | '\r' :: '\n' :: rest => '\n' :: replacePairs rest
  | c :: rest => c :: replacePairs rest

/-- Every carriage return becomes a line feed. -/
def replaceReturns (text : List Char) : List Char :=
  text.map fun c => if c = '\r' then '\n' else c

/-- A piece of a stream without the line feed that ends it. -/
def withoutFeed (piece : List Char) : List Char :=
  if piece.getLast? = some '\n' then piece.dropLast else piece

/-- If the text ends with a character, that is a break, and what comes after the text has no part in
it. -/
def CutBefore (text more : List Char) : Prop :=
  ∀ c, text.getLast? = some c → IsBreak c ∧ ¬ (c = '\r' ∧ more.head? = some '\n')

variable {c : Char} {text more rest line : List Char} {pieces : List (List Char)}

/-! ## Between the breaks -/

theorem between_ne_nil (text : List Char) : between text ≠ [] := by
  fun_induction between text with
  | case1 => exact List.cons_ne_nil _ _
  | case2 | case3 | case4 => exact List.cons_ne_nil _ _
  | case5 c rest _ _ _ ih =>
      obtain ⟨piece, pieces, hpieces⟩ := List.exists_cons_of_ne_nil ih
      rw [hpieces]
      exact List.cons_ne_nil _ _

theorem withoutEmptyEnd_cons (h : pieces ≠ []) (piece : List Char) :
    withoutEmptyEnd (piece :: pieces) = piece :: withoutEmptyEnd pieces := by
  obtain ⟨first, others, rfl⟩ := List.exists_cons_of_ne_nil h
  rw [withoutEmptyEnd, withoutEmptyEnd, List.getLast?_cons_cons, List.dropLast_cons_cons]
  split <;> rfl

theorem not_isBreak (hfeed : c ≠ '\n') (hreturn : c ≠ '\r') : ¬ IsBreak c :=
  not_or.2 ⟨hfeed, hreturn⟩

theorem splitLines_cons (hc : ¬ IsBreak c) (rest : List Char) :
    splitLines (c :: rest) = (c :: (splitLines rest).headD []) :: (splitLines rest).tail := by
  obtain ⟨hfeed, hreturn⟩ := not_or.1 hc
  rw [splitLines]
  · cases splitLines rest <;> rfl
  · exact fun _ h _ => hreturn h
  · exact hreturn
  · exact hfeed

/-- The lines are what stands between the breaks; nothing stands behind a break at the end. -/
theorem splitLines_eq_between (text : List Char) :
    splitLines text = withoutEmptyEnd (between text) := by
  fun_induction between text with
  | case1 => rfl
  | case2 rest ih | case4 rest ih =>
      rw [splitLines, ih, withoutEmptyEnd_cons (between_ne_nil rest)]
  | case3 rest hn ih =>
      rw [splitLines, ih, withoutEmptyEnd_cons (between_ne_nil rest)]
      exact hn
  | case5 c rest _ hreturn hfeed ih =>
      rw [splitLines_cons (not_isBreak hfeed hreturn), ih]
      obtain ⟨piece, pieces, hpieces⟩ := List.exists_cons_of_ne_nil (between_ne_nil rest)
      rw [hpieces, List.modifyHead_cons]
      by_cases hlast : pieces = []
      · -- The last piece is no longer empty, if it was so far.
        rw [hlast]
        cases piece <;> rfl
      · rw [withoutEmptyEnd_cons hlast, withoutEmptyEnd_cons hlast, List.headD_cons, List.tail_cons]

/-! ## In a stream -/

theorem replaceReturns_replacePairs (text : List Char) :
    replaceReturns (replacePairs text) = normalizeBreaks text := by
  fun_induction normalizeBreaks text with
  | case1 => rfl
  | case2 rest ih => rw [← ih]; rfl
  | case3 rest hn ih =>
      rw [replacePairs, ← ih]
      · rfl
      · exact fun more _ => hn more
  | case4 c rest hn hreturn ih =>
      rw [replacePairs, ← ih, replaceReturns, List.map_cons, if_neg hreturn]
      · rfl
      · exact fun _ hc _ => hreturn hc

theorem unbroken_of_mem_markedLines (text : List Char) :
    ∀ p ∈ markedLines text, ∀ c ∈ p.1, ¬ IsBreak c := by
  fun_induction markedLines text with
  | case1 => simp
  | case2 rest ih | case3 rest _ ih | case4 rest ih => simpa using ih
  | case5 c rest _ hreturn hfeed h ih => simpa using not_isBreak hfeed hreturn
  | case6 c rest _ hreturn hfeed line broken more h ih =>
      rw [h, List.forall_mem_cons] at ih
      exact List.forall_mem_cons.2
        ⟨List.forall_mem_cons.2 ⟨not_isBreak hfeed hreturn, ih.1⟩, ih.2⟩

theorem withoutFeed_feed (hline : ∀ c ∈ line, ¬ IsBreak c) (broken : Bool) :
    withoutFeed (line ++ feed broken) = line := by
  cases broken with
  | true => simp [withoutFeed]
  | false =>
      rw [feed_false, List.append_nil, withoutFeed, if_neg]
      intro hlast
      exact hline _ (List.mem_of_getLast? hlast) (.inl rfl)

theorem splitLines_eq_withoutFeed (text : List Char) :
    splitLines text = (cutAfterFeeds (normalizeBreaks text)).map withoutFeed := by
  rw [splitLines_eq, cutAfterFeeds_normalizeBreaks, List.map_map]
  refine List.map_congr_left fun p hp => ?_
  exact (withoutFeed_feed (unbroken_of_mem_markedLines text p hp) p.2).symm

/-! ## What is in the lines -/

theorem unbroken_of_mem_splitLines (hline : line ∈ splitLines text) : ∀ c ∈ line, ¬ IsBreak c := by
  rw [splitLines_eq] at hline
  obtain ⟨p, hp, rfl⟩ := List.mem_map.1 hline
  exact unbroken_of_mem_markedLines text p hp

/-- Nothing is lost but the breaks. -/
theorem flatten_splitLines (text : List Char) :
    (splitLines text).flatten = text.filter fun c => ¬ IsBreak c := by
  fun_induction splitLines text with
  | case1 => rfl
  | case2 rest ih | case3 rest _ ih | case4 rest ih =>
      simpa [IsBreak] using ih
  | case5 c rest _ hreturn hfeed h ih | case6 c rest _ hreturn hfeed line more h ih =>
      rw [h] at ih
      rw [List.filter_cons_of_pos (by simpa using not_isBreak hfeed hreturn), ← ih]
      rfl

/-! ## One text after another -/

theorem splitLines_eq_nil_iff : splitLines text = [] ↔ text = [] := by
  fun_cases splitLines text <;> simp

theorem length_splitLines_cons (hc : ¬ IsBreak c) (h : rest ≠ []) :
    (splitLines (c :: rest)).length = (splitLines rest).length := by
  obtain ⟨line, more, hlines⟩ := List.exists_cons_of_ne_nil (mt splitLines_eq_nil_iff.1 h)
  rw [splitLines_cons hc, hlines]
  rfl

theorem cutBefore_nil (more : List Char) : CutBefore [] more := by
  intro c hc
  cases hc

theorem cutBefore_cons (h : rest ≠ []) : CutBefore (c :: rest) more ↔ CutBefore rest more := by
  obtain ⟨first, others, rfl⟩ := List.exists_cons_of_ne_nil h
  rw [CutBefore, CutBefore, List.getLast?_cons_cons]

theorem CutBefore.tail (h : CutBefore (c :: rest) more) : CutBefore rest more := by
  cases rest with
  | nil => exact cutBefore_nil more
  | cons first rest => exact (cutBefore_cons (List.cons_ne_nil _ _)).1 h

theorem cutBefore_singleton :
    CutBefore [c] more ↔ IsBreak c ∧ ¬ (c = '\r' ∧ more.head? = some '\n') := by
  simp [CutBefore]

/-- Where there is no cut, there is none for what is left behind the first character either, unless
that is the only one. -/
theorem not_cutBefore_cons (h : ¬ CutBefore (c :: rest) more) :
    rest = [] ∧ ¬ CutBefore [c] more ∨ rest ≠ [] ∧ ¬ CutBefore rest more := by
  by_cases hrest : rest = []
  · exact .inl ⟨hrest, hrest ▸ h⟩
  · exact .inr ⟨hrest, mt (cutBefore_cons hrest).2 h⟩

theorem cutBefore_feed (more : List Char) : CutBefore ['\n'] more :=
  cutBefore_singleton.2 ⟨.inl rfl, by simp⟩

theorem splitLines_return (h : rest.head? ≠ some '\n') :
    splitLines ('\r' :: rest) = [] :: splitLines rest := by
  rw [splitLines]
  rintro others rfl
  exact h rfl

theorem head?_append_ne_feed (hrest : rest ≠ []) (hn : ∀ others, rest = '\n' :: others → False)
    (more : List Char) : (rest ++ more).head? ≠ some '\n' := by
  obtain ⟨first, others, rfl⟩ := List.exists_cons_of_ne_nil hrest
  rw [List.cons_append, List.head?_cons, ne_eq, Option.some.injEq]
  rintro rfl
  exact hn others rfl

/-- A text, and more text that has no part in its last break. -/
theorem splitLines_append (h : CutBefore text more) :
    splitLines (text ++ more) = splitLines text ++ splitLines more := by
  fun_induction splitLines text with
  | case1 => rfl
  | case2 rest ih =>
      rw [List.cons_append, List.cons_append, splitLines, ih h.tail.tail, List.cons_append]
  | case3 rest hn ih =>
      have hhead : (rest ++ more).head? ≠ some '\n' := by
        by_cases hrest : rest = []
        · rw [hrest, cutBefore_singleton] at h
          exact fun hfeed => h.2 ⟨rfl, by rwa [hrest] at hfeed⟩
        · exact head?_append_ne_feed hrest hn more
      rw [List.cons_append, splitLines_return hhead, ih h.tail, List.cons_append]
  | case4 rest ih =>
      rw [List.cons_append, splitLines, ih h.tail, List.cons_append]
  | case5 c rest _ hreturn hfeed hnil ih =>
      rw [splitLines_eq_nil_iff.1 hnil, cutBefore_singleton] at h
      exact absurd h.1 (not_isBreak hfeed hreturn)
  | case6 c rest _ hreturn hfeed line lines hlines ih =>
      rw [List.cons_append, splitLines_cons (not_isBreak hfeed hreturn), ih h.tail, hlines,
        List.cons_append, List.headD_cons, List.tail_cons, List.cons_append]

/-- Where the text does not end with a break of its own, its last line runs on. -/
theorem length_splitLines_append (hmore : more ≠ []) (h : ¬ CutBefore text more) :
    (splitLines (text ++ more)).length + 1 =
      (splitLines text).length + (splitLines more).length := by
  -- On the text, down to its last character. That is no break (`case5`), or half of one (`case3`).
  fun_induction splitLines text with
  | case1 => exact absurd (cutBefore_nil more) h
  | case2 rest ih =>
      rw [cutBefore_cons (List.cons_ne_nil _ _)] at h
      rcases not_cutBefore_cons h with ⟨-, h⟩ | ⟨-, h⟩
      · exact absurd (cutBefore_feed more) h
      · have ih := ih h
        simp only [List.cons_append, splitLines, List.length_cons]
        omega
  | case3 rest hn ih =>
      rcases not_cutBefore_cons h with ⟨rfl, h⟩ | ⟨hrest, h⟩
      · obtain ⟨others, rfl⟩ : ∃ others, more = '\n' :: others := by
          simpa [cutBefore_singleton, IsBreak, List.head?_eq_some_iff] using h
        simp only [List.cons_append, List.nil_append, splitLines, List.length_cons,
          List.length_nil]
        omega
      · have ih := ih h
        rw [List.cons_append, splitLines_return (head?_append_ne_feed hrest hn more),
          List.length_cons, List.length_cons]
        omega
  | case4 rest ih =>
      rcases not_cutBefore_cons h with ⟨-, h⟩ | ⟨-, h⟩
      · exact absurd (cutBefore_feed more) h
      · have ih := ih h
        simp only [List.cons_append, splitLines, List.length_cons]
        omega
  | case5 c rest _ hreturn hfeed hnil ih =>
      rw [splitLines_eq_nil_iff.1 hnil, List.singleton_append,
        length_splitLines_cons (not_isBreak hfeed hreturn) hmore, List.length_singleton,
        Nat.add_comm]
  | case6 c rest _ hreturn hfeed line lines hlines ih =>
      have hrest : rest ≠ [] := mt splitLines_eq_nil_iff.2 (by rw [hlines]; simp)
      have ih := ih (mt (cutBefore_cons hrest).2 h)
      rw [hlines] at ih
      rw [List.cons_append, length_splitLines_cons (not_isBreak hfeed hreturn) (by simp [hmore]),
        ih, List.length_cons, List.length_cons]

/-- The lines of a text and more text are those of the one and then those of the other, just if a
line ends where the two meet. -/
theorem splitLines_append_iff :
    splitLines (text ++ more) = splitLines text ++ splitLines more ↔
      more = [] ∨ CutBefore text more := by
  constructor
  · intro heq
    by_cases hmore : more = []
    · exact .inl hmore
    · refine .inr (Classical.byContradiction fun h => ?_)
      have hlength := length_splitLines_append hmore h
      rw [heq, List.length_append] at hlength
      omega
  · rintro (rfl | h)
    · rw [splitLines, List.append_nil, List.append_nil]
    · exact splitLines_append h

theorem cutBefore_iff :
    CutBefore text more ↔ text = [] ∨ (∃ c, text.getLast? = some c ∧ IsBreak c) ∧
      ¬ (text.getLast? = some '\r' ∧ more.head? = some '\n') := by
  constructor
  · intro h
    cases hlast : text.getLast? with
    | none => exact .inl (List.getLast?_eq_none_iff.1 hlast)
    | some c =>
        obtain ⟨hbreak, happart⟩ := h c hlast
        exact .inr ⟨⟨c, rfl, hbreak⟩, fun hshared => happart ⟨Option.some.inj hshared.1, hshared.2⟩⟩
  · rintro (rfl | ⟨⟨c, hlast, hbreak⟩, happart⟩)
    · exact cutBefore_nil more
    · intro c' hlast'
      cases hlast.symm.trans hlast'
      exact ⟨hbreak, fun hshared => happart ⟨hshared.1 ▸ hlast, hshared.2⟩⟩

/-- The lines of a text are what stands between its breaks, but for an empty rest behind the last
one. They are also the pieces of the stream in which the pairs, and then the carriage returns that
are left, have become line feeds, each without the feed that ends it; and that is how a stream of
bytes is rewritten. No line has a break in it, and all other characters are still there, in order.
The lines of two texts in a row are those of the one and then those of the other just if one of the
texts is empty, or the first one ends with a break that the two do not share. -/
theorem lines_as_streamed (text : String) :
    lines text = (withoutEmptyEnd (between text.toList)).map String.ofList ∧
    lines text =
      (feedLines (String.ofList (replaceReturns (replacePairs text.toList)))).map
        (fun piece => String.ofList (withoutFeed piece.toList)) ∧
    replaceReturns (replacePairs text.toList) = normalizeBreaks text.toList ∧
    (∀ line ∈ lines text, ∀ c ∈ line.toList, ¬ IsBreak c) ∧
    (lines text).flatMap String.toList = text.toList.filter (fun c => ¬ IsBreak c) ∧
    ∀ more : String, lines (text ++ more) = lines text ++ lines more ↔
      text = "" ∨ more = "" ∨ (∃ c, text.toList.getLast? = some c ∧ IsBreak c) ∧
        ¬ (text.toList.getLast? = some '\r' ∧ more.toList.head? = some '\n') := by
  refine ⟨?_, ?_, replaceReturns_replacePairs _, ?_, ?_, ?_⟩
  · rw [lines, splitLines_eq_between]
  · rw [lines, splitLines_eq_withoutFeed, replaceReturns_replacePairs, feedLines,
      String.toList_ofList, List.map_map, List.map_map]
    simp [Function.comp_def]
  · intro line hline
    obtain ⟨chars, hchars, rfl⟩ := List.mem_map.1 hline
    rw [String.toList_ofList]
    exact unbroken_of_mem_splitLines hchars
  · rw [← flatten_splitLines, lines, List.flatMap_map]
    simp
  · intro more
    have hempty : ∀ s : String, s = "" ↔ s.toList = [] := by simp
    rw [lines, lines, lines, String.toList_append, ← List.map_append,
      List.map_inj_right (fun _ _ => String.ofList_inj.1), splitLines_append_iff, cutBefore_iff,
      hempty, hempty]
    exact or_left_comm

example : splitLines "1\x0c+\u00852\r\n\r\u2028*\n\r3\u2029".toList =
    ["1\x0c+\u00852".toList, [], "\u2028*".toList, [], "3\u2029".toList] := by
  decide

end Abacus.Text

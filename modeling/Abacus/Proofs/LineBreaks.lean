import Abacus.Text.Blank
import Abacus.Text.Line

/-!
# Two ways to cut a text

A text is cut into lines without their breaks, or its breaks are first turned into line feeds and
it is cut after each of these. Both ways find the same lines. To say so, each line is kept with the
answer to whether a break ended it, which all do but perhaps the last one: one way to cut forgets
the answer, the other one writes it down as a line feed.
-/

namespace Abacus.Text

/-- The lines of a text without their breaks, each with the answer to whether one ended it. -/
def markedLines : List Char → List (List Char × Bool)
  | [] => []
  | '\r' :: '\n' :: rest => ([], true) :: markedLines rest
  | '\r' :: rest => ([], true) :: markedLines rest
  | '\n' :: rest => ([], true) :: markedLines rest
  | c :: rest =>
    match markedLines rest with
    | [] => [([c], false)]
    | (line, broken) :: more => (c :: line, broken) :: more

/-- What is left of the break that ended a line, if one did. -/
def feed (broken : Bool) : List Char :=
  if broken then ['\n'] else []

@[simp]
theorem feed_true : feed true = ['\n'] :=
  rfl

@[simp]
theorem feed_false : feed false = [] :=
  rfl

theorem isBlank_of_mem_feed {broken : Bool} {c : Char} (h : c ∈ feed broken) :
    isBlank c = true := by
  cases broken with
  | false => simp at h
  | true =>
      rw [feed_true, List.mem_singleton] at h
      rw [h]
      rfl

theorem splitLines_eq (text : List Char) : splitLines text = (markedLines text).map Prod.fst := by
  fun_induction markedLines text with
  | case1 => rfl
  | case2 rest ih | case4 rest ih => rw [splitLines, List.map_cons, ih]
  | case3 rest hn ih =>
      rw [splitLines, List.map_cons, ih]
      exact hn
  | case5 c rest hrn hr hn h ih | case6 c rest hrn hr hn line broken more h ih =>
      simp [splitLines, ih, h]

theorem cutAfterFeeds_normalizeBreaks (text : List Char) :
    cutAfterFeeds (normalizeBreaks text) =
      (markedLines text).map fun p => p.1 ++ feed p.2 := by
  fun_induction markedLines text with
  | case1 => rfl
  | case2 rest ih | case4 rest ih => simp [normalizeBreaks, cutAfterFeeds, ih]
  | case3 rest hn ih =>
      rw [normalizeBreaks, cutAfterFeeds, List.map_cons, ih]
      · rfl
      · exact hn
  | case5 c rest hrn hr hn h ih | case6 c rest hrn hr hn line broken more h ih =>
      simp [normalizeBreaks, cutAfterFeeds, ih, h]

/-- What has no line feed in it is a line, if one follows. -/
theorem cutAfterFeeds_feed {line : List Char} (hline : ∀ c ∈ line, c ≠ '\n') (rest : List Char) :
    cutAfterFeeds (line ++ '\n' :: rest) = (line ++ ['\n']) :: cutAfterFeeds rest := by
  induction line with
  | nil => rfl
  | cons c line ih =>
      obtain ⟨hc, hmore⟩ := List.forall_mem_cons.1 hline
      rw [List.cons_append, cutAfterFeeds, ih hmore, List.cons_append]
      exact hc

section

variable {line : List Char}

theorem markedLines_cons_append {c : Char} (hc : c ≠ '\n' ∧ c ≠ '\r') {text : List Char}
    {broken : Bool} {more : List (List Char × Bool)}
    (h : markedLines text = (line, broken) :: more) :
    markedLines (c :: text) = (c :: line, broken) :: more := by
  rw [markedLines]
  · rw [h]
  · exact fun _ hreturn _ => hc.2 hreturn
  · exact hc.2
  · exact hc.1

/-- What has no line break before some text that begins with a line goes to that line. -/
theorem markedLines_append (hline : ∀ c ∈ line, c ≠ '\n' ∧ c ≠ '\r') {text first : List Char}
    {broken : Bool} {more : List (List Char × Bool)}
    (h : markedLines text = (first, broken) :: more) :
    markedLines (line ++ text) = (line ++ first, broken) :: more := by
  induction line with
  | nil => exact h
  | cons c line ih =>
      obtain ⟨hc, hmore⟩ := List.forall_mem_cons.1 hline
      exact markedLines_cons_append hc (ih hmore)

/-- A line feed ends the line before it, wherever that line comes from. -/
theorem markedLines_feed (hline : ∀ c ∈ line, c ≠ '\n' ∧ c ≠ '\r') (rest : List Char) :
    markedLines (line ++ '\n' :: rest) = (line, true) :: markedLines rest := by
  have hfeed : markedLines ('\n' :: rest) = ([], true) :: markedLines rest := rfl
  have h := markedLines_append hline hfeed
  rwa [List.append_nil] at h

/-- The last line may have no end. -/
theorem markedLines_unbroken (hline : ∀ c ∈ line, c ≠ '\n' ∧ c ≠ '\r') (hne : line ≠ []) :
    markedLines line = [(line, false)] := by
  obtain ⟨front, c, rfl⟩ := (List.eq_nil_or_concat line).resolve_left hne
  have hc := hline c (by simp)
  have hlast : markedLines [c] = [([c], false)] := by
    rw [markedLines]
    · rfl
    · exact fun _ hreturn _ => hc.2 hreturn
    · exact hc.2
    · exact hc.1
  have hfront : ∀ c' ∈ front, c' ≠ '\n' ∧ c' ≠ '\r' := fun c' hc' => hline c' (by simp [hc'])
  rw [List.concat_eq_append]
  exact markedLines_append hfront hlast

end

/-- The lines stand in the text as they are, the first one at the beginning. -/
theorem isInfix_of_mem_markedLines (text : List Char) :
    (∀ p ∈ (markedLines text).head?, p.1 <+: text) ∧ ∀ p ∈ markedLines text, p.1 <:+: text := by
  fun_induction markedLines text with
  | case1 => simp
  | case2 rest ih =>
      refine ⟨by simp, fun p hp => ?_⟩
      rcases List.mem_cons.1 hp with rfl | hp
      · exact List.nil_infix
      · exact List.infix_cons (List.infix_cons (ih.2 p hp))
  | case3 rest hn ih | case4 rest ih =>
      refine ⟨by simp, fun p hp => ?_⟩
      rcases List.mem_cons.1 hp with rfl | hp
      · exact List.nil_infix
      · exact List.infix_cons (ih.2 p hp)
  | case5 c rest hrn hr hn h ih =>
      have hfirst : [c] <+: c :: rest := List.cons_prefix_cons.2 ⟨rfl, List.nil_prefix⟩
      exact ⟨by simp, by simpa using hfirst.isInfix⟩
  | case6 c rest hrn hr hn line broken more h ih =>
      rw [h] at ih
      have hfirst : c :: line <+: c :: rest :=
        List.cons_prefix_cons.2 ⟨rfl, ih.1 (line, broken) (by simp)⟩
      refine ⟨by simpa using hfirst, fun p hp => ?_⟩
      rcases List.mem_cons.1 hp with rfl | hp
      · exact hfirst.isInfix
      · exact List.infix_cons (ih.2 p (List.mem_cons_of_mem _ hp))

end Abacus.Text

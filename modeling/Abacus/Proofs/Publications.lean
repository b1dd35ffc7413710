import Mathlib.Data.List.Induction
import Abacus.Editor.Server
import Abacus.Proofs.Accidents
import Abacus.Proofs.Diagnoses
import Abacus.Proofs.LineBreaks

/-!
# What a server publishes

The server keeps nothing but a store of documents. If that keeps the last text of each of them, then
after any number of notifications the text of a document is the last one that was given for it,
under whatever name and whatever was kept before, provided that no change came before the document
was opened; and what is published on a notification depends on that text only. The last text of a
notification that gives any is the last one of its document. The one kind of notification that gives
none, a change without texts, leaves the text as it was.
-/

namespace Abacus.Editor

variable {ns ms before : List Notification} {n : Notification} {uri text : String}

namespace Store

section

variable (S : Store)

/-- The last text that was given for a document. -/
def textGiven (ns : List Notification) (document : S.Document) : Option String :=
  (ns.flatMap fun n => if S.documentOf n.uri = document then n.texts else []).getLast?

/-- No document is changed before it was opened. -/
def OpenedFirst (ns : List Notification) : Prop :=
  ∀ before uri texts after, ns = before ++ .changed uri texts :: after →
    ∃ uri' text, .opened uri' text ∈ before ∧ S.documentOf uri' = S.documentOf uri

/-- What is kept after some notifications. -/
def after (s : S.State) (ns : List Notification) : S.State :=
  ns.foldl S.update s

end

variable {S : Store} {s : S.State} {document : S.Document}

/-! ## The texts given -/

theorem textGiven_concat (ns : List Notification) (n : Notification) (document : S.Document) :
    S.textGiven (ns ++ [n]) document =
      if S.documentOf n.uri = document then n.texts.getLast?.or (S.textGiven ns document)
      else S.textGiven ns document := by
  rw [textGiven, List.flatMap_append, List.flatMap_singleton, List.getLast?_append]
  split
  · rfl
  · rfl

theorem exists_of_textGiven (h : S.textGiven ns document = some text) :
    ∃ n ∈ ns, n.texts.getLast? = some text := by
  induction ns using List.reverseRecOn with
  | nil => cases h
  | append_singleton ns n ih =>
      have hbefore : S.textGiven ns document = some text →
          ∃ n' ∈ ns ++ [n], n'.texts.getLast? = some text := by
        intro hgiven
        obtain ⟨n', hn', hlast⟩ := ih hgiven
        exact ⟨n', List.mem_append_left _ hn', hlast⟩
      rw [textGiven_concat] at h
      split at h
      · cases hlast : n.texts.getLast? with
        | none =>
            rw [hlast, Option.none_or] at h
            exact hbefore h
        | some last =>
            rw [hlast, Option.some_or] at h
            exact ⟨n, by simp, hlast.trans h⟩
      · exact hbefore h

theorem isSome_textGiven_of_opened (h : .opened uri text ∈ ns)
    (hdocument : S.documentOf uri = document) : (S.textGiven ns document).isSome = true := by
  rw [textGiven, List.getLast?_isSome]
  intro hnil
  have htexts := List.flatMap_eq_nil_iff.1 hnil _ h
  have hsame : S.documentOf (Notification.opened uri text).uri = document := hdocument
  rw [if_pos hsame] at htexts
  cases htexts

theorem OpenedFirst.of_append (h : S.OpenedFirst (ns ++ ms)) : S.OpenedFirst ns := by
  intro before uri texts after hns
  exact h before uri texts (after ++ ms) (by rw [hns, List.append_assoc, List.cons_append])

theorem OpenedFirst.isSome_textGiven (h : S.OpenedFirst (ns ++ [n])) :
    (∃ text, n = .opened n.uri text) ∨
      (S.textGiven ns (S.documentOf n.uri)).isSome = true := by
  cases n with
  | opened uri text => exact .inl ⟨text, rfl⟩
  | changed uri texts =>
      obtain ⟨uri', text, hopened, hdocument⟩ := h ns uri texts [] rfl
      exact .inr (isSome_textGiven_of_opened hopened hdocument)

theorem OpenedFirst.exists_textGiven (h : S.OpenedFirst (ns ++ [n])) :
    ∃ text, S.textGiven (ns ++ [n]) (S.documentOf n.uri) = some text ∧
      ∀ last ∈ n.texts.getLast?, text = last := by
  have hgiven := textGiven_concat ns n (S.documentOf n.uri)
  rw [if_pos rfl] at hgiven
  cases hlast : n.texts.getLast? with
  | some last =>
      rw [hlast, Option.some_or] at hgiven
      exact ⟨last, hgiven, fun last' h => Option.some.inj h⟩
  | none =>
      rw [hlast, Option.none_or] at hgiven
      rcases h.isSome_textGiven with ⟨text, hn⟩ | hsome
      · rw [hn] at hlast
        cases hlast
      · obtain ⟨text, htext⟩ := Option.isSome_iff_exists.1 hsome
        exact ⟨text, hgiven.trans htext, fun last h => by cases h⟩

/-! ## The texts kept -/

/-- A notification of an open document, or one that opens it, gives the document its last text. -/
theorem Keeps.text?_update (hS : S.Keeps)
    (h : (∃ text, n = .opened n.uri text) ∨ (S.text? s n.uri).isSome = true) (other : String) :
    S.text? (S.update s n) other =
      if S.documentOf n.uri = S.documentOf other then n.texts.getLast?.or (S.text? s other)
      else S.text? s other := by
  by_cases hsame : S.documentOf n.uri = S.documentOf other
  · rw [if_pos hsame]
    cases n with
    | opened uri text => exact hS.text?_opened hsame text s
    | changed uri texts =>
        rcases h with ⟨text, h⟩ | hopen
        · cases h
        · exact hS.text?_changed hsame texts hopen
  · rw [if_neg hsame]
    exact hS.text?_of_ne hsame s

/-- The text of a document is the last one that was given for it, whatever was kept before. -/
theorem Keeps.text?_after (hS : S.Keeps) (s : S.State) (h : S.OpenedFirst ns)
    (hgiven : S.textGiven ns (S.documentOf uri) = some text) :
    S.text? (S.after s ns) uri = some text := by
  -- On the last notification. It is the only one that may have given another text.
  induction ns using List.reverseRecOn generalizing uri text with
  | nil => cases hgiven
  | append_singleton ns n ih =>
      have hopen : (∃ text, n = .opened n.uri text) ∨
          (S.text? (S.after s ns) n.uri).isSome = true := by
        refine h.isSome_textGiven.imp_right fun hsome => ?_
        obtain ⟨old, hold⟩ := Option.isSome_iff_exists.1 hsome
        exact Option.isSome_iff_exists.2 ⟨old, ih h.of_append hold⟩
      have hstep := hS.text?_update hopen uri
      rw [after, List.foldl_append]
      rw [textGiven_concat] at hgiven
      split at hgiven
      · next hsame =>
          refine hstep.trans ((if_pos hsame).trans ?_)
          cases hlast : n.texts.getLast? with
          | some last => rwa [hlast] at hgiven
          | none =>
              rw [hlast, Option.none_or] at hgiven
              rw [Option.none_or]
              exact ih h.of_append hgiven
      · next hother => exact (hstep.trans (if_neg hother)).trans (ih h.of_append hgiven)

end Store

/-! ## The answers -/

theorem noneOverlong_of_mem_lines (h : NoneOverlong text.toList) {line : String}
    (hline : line ∈ Text.lines text) : NoneOverlong line.toList := by
  rw [Text.lines, Text.splitLines_eq, List.map_map] at hline
  obtain ⟨p, hp, rfl⟩ := List.mem_map.1 hline
  rw [Function.comp_apply, String.toList_ofList]
  exact h.of_isInfix ((Text.isInfix_of_mem_markedLines _).2 p hp)

theorem exists_diagnose_of_noneOverlong [Host] (h : NoneOverlong text.toList) :
    ∃ ds, diagnose text = .ok ds :=
  diagnoseLines_of_ok (fun _ hline => (noneOverlong_of_mem_lines h hline).not_holdsOverlong) 1

namespace Store

variable {S : Store}

/-- What is published on a notification that came after the others: the diagnostics of the text that
its document has then. -/
structure Answers [Host] (S : Store) (before : List Notification) (n : Notification)
    (p : Publication) : Prop where
  uri_eq : p.uri = n.uri
  diagnostics : ∃ text, S.textGiven (before ++ [n]) (S.documentOf n.uri) = some text ∧
    (∀ last ∈ n.texts.getLast?, text = last) ∧ diagnose text = .ok p.diagnostics ∧
    Tells text p.diagnostics

theorem session_append [Host] (s : S.State) (ns ms : List Notification) :
    S.session s (ns ++ ms) = S.session s ns ++ S.session (S.after s ns) ms := by
  induction ns generalizing s with
  | nil => rfl
  | cons n ns ih =>
      rw [List.cons_append, session, session, ih, List.append_assoc]
      rfl

theorem exists_publication [Host] (hS : S.Keeps) (s : S.State) (h : S.OpenedFirst (ns ++ [n]))
    (hnone : ∀ n' ∈ ns ++ [n], ∀ text ∈ n'.texts.getLast?, NoneOverlong text.toList) :
    ∃ p, (S.handle (S.after s ns) n).2 = some p ∧ S.Answers ns n p := by
  obtain ⟨text, htext, hfinal⟩ := h.exists_textGiven
  obtain ⟨n', hn', hlast⟩ := exists_of_textGiven htext
  obtain ⟨ds, hds⟩ := exists_diagnose_of_noneOverlong (hnone n' hn' text hlast)
  have hkept : S.text? (S.update (S.after s ns) n) n.uri = some text := by
    have hafter := hS.text?_after s h htext
    rwa [after, List.foldl_append] at hafter
  refine ⟨⟨n.uri, ds⟩, ?_, rfl, text, htext, hfinal, hds, tells_of_diagnose hds⟩
  show S.publish (S.update (S.after s ns) n) n.uri = some ⟨n.uri, ds⟩
  rw [publish, hkept]
  dsimp only
  rw [hds]

theorem length_session [Host] (hS : S.Keeps) (s : S.State) (h : S.OpenedFirst ns)
    (hnone : ∀ n ∈ ns, ∀ text ∈ n.texts.getLast?, NoneOverlong text.toList) :
    (S.session s ns).length = ns.length := by
  induction ns using List.reverseRecOn with
  | nil => rfl
  | append_singleton ns n ih =>
      have hbefore := ih h.of_append fun n' hn' => hnone n' (List.mem_append_left _ hn')
      obtain ⟨p, hp, -⟩ := exists_publication hS s h hnone
      rw [session_append, List.length_append, List.length_append, hbefore, session, hp]
      rfl

/-- A session without history, on a store that keeps the last text of each document. Wherever it
starts, as long as documents are opened before they are changed, each notification is answered once,
under its own name for the document, with what there is to tell of the text that the document has
then. Documents hold no lone surrogates, for texts are sequences of Unicode scalar values here;
where a document does hold one and a line is at fault for it, nothing is published. -/
theorem session_answers [Host] (hS : S.Keeps) (s : S.State) (h : S.OpenedFirst ns)
    (hnone : ∀ n ∈ ns, ∀ text ∈ n.texts.getLast?, NoneOverlong text.toList) :
    (S.session s ns).length = ns.length ∧
    ∀ before n after, ns = before ++ n :: after →
      ∃ p, (S.session s ns)[before.length]? = some p ∧ S.Answers before n p := by
  refine ⟨length_session hS s h hnone, ?_⟩
  rintro before n after rfl
  rw [List.append_cons] at h hnone
  have hopened := h.of_append
  have hnone' : ∀ n' ∈ before ++ [n], ∀ text ∈ n'.texts.getLast?, NoneOverlong text.toList :=
    fun n' hn' => hnone n' (List.mem_append_left _ hn')
  obtain ⟨p, hp, hanswers⟩ := exists_publication hS s hopened hnone'
  have hlength := length_session hS s hopened.of_append fun n' hn' =>
    hnone' n' (List.mem_append_left _ hn')
  refine ⟨p, ?_, hanswers⟩
  rw [session_append, List.getElem?_append_right hlength.le, hlength, Nat.sub_self, session, hp]
  rfl

end Store

namespace Workspace

/-- Two documents are opened. -/
def opening : List Notification :=
  [.opened "file:///a%20b" "1 / 0", .opened "file:///c" "("]

/-- The first one is changed under another name, with two texts at once. -/
def rewriting : Notification :=
  .changed "file:///a b" ["1 +", "1\r\n\r2 @"]

theorem session_answers_rewriting :
    store.Keeps ∧ store.OpenedFirst (opening ++ [rewriting]) ∧
    (session [] (opening ++ [rewriting])).length = 3 ∧
    ∃ p, (session [] (opening ++ [rewriting]))[2]? = some p ∧
      store.Answers opening rewriting p := by
  have hopened : store.OpenedFirst (opening ++ [rewriting]) := by
    intro before uri texts after h
    rcases before with _ | ⟨n₀, _ | ⟨n₁, _ | ⟨n₂, _ | ⟨n₃, before⟩⟩⟩⟩
    · cases h
    · cases h
    · cases h
      exact ⟨"file:///a%20b", "1 / 0", by simp, by decide +kernel⟩
    · cases h
    · cases h
  have hnone : ∀ n ∈ opening ++ [rewriting],
      ∀ text ∈ n.texts.getLast?, NoneOverlong text.toList := by
    intro n hn text htext
    apply noneOverlong_of_length
    simp only [opening, List.cons_append, List.mem_cons, List.nil_append, List.not_mem_nil,
      or_false] at hn
    rcases hn with rfl | rfl | rfl <;> cases htext <;> decide
  obtain ⟨hlength, hanswers⟩ := Store.session_answers store_keeps [] hopened hnone
  exact ⟨store_keeps, hopened, hlength, hanswers opening rewriting [] rfl⟩

end Workspace

end Abacus.Editor

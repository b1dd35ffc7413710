import Abacus.Editor.Server
import Abacus.Proofs.CodeUnits
import Abacus.Proofs.Diagnoses

/-!
# Ranges of diagnostics

The range that an editor is given for a fault is meant to cover the text under the span of the
fault, which is counted in characters. Both ends of a range lie between characters, so that the
units in the range are those of the text. What is more, a cursor moves over nothing but characters
of one unit: the ends of the range are those of the span, unless the fault is the one character that
no cursor gets past, and that character takes two units.
-/

namespace Abacus

/-- What is wrong is a character beyond the basic plane. -/
def Cause.isBeyond : Cause → Bool
  | .character text => text.toList.any (0xFFFF < ·.toNat)
  | _ => false

theorem Cause.isBeyond_eq_false {cause : Cause} (h : ∀ text, cause ≠ .character text) :
    cause.isBeyond = false := by
  cases cause with
  | character text => exact absurd rfl (h text)
  | mismatch | nesting | form | zeroDivisor | numeral | result | evaluation | general => rfl

theorem Cause.length16_character (ch : Char) :
    Text.length16 [ch] =
      1 + if (Cause.character (String.singleton ch)).isBeyond then 1 else 0 := by
  have hbeyond : (Cause.character (String.singleton ch)).isBeyond = decide (0xFFFF < ch.toNat) := by
    simp [isBeyond]
  rw [hbeyond, Text.length16, Text.length16, Text.units16]
  simp only [decide_eq_true_eq]
  split <;> split <;> omega

namespace Editor

open Text (InsidePair decode16 encode16)

/-- The range of the diagnostic, in the units of the line, covers what the fault blames. -/
structure Ranged (text : String) (f : Fault) (d : Diagnostic) : Prop where
  start_le_stop : d.start.character ≤ d.stop.character
  stop_le : d.stop.character ≤ (encode16 text.toList).length
  start_between : ¬ InsidePair (encode16 text.toList) d.start.character
  stop_between : ¬ InsidePair (encode16 text.toList) d.stop.character
  covers : decode16 (((encode16 text.toList).drop d.start.character).take
    (d.stop.character - d.start.character)) = some (f.span.text text).toList
  start_eq : (d.start.character : Int) = f.span.start.column - 1
  stop_eq : (d.stop.character : Int) = f.span.stop.column - 1 + if f.cause.isBeyond then 1 else 0

variable {text uri : String} {line : Int} {s mid rest : List Char} {f : Fault} {p : Publication}
  {d : Diagnostic}

theorem utf16Column_of_append (h : text.toList = s ++ rest) (line : Int) :
    Text.utf16Column text (Position.onLine line s.length).column = Text.length16 s := by
  have hcolumn : (Position.onLine line s.length).column = s.length + 1 := rfl
  rw [Text.utf16Column, Text.beforeColumn, hcolumn, if_pos (by omega), Int.add_sub_cancel,
    Int.toNat_natCast, h, List.take_left]

theorem ranged_of_pieces (htext : text.toList = s ++ (mid ++ rest))
    (hspan : f.span = ⟨.onLine line s.length, .onLine line (s.length + mid.length)⟩)
    (hbefore : Text.length16 s = s.length)
    (hmid : Text.length16 mid = mid.length + if f.cause.isBeyond then 1 else 0) :
    Ranged text f (.ofFault text f) := by
  have htext' : text.toList = (s ++ mid) ++ rest := by rw [htext, List.append_assoc]
  have hstart : (Diagnostic.ofFault text f).start.character = Text.length16 s := by
    rw [Diagnostic.ofFault, hspan]
    exact utf16Column_of_append htext line
  have hstop : (Diagnostic.ofFault text f).stop.character = Text.length16 (s ++ mid) := by
    rw [Diagnostic.ofFault, hspan, ← List.length_append]
    exact utf16Column_of_append htext' line
  have hsum := Text.length16_append s mid
  refine ⟨by omega, ?_, ?_, ?_, ?_, ?_, ?_⟩
  · rw [hstop, Text.length_encode16, htext', Text.length16_append (s ++ mid)]
    omega
  · rw [hstart, htext]
    exact Text.not_insidePair_append s (mid ++ rest)
  · rw [hstop, htext']
    exact Text.not_insidePair_append (s ++ mid) rest
  · rw [hstart, hstop, hsum, Nat.add_sub_cancel_left, htext, Text.take_drop_encode16,
      Text.decode16_encode16, hspan, text_of_append htext rfl rfl, String.toList_ofList]
  · rw [hstart, hbefore, hspan]
    exact (Int.add_sub_cancel _ 1).symm
  · rw [hstop, hsum, hbefore, hmid, hspan]
    show ((s.length + (mid.length + _) : Nat) : Int) =
      ((s.length + mid.length : Nat) : Int) + 1 - 1 + _
    split <;> omega

theorem ranged_of_evaluate [Host] {allowTrailing : Bool}
    (h : evaluate text line allowTrailing = .error (.fault f)) :
    Ranged text f (.ofFault text f) := by
  have hmarks := marks_of_evaluate h
  cases hmarks with
  | @stray s rest ch hsource hpass hch =>
      have hpieces : text.toList = s ++ ([ch] ++ rest) := hsource
      refine ranged_of_pieces hpieces (span_character _ _) (length16_of_passable hpass) ?_
      exact Cause.length16_character ch
  | @stretch cause span hstretch hcause _ =>
      cases hstretch with
      | @intro s mid rest hsource hpass _ _ =>
          obtain ⟨hs, hmid⟩ := List.forall_mem_append.1 hpass
          refine ranged_of_pieces hsource rfl (length16_of_passable hs) ?_
          rw [length16_of_passable hmid, Cause.isBeyond_eq_false hcause]
          rfl

/-- The range of every diagnostic that is published covers the text to blame in its line. -/
theorem publish_ranged [Host] {S : Store} {s : S.State} (h : S.publish s uri = some p)
    (hd : d ∈ p.diagnostics) :
    ∃ (document : String) (i : Nat) (text : String) (f : Fault),
      S.text? s uri = some document ∧ (Text.lines document)[i]? = some text ∧
      evaluate text (i + 1) false = .error (.fault f) ∧ d = .ofFault text f ∧ Ranged text f d := by
  rw [Store.publish] at h
  cases hdocument : S.text? s uri with
  | none => rw [hdocument] at h; cases h
  | some document =>
      rw [hdocument] at h
      dsimp only at h
      cases hds : diagnose document with
      | error e => rw [hds] at h; cases h
      | ok ds =>
          rw [hds] at h
          cases h
          obtain ⟨i, text, htext, hfinds⟩ := (mem_diagnose hds).1 hd
          cases hfinds with
          | @intro f _ hf =>
              exact ⟨document, i, text, f, rfl, htext, hf, rfl, ranged_of_evaluate hf⟩

theorem publish_ranged_emoji :
    let w : Workspace := [(documentOf "file:///sum", "1 + 1\n(2 * 😀)")]
    ∃ p, Workspace.store.publish w "file:///sum" = some p ∧
      ∃ d ∈ p.diagnostics, d.start = ⟨1, 5⟩ ∧ d.stop = ⟨1, 7⟩ ∧
        ∃ (document : String) (i : Nat) (text : String) (f : Fault),
          w.text? "file:///sum" = some document ∧
          (Text.lines document)[i]? = some text ∧
          evaluate text (i + 1) false = .error (.fault f) ∧ d = .ofFault text f ∧
          Ranged text f d := by
  intro w
  have h : Workspace.store.publish w "file:///sum" =
      some ⟨"file:///sum",
        [⟨⟨1, 5⟩, ⟨1, 7⟩, "invalid character: unexpected character '😀'", .error⟩]⟩ := by
    decide +kernel
  exact ⟨_, h, _, List.mem_singleton_self _, rfl, rfl, publish_ranged h (List.mem_singleton_self _)⟩

end Editor

end Abacus

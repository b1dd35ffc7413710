import Abacus.Editor.Diagnostic
import Abacus.Proofs.Marks

/-!
# The diagnostics of the lines

The lines of a document are looked at one after the other, and each of them is either passed over or
told of once. A fault is reported on the line that was evaluated, which is what keeps the
diagnostics in the order of the lines and lets each of them be traced back to its line.
-/

namespace Abacus.Editor

variable [Host]

/-- What is told of a line that is not blank and comes to a fault. -/
inductive Finds (text : String) (number : Nat) : Diagnostic → Prop
  | intro {f : Fault} (hblank : Text.isBlankLine text = false)
      (hf : evaluate text number false = .error (.fault f)) :
      Finds text number (.ofFault text f)

/-- The diagnostics of a document tell of its faulty lines, and of each of them once. Lines count
from zero in a diagnostic. -/
structure Tells (document : String) (ds : List Diagnostic) : Prop where
  ascending : ds.Pairwise fun d d' => d.start.line < d'.start.line
  indexed : ∀ d ∈ ds, ∃ (i : Nat) (text : String), (Text.lines document)[i]? = some text ∧
    d.start.line = i ∧ Text.isBlankLine text = false
  told_iff : ∀ (i : Nat) (text : String), (Text.lines document)[i]? = some text →
    ((∃ d ∈ ds, d.start.line = i) ↔ Text.isBlankLine text = false ∧
      ∃ f, evaluate text (i + 1) false = .error (.fault f))

variable {text document : String} {texts : List String} {number : Nat} {d : Diagnostic}
  {ds : List Diagnostic} {found : Option Diagnostic}

theorem Finds.line_eq (h : Finds text number d) : d.start.line = number - 1 := by
  cases h with
  | @intro f hblank hf =>
      obtain ⟨s, mid, rest, -, hspan, -⟩ := (marks_of_evaluate hf).exists_piece
      rw [Diagnostic.ofFault, hspan]
      rfl

theorem diagnoseLine_eq_some (h : diagnoseLine text number = .ok found) :
    found = some d ↔ Finds text number d := by
  rw [diagnoseLine] at h
  constructor
  · rintro rfl
    split at h
    · cases h
    · next hblank =>
        split at h
        · cases h
        · next f hf =>
            cases h
            exact .intro (by simpa using hblank) hf
        · cases h
  · rintro ⟨hblank, hf⟩
    rw [if_neg (by simp [hblank]), hf] at h
    cases h
    rfl

theorem diagnoseLines_cons (h : diagnoseLines number (text :: texts) = .ok ds) :
    ∃ found others, diagnoseLine text number = .ok found ∧
      diagnoseLines (number + 1) texts = .ok others ∧ ds = found.toList ++ others := by
  rw [diagnoseLines] at h
  cases hfirst : diagnoseLine text number with
  | error e => rw [hfirst] at h; cases h
  | ok found =>
      cases hmore : diagnoseLines (number + 1) texts with
      | error e => rw [hfirst, hmore] at h; cases h
      | ok others =>
          rw [hfirst, hmore] at h
          cases h
          exact ⟨found, others, rfl, rfl, rfl⟩

theorem mem_diagnoseLines (h : diagnoseLines number texts = .ok ds) :
    d ∈ ds ↔ ∃ i text, texts[i]? = some text ∧ Finds text (number + i) d := by
  induction texts generalizing number ds with
  | nil => cases h; simp
  | cons text texts ih =>
      obtain ⟨found, others, hfirst, hmore, rfl⟩ := diagnoseLines_cons h
      have hnumber : ∀ i, number + 1 + i = number + (i + 1) := fun i => by omega
      rw [List.mem_append, Option.mem_toList, diagnoseLine_eq_some hfirst, ih hmore]
      constructor
      · rintro (hd | ⟨i, text', htext, hd⟩)
        · exact ⟨0, text, rfl, hd⟩
        · exact ⟨i + 1, text', htext, hnumber i ▸ hd⟩
      · rintro ⟨i, text', htext, hd⟩
        cases i with
        | zero =>
            cases htext
            exact .inl hd
        | succ i => exact .inr ⟨i, text', htext, hnumber i ▸ hd⟩

theorem ascending_diagnoseLines (h : diagnoseLines number texts = .ok ds) :
    ds.Pairwise fun d d' => d.start.line < d'.start.line := by
  induction texts generalizing number ds with
  | nil => cases h; exact .nil
  | cons text texts ih =>
      obtain ⟨found, others, hfirst, hmore, rfl⟩ := diagnoseLines_cons h
      refine List.pairwise_append.2 ⟨?_, ih hmore, ?_⟩
      · cases found <;> simp
      · intro d hd d' hd'
        rw [Option.mem_toList, diagnoseLine_eq_some hfirst] at hd
        obtain ⟨i, text', -, hd'⟩ := (mem_diagnoseLines hmore).1 hd'
        rw [hd.line_eq, hd'.line_eq]
        omega

theorem mem_diagnose (h : diagnose document = .ok ds) :
    d ∈ ds ↔ ∃ i text, (Text.lines document)[i]? = some text ∧ Finds text (i + 1) d := by
  rw [mem_diagnoseLines h]
  simp only [Nat.add_comm 1]

theorem tells_of_diagnose (h : diagnose document = .ok ds) : Tells document ds := by
  have hline : ∀ {i text d}, Finds text (i + 1) d → d.start.line = i := by
    intro i text d hd
    rw [hd.line_eq]
    omega
  refine ⟨ascending_diagnoseLines h, fun d hd => ?_, fun i text htext => ⟨?_, ?_⟩⟩
  · obtain ⟨i, text, htext, hfinds⟩ := (mem_diagnose h).1 hd
    have hi := hline hfinds
    cases hfinds with
    | intro hblank => exact ⟨i, text, htext, hi, hblank⟩
  · rintro ⟨d, hd, hi⟩
    obtain ⟨i', text', htext', hfinds⟩ := (mem_diagnose h).1 hd
    obtain rfl : i' = i := by
      have hi' := hline hfinds
      omega
    rw [htext, Option.some.injEq] at htext'
    subst htext'
    cases hfinds with
    | intro hblank hf => exact ⟨hblank, _, hf⟩
  · rintro ⟨hblank, f, hf⟩
    have hfinds : Finds text (i + 1) (.ofFault text f) := .intro hblank hf
    exact ⟨_, (mem_diagnose h).2 ⟨i, text, htext, hfinds⟩, hline hfinds⟩

end Abacus.Editor

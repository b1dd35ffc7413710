import Abacus.Text.Numeral

/-!
# Reports

What a part of a session leaves behind: the text that it wrote, and either a result or the accident
that ended the session then and there. What was written before an accident stays written.
-/

namespace Abacus

/-- What was written to the two output streams. -/
@[ext]
structure Transcript where
  out : String
  err : String
deriving DecidableEq

namespace Transcript

/-- Nothing written. -/
def empty : Transcript := ⟨"", ""⟩

/-- Text on the output stream. -/
def ofOut (text : String) : Transcript := ⟨text, ""⟩

/-- Text on the error stream. -/
def ofErr (text : String) : Transcript := ⟨"", text⟩

instance : Append Transcript := ⟨fun s t => ⟨s.out ++ t.out, s.err ++ t.err⟩⟩

@[simp]
theorem out_append (s t : Transcript) : (s ++ t).out = s.out ++ t.out := rfl

@[simp]
theorem err_append (s t : Transcript) : (s ++ t).err = s.err ++ t.err := rfl

theorem append_assoc (s t u : Transcript) : s ++ t ++ u = s ++ (t ++ u) := by
  ext1 <;> simp [String.append_assoc]

@[simp]
theorem empty_append (t : Transcript) : empty ++ t = t := by
  ext1 <;> simp [empty]

@[simp]
theorem append_empty (t : Transcript) : t ++ empty = t := by
  ext1 <;> simp [empty]

end Transcript

/-- What no part of a session is prepared for. -/
inductive Accident where
  /-- A number with too many digits to be worked out. -/
  | overlong (digits : Nat)
  /-- A configuration that is no text. -/
  | undecodable
  /-- A file name with a null character, which no file can have. -/
  | nullInName
  /-- An expression to evaluate that was left blank. -/
  | blankExpression
  /-- A prompt to show that was left blank. -/
  | blankPrompt
deriving DecidableEq

/-- What the accident is called. -/
def Accident.message : Accident → String
  | .overlong digits => Text.overlongMessage digits
  | .undecodable => "the configuration is not valid UTF-8"
  | .nullInName => "embedded null byte"
  | .blankExpression => "expected string or bytes-like object, got 'list'"
  | .blankPrompt => "string argument expected, got 'list'"

/-- What was written, and how it ended. -/
structure Report (α : Type) where
  written : Transcript
  ended : Except Accident α

namespace Report

variable {α β : Type}

/-- A result, with the text written on the way. -/
def done (written : Transcript) (result : α) : Report α := ⟨written, .ok result⟩

/-- Text written before everything that a report tells of. -/
def after (written : Transcript) (r : Report α) : Report α := ⟨written ++ r.written, r.ended⟩

/-- Goes on with what follows a result. -/
def andThen (r : Report α) (next : α → Report β) : Report β :=
  match r.ended with
  | .error e => ⟨r.written, .error e⟩
  | .ok a => (next a).after r.written

end Report

end Abacus

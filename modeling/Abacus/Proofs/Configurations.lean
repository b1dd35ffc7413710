import Abacus.Proofs.Scanners
import Abacus.Session.Command

/-!
# What comes of a configuration

A command looks into one file for its configuration. What is found there decides how the command
goes on: it is carried out with the settings of the file, or with none, or the file is refused with
a message and nothing is evaluated. The message gives a reason, and what is said there of a document
that is malformed is left to the host. Two kinds of files are not refused and end the run
unprepared. One is not UTF-8. The other has a decimal integer in it that is too long to be worked
out.

All of this is on the assumption that the stack is deep enough for the document. Scanning goes down
one level for each inline table or array inside another one, and where some hundreds of them are
more than the host has room for, a document of a kilobyte ends the run unprepared as well.

`Configured` lists these ends, each with what the file system says of the one file. That there are
no more of them rests on what scanning a document can come to.
-/

namespace Abacus

open Files (OpenError Path System)
open Options (Argument Arguments Plan configPath inputPath loadConfig resolve settingsFor)
open Session (refuseConfig runArguments runCommand runPlan)
open Text (decodeStrict?)

/-- The file in which a command looks for its configuration. -/
def configFile (a : Arguments) : Path :=
  configPath (a.config.bind Argument.text?) (.ofString ".")

/-- What a command asks for under a configuration. -/
def planUnder (config : Toml.Table) (a : Arguments) : Plan :=
  ⟨inputPath a.input, a.expressions, settingsFor config a, a.prompt = some .blank⟩

/-- What carrying out a command comes to, by what is found of its configuration. -/
inductive Configured [Host] (files : System) (stdin : StandardInput) (a : Arguments) :
    Report Nat → Prop
  /-- There is no such file. -/
  | absent {e : OpenError} (hfile : files (configFile a) = .error e) (hname : e ≠ .nameTooLong)
      (hallowed : e ≠ .forbidden) : Configured files stdin a (runPlan files stdin (planUnder [] a))
  /-- It cannot be found out whether there is one. -/
  | unreadable {e : OpenError} (hfile : files (configFile a) = .error e)
      (he : e = .nameTooLong ∨ e = .forbidden) :
      Configured files stdin a
        ⟨⟨"", s!"error: invalid config: {e.message (configFile a)}\n"⟩, .ok 2⟩
  /-- It is no TOML document, and some reason is given for that. -/
  | malformed {bytes : List UInt8} {text : String} (hfile : files (configFile a) = .ok bytes)
      (htext : decodeStrict? bytes = some text) (hparse : Toml.parse text = .error .malformed) :
      Configured files stdin a
        ⟨⟨"", s!"error: invalid config: {Host.malformedReason}\n"⟩, .ok 2⟩
  | read {bytes : List UInt8} {text : String} {config : Toml.Table}
      (hfile : files (configFile a) = .ok bytes) (htext : decodeStrict? bytes = some text)
      (hparse : Toml.parse text = .ok config) :
      Configured files stdin a (runPlan files stdin (planUnder config a))
  /-- The run breaks off. -/
  | undecodable {bytes : List UInt8} (hfile : files (configFile a) = .ok bytes)
      (htext : decodeStrict? bytes = none) : Configured files stdin a ⟨.empty, .error .undecodable⟩
  /-- The run breaks off. -/
  | overlong {bytes : List UInt8} {text : String} {n : Nat}
      (hfile : files (configFile a) = .ok bytes) (htext : decodeStrict? bytes = some text)
      (hparse : Toml.parse text = .error (.overlong n)) (hn : Text.maxDigits < n)
      (hdigits : Toml.HoldsDigits n text.toList) :
      Configured files stdin a ⟨.empty, .error (.overlong n)⟩

variable {files : System} {stdin : StandardInput} {a : Arguments} {r : Report Nat}

theorem resolve_eq (files : System) (a : Arguments) :
    resolve files a (.ofString ".") =
      (loadConfig files (configFile a)).bind fun config => .ok (planUnder config a) :=
  rfl

theorem runArguments_eq [Host] (files : System) (stdin : StandardInput) (a : Arguments) :
    runArguments files stdin a =
      match loadConfig files (configFile a) with
      | .ok config => runPlan files stdin (planUnder config a)
      | .error (.unreadable e path) => refuseConfig (e.message path)
      | .error .malformed => refuseConfig Host.malformedReason
      | .error .undecodable => ⟨.empty, .error .undecodable⟩
      | .error (.overlong n) => ⟨.empty, .error (.overlong n)⟩ := by
  rw [runArguments, resolve_eq]
  cases loadConfig files (configFile a) with
  | ok config => rfl
  | error fault => cases fault <;> rfl

/-- One of the ends is reached. -/
theorem configured_runArguments [Host] (files : System) (stdin : StandardInput) (a : Arguments) :
    Configured files stdin a (runArguments files stdin a) := by
  rw [runArguments_eq, loadConfig]
  cases hfile : files (configFile a) with
  | error e =>
      cases e with
      | nameTooLong => exact .unreadable hfile (.inl rfl)
      | forbidden => exact .unreadable hfile (.inr rfl)
      | missing | notDirectory | isDirectory | nullInName =>
          exact .absent hfile (by decide) (by decide)
  | ok bytes =>
      dsimp only
      rw [Options.configOfBytes]
      cases htext : decodeStrict? bytes with
      | none => exact .undecodable hfile htext
      | some text =>
          dsimp only
          cases hparse : Toml.parse text with
          | ok config => exact .read hfile htext hparse
          | error fault =>
              cases fault with
              | malformed => exact .malformed hfile htext hparse
              | overlong n =>
                  obtain ⟨hn, hdigits⟩ := Toml.overlong_of_parse hparse
                  exact .overlong hfile htext hparse hn hdigits

/-- It is the only one. -/
theorem Configured.runArguments_eq [Host] (h : Configured files stdin a r) :
    runArguments files stdin a = r := by
  rw [Abacus.runArguments_eq, loadConfig]
  cases h with
  | @absent e hfile hname hallowed =>
      rw [hfile]
      cases e with
      | nameTooLong => exact absurd rfl hname
      | forbidden => exact absurd rfl hallowed
      | missing | notDirectory | isDirectory | nullInName => rfl
  | unreadable hfile he =>
      rw [hfile]
      rcases he with rfl | rfl <;> rfl
  | malformed hfile htext hparse | read hfile htext hparse | overlong hfile htext hparse =>
      simp only [hfile, Options.configOfBytes, htext, hparse] <;> rfl
  | undecodable hfile htext => simp only [hfile, Options.configOfBytes, htext]

/-- A command whose words can be read ends as its configuration says, and in no other way, as long
as the stack is deep enough to scan the document. Unless the file holds bytes that are no UTF-8, or
a decimal integer with too many digits, the command is carried out, or the configuration is refused
with a reason and code 2. -/
theorem runCommand_configured [Host] (files : System) (stdin : StandardInput) (words : List String)
    (r : Report Nat) :
    (runCommand files stdin words = r ∧ ∃ a, Arguments.ofWords words = .ok a) ↔
      ∃ a, Arguments.ofWords words = .ok a ∧ Configured files stdin a r := by
  have hrun : ∀ a, Arguments.ofWords words = .ok a →
      runCommand files stdin words = runArguments files stdin a := fun a ha => by
    rw [runCommand, ha]
  constructor
  · rintro ⟨rfl, a, ha⟩
    exact ⟨a, ha, hrun a ha ▸ configured_runArguments files stdin a⟩
  · rintro ⟨a, ha, h⟩
    exact ⟨(hrun a ha).trans h.runArguments_eq, a, ha⟩

/-- One byte that is no UTF-8 is all that the configuration holds. It is not refused, and the
command is not carried out either. -/
theorem undecodable_config_breaks_off :
    let files : System := fun path =>
      if path = .ofString "intcalc.toml" then .ok [0xFF] else .error .missing
    let a : Arguments := { Arguments.none with expressions := [.text "1"] }
    Arguments.ofWords ["-e", "1"] = .ok a ∧
      (∀ plan, resolve files a (.ofString ".") ≠ .ok plan) ∧
      runCommand files ⟨[], false⟩ ["-e", "1"] = ⟨.empty, .error .undecodable⟩ ∧
      ∀ reason, runCommand files ⟨[], false⟩ ["-e", "1"] ≠ refuseConfig reason := by
  intro files a
  have hwords : Arguments.ofWords ["-e", "1"] = .ok a := by rfl
  have hfile : files (configFile a) = .ok [0xFF] := if_pos (by decide +kernel)
  have htext : decodeStrict? [0xFF] = none := by decide +kernel
  have hrun : runCommand files ⟨[], false⟩ ["-e", "1"] = ⟨.empty, .error .undecodable⟩ := by
    rw [runCommand, hwords]
    exact (Configured.undecodable hfile htext).runArguments_eq
  have hload : loadConfig files (configFile a) = .error .undecodable := by
    simp only [loadConfig, hfile, Options.configOfBytes, htext]
  refine ⟨hwords, fun plan h => ?_, hrun, fun reason h => ?_⟩
  · rw [resolve_eq, hload] at h
    cases h
  · rw [hrun] at h
    cases congrArg Report.ended h

end Abacus

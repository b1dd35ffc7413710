/-!
# Settings of a session
-/

namespace Abacus

/-- What a user can choose about reading lines. -/
structure Settings where
  /-- Shown before each line that is read from a user. -/
  prompt : String
  /-- Shown once at the start; none if empty. -/
  banner : String
  /-- What follows a complete expression is ignored instead of reported. -/
  allowTrailing : Bool
  /-- Neither banner nor prompt is shown. -/
  quiet : Bool
  /-- The tokens of each line are listed before it is evaluated. -/
  debug : Bool
deriving DecidableEq

namespace Settings

/-- The prompt unless another is chosen. -/
def defaultPrompt : String := "calc> "

/-- The banner unless another is chosen. -/
def defaultBanner : String :=
  "Please insert the formula you want to calculate. Press CTRL-c to exit"

/-- The settings where nothing is chosen. -/
def default : Settings :=
  ⟨defaultPrompt, defaultBanner, false, false, false⟩

end Settings

end Abacus

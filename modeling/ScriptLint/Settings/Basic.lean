/-!
# Settings

What a user can choose about diagnostics.
-/

namespace ScriptLint

/-- The choices, with what holds where none is made. -/
structure Settings where
  /-- Report undefined variables. -/
  undefinedVariables : Bool := true
  /-- Names that the host provides. -/
  globals : List String := []
  /-- How many columns a marker covers. -/
  markerWidth : UInt32 := 10
  /-- Who makes the markers. -/
  source : String := "KodiScript"
  /-- How long a text must rest before it is validated, in milliseconds. -/
  debounceMs : UInt64 := 500
deriving DecidableEq, Repr

namespace Settings

/-- No choice made. -/
def default : Settings :=
  {}

/-- Faults of the text only. -/
def syntaxOnly : Settings :=
  { undefinedVariables := false }

def withGlobals (globals : List String) : Settings :=
  { globals := globals }

end Settings

end ScriptLint

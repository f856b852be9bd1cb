import ScriptLint.Diagnostic.Locate
import ScriptLint.Grammar.Statement
import ScriptLint.Lint.Usage
import ScriptLint.Settings.Basic
import ScriptLint.Text.Lines

/-!
# Diagnosing a script

* `Engine`: what reads scripts, in two stages that fail with a text.
* `Engine.builtin`: the engine of this library.
* `diagnose`: all diagnostics of a script, a failure of the engine before the warnings.
-/

namespace ScriptLint

/-- Reads scripts; a failure is a text that may tell its place. -/
structure Engine where
  tokenize : String → Except String (Array Lexeme)
  parse : String → Array Lexeme → Except String Program

namespace Engine

/-- The engine of this library. -/
def builtin : Engine where
  tokenize source := (ScriptLint.tokenize source).mapError Fault.display
  parse source lexemes := (ScriptLint.parse source lexemes).mapError Fault.display

/-- Why the engine cannot read a script, if it cannot. -/
def failure? (engine : Engine) (source : String) : Option String :=
  match engine.tokenize source with
  | .error message => some message
  | .ok lexemes =>
    match engine.parse source lexemes with
    | .error message => some message
    | .ok _ => none

end Engine

/-- The undefined variables of a script. -/
def lint (settings : Settings) (source : String) : List Diagnostic :=
  let lines := Text.lines source.toList
  undefinedNames (declaredNames lines) settings.globals lines

/-- The diagnostics of a script. -/
def diagnose (engine : Engine) (settings : Settings) (source : String) : List Diagnostic :=
  ((engine.failure? source).map locate).toList ++
    if settings.undefinedVariables then lint settings source else []

end ScriptLint

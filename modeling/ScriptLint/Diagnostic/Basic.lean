import ScriptLint.Text.Blank

/-!
# Diagnostics

What is reported about a script: a place, a message and how serious it is.

* `Severity.parse?`: the severity that a word names.
* `Diagnostic.make`: a diagnostic whose line and column are at least one.
* `Diagnostic.toMarker`: the range that an editor underlines.
-/

namespace ScriptLint

inductive Severity
  | error | warning | info
deriving DecidableEq, Repr

namespace Severity

def all : List Severity :=
  [error, warning, info]

def name : Severity → String
  | error => "error"
  | warning => "warning"
  | info => "info"

/-- The severity of exactly this name. -/
def ofName? (text : String) : Option Severity :=
  all.find? fun s => s.name == text

/-- The severity that a word names, blanks around it and its case aside; `warn` is short for
`warning`. -/
def parse? (text : String) : Option Severity :=
  let word := String.ofList ((Text.trim text.toList).map Char.toLower)
  if word = "warn" then some warning else ofName? word

/-- Why a word names no severity. -/
def unknownMessage (text : String) : String :=
  "unknown severity '" ++ text ++ "' (expected error, warning or info)"

end Severity

/-- A report on a place of a script. -/
structure Diagnostic where
  line : UInt32
  column : UInt32
  message : String
  severity : Severity
deriving DecidableEq, Repr

/-- A report on a range of a script, and who made it. -/
structure Marker where
  startLine : UInt32
  startColumn : UInt32
  endLine : UInt32
  endColumn : UInt32
  message : String
  severity : Severity
  source : String
deriving DecidableEq, Repr

namespace Diagnostic

/-- A diagnostic; lines and columns start at one. -/
def make (severity : Severity) (line column : UInt32) (message : String) : Diagnostic :=
  ⟨max line 1, max column 1, message, severity⟩

def isError (d : Diagnostic) : Bool :=
  d.severity = .error

def display (d : Diagnostic) : String :=
  toString d.line.toNat ++ ":" ++ toString d.column.toNat ++ ": " ++ d.severity.name ++ ": " ++
    d.message

/-- The range of `width` columns, at least one, that begins at the diagnostic. -/
def toMarker (d : Diagnostic) (width : UInt32) (source : String) : Marker where
  startLine := d.line
  startColumn := d.column
  endLine := d.line
  endColumn := UInt32.ofNatClamp (d.column.toNat + max width.toNat 1)
  message := d.message
  severity := d.severity
  source := source

end Diagnostic

end ScriptLint

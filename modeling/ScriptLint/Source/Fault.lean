import ScriptLint.Source.LineIndex

/-!
# Faults of a source text

What is wrong with a text that cannot be read, where, and how it is said.

* `Cause.message`: the wording of each cause.
* `Fault.inText`: a fault at a stretch of a text, with the position of its start.
* `Fault.display`: the message followed by the position.
-/

namespace ScriptLint

/-- Why a text cannot be read. -/
inductive Cause
  | unterminatedString
  | invalidNumber (digits : String)
  | unexpectedCharacter (c : Char)
  | unexpectedToken (spelling : String)
  | unexpectedEnd
  | described (message : String)
deriving DecidableEq, Repr

/-- The wording of a cause. -/
def Cause.message : Cause → String
  | .unterminatedString => "Unterminated string literal"
  | .invalidNumber digits => "Invalid number '" ++ digits ++ "'"
  | .unexpectedCharacter c => "Unexpected character '" ++ String.singleton c ++ "'"
  | .unexpectedToken spelling => "Unexpected token '" ++ spelling ++ "'"
  | .unexpectedEnd => "Unexpected end of input"
  | .described message => message

/-- A stretch of a text and the position it starts at. -/
structure Place where
  span : Span
  position : Position
deriving DecidableEq, Repr

/-- A cause, with its place where that is known. -/
structure Fault where
  cause : Cause
  place : Option Place
deriving DecidableEq, Repr

namespace Fault

/-- A fault at a stretch of the text. -/
def inText (text : List Char) (span : Span) (cause : Cause) : Fault :=
  ⟨cause, some ⟨span, Source.positionAt text span.start⟩⟩

/-- A fault without a place. -/
def unplaced (cause : Cause) : Fault :=
  ⟨cause, none⟩

def message (f : Fault) : String :=
  f.cause.message

/-- A position as it is written behind a message. -/
def suffix (p : Position) : String :=
  " at line " ++ toString p.line.toNat ++ ", column " ++ toString p.column.toNat

/-- The message and, where it is known, the position. -/
def display (f : Fault) : String :=
  match f.place with
  | some place => f.message ++ suffix place.position
  | none => f.message

end Fault

end ScriptLint

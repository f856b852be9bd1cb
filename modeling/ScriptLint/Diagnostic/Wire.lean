import ScriptLint.Json.Record

/-!
# Diagnostics and markers as JSON

* `Diagnostic.toJson`, `Marker.toJson`: the objects that editors read.
* `Diagnostic.decode`, `Marker.decode`: the values of such texts. Nothing is corrected on the way:
  a line zero stays zero.
-/

namespace ScriptLint

namespace Diagnostic

def shape : Shape :=
  ⟨"struct Diagnostic", [("line", .number), ("column", .number), ("message", .text),
    ("severity", .severity)]⟩

def data (d : Diagnostic) : List Datum :=
  [.number d.line, .number d.column, .text d.message, .severity d.severity]

def ofData? : List Datum → Option Diagnostic
  | [.number line, .number column, .text message, .severity severity] =>
    some ⟨line, column, message, severity⟩
  | _ => none

def toJson (d : Diagnostic) : JsonValue :=
  shape.write d.data

def reader : JsonReader Diagnostic := do
  match ofData? (← shape.read) with
  | some d => return d
  | none => JsonReader.malformed

/-- The diagnostic that a JSON text holds. -/
def decode (text : String) : Except Refusal Diagnostic :=
  reader.run text

end Diagnostic

namespace Marker

def shape : Shape :=
  ⟨"struct Marker", [("startLine", .number), ("startColumn", .number), ("endLine", .number),
    ("endColumn", .number), ("message", .text), ("severity", .severity), ("source", .text)]⟩

def data (m : Marker) : List Datum :=
  [.number m.startLine, .number m.startColumn, .number m.endLine, .number m.endColumn,
    .text m.message, .severity m.severity, .text m.source]

def ofData? : List Datum → Option Marker
  | [.number startLine, .number startColumn, .number endLine, .number endColumn, .text message,
      .severity severity, .text source] =>
    some ⟨startLine, startColumn, endLine, endColumn, message, severity, source⟩
  | _ => none

def toJson (m : Marker) : JsonValue :=
  shape.write m.data

def reader : JsonReader Marker := do
  match ofData? (← shape.read) with
  | some m => return m
  | none => JsonReader.malformed

/-- The marker that a JSON text holds. -/
def decode (text : String) : Except Refusal Marker :=
  reader.run text

end Marker

end ScriptLint

import ScriptLint.Diagnostic.Basic
import ScriptLint.Json.Reader

/-!
# Records as JSON

A record with a fixed list of fields is written as an object with the fields in their order. It is
read from an object with the fields in any order, other members being skipped, or from a list of
the fields in their order.

* `Shape`: the name of a record and its fields.
* `Shape.write`, `Shape.read`: the data of a record as JSON and back.
-/

namespace ScriptLint

/-- What a field holds. -/
inductive Datum
  | number (n : UInt32)
  | text (s : String)
  | severity (s : Severity)
deriving DecidableEq, Repr

inductive Datum.Kind
  | number | text | severity
deriving DecidableEq, Repr

namespace Datum

def kind : Datum → Kind
  | number _ => .number
  | text _ => .text
  | severity _ => .severity

def toJson : Datum → JsonValue
  | number n => .int n.toNat
  | text s => .str s
  | severity s => .str s.name

/-- A datum of the given kind. -/
def read : Kind → JsonReader Datum
  | .number => return .number (← JsonReader.uint32)
  | .text => return .text (← JsonReader.text "a string")
  | .severity => do
    let names := Severity.all.map Severity.name
    let name ← JsonReader.variant names
    match Severity.ofName? name with
    | some s => return .severity s
    | none => throw (.unknownVariant name names)

end Datum

/-- A record's name and the names and kinds of its fields. -/
structure Shape where
  name : String
  fields : List (String × Datum.Kind)

namespace Shape

/-- The record's data as an object. -/
def write (shape : Shape) (data : List Datum) : JsonValue :=
  .obj (List.zipWith (fun field datum => (field.1, datum.toJson)) shape.fields data)

/-- The data of the fields, as they were found by name. -/
def collect (seen : List (String × Datum)) :
    List (String × Datum.Kind) → Except Refusal (List Datum)
  | [] => .ok []
  | (name, _) :: fields =>
    match seen.lookup name with
    | none => .error (.missingField name)
    | some datum => do return datum :: (← collect seen fields)

/-- A member of the object form, in front of its colon. -/
def readMember (shape : Shape) (seen : List (String × Datum)) (key : String) :
    JsonReader (List (String × Datum)) :=
  match shape.fields.lookup key with
  | none => do
    JsonReader.expect ':'
    JsonReader.skip
    return seen
  | some kind => do
    if (seen.lookup key).isSome then throw (.duplicateField key)
    JsonReader.expect ':'
    return (key, ← Datum.read kind) :: seen

/-- The list form from its field number `i` on. -/
def readItems (shape : Shape) (i : Nat) : List (String × Datum.Kind) → JsonReader (List Datum)
  | [] => do
    JsonReader.expect ']'
    return []
  | (_, kind) :: fields => do
    if ← JsonReader.nextItem (i = 0) then
      let datum ← Datum.read kind
      return datum :: (← readItems shape (i + 1) fields)
    else
      throw (.invalidLength i (shape.name ++ " with " ++
        counted shape.fields.length "element" "elements"))

/-- The record's data. -/
def read (shape : Shape) : JsonReader (List Datum) := do
  match ← JsonReader.peek with
  | some '\x7b' => do
    JsonReader.advance
    let seen ← JsonReader.foldMembers JsonReader.string shape.readMember []
    match collect seen shape.fields with
    | .ok data => return data
    | .error refusal => throw refusal
  | some '[' => do
    JsonReader.advance
    shape.readItems 0 shape.fields
  | _ => JsonReader.unexpected shape.name

end Shape

end ScriptLint

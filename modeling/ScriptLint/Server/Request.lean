import ScriptLint.Json.Reader
import ScriptLint.Text.Blank

/-!
# Requests of an editor

An editor sends one request a line. A request is an object with a `method` and the fields of that
method, or a list of the method's name and its fields.

* `Request.decode`: the request of a line.
-/

namespace ScriptLint

/-- What an editor asks for: new content of a buffer, or nothing published about it. -/
inductive Request
  | validate (buffer text : String)
  | clear (buffer : String)
deriving DecidableEq, Repr

/-- The buffer that a request is about. -/
def Request.buffer : Request → String
  | validate buffer _ => buffer
  | clear buffer => buffer

inductive Method
  | validate | clear
deriving DecidableEq, Repr

namespace Method

def all : List Method :=
  [validate, clear]

def name : Method → String
  | validate => "validate"
  | clear => "clear"

/-- How the method is called in refusals. -/
def title : Method → String
  | validate => "struct variant Request::Validate"
  | clear => "struct variant Request::Clear"

/-- The names of its fields. -/
def fields : Method → List String
  | validate => ["buffer", "text"]
  | clear => ["buffer"]

/-- The request with these fields. -/
def request? : Method → List String → Option Request
  | validate, [buffer, text] => some (.validate buffer text)
  | clear, [buffer] => some (.clear buffer)
  | _, _ => none

/-- A method, by its name. -/
def read : JsonReader Method := do
  let n ← JsonReader.text "variant identifier"
  match all.find? fun m => m.name == n with
  | some m => return m
  | none => throw (.unknownVariant n (all.map name))

end Method

namespace Request

/-- A string, as a field has to be. -/
def fieldText : JsonValue → Except Refusal String
  | .str s => .ok s
  | v => .error (.invalidType (JsonReader.describe v) "a string")

/-- The members that are fields, each once; other members do not matter. -/
def collect (fields : List String) :
    List (String × JsonValue) → List (String × String) → Except Refusal (List (String × String))
  | [], found => .ok found
  | (key, v) :: members, found =>
    if fields.contains key then
      if (found.lookup key).isSome then .error (.duplicateField key)
      else do
        let s ← fieldText v
        collect fields members ((key, s) :: found)
    else collect fields members found

/-- The fields in their order, from the members of an object. -/
def named (fields : List String) (members : List (String × JsonValue)) :
    Except Refusal (List String) := do
  let found ← collect fields members []
  fields.mapM fun f =>
    match found.lookup f with
    | some s => .ok s
    | none => .error (.missingField f)

/-- The fields in their order, from a list with exactly them. -/
def positional (m : Method) (values : List JsonValue) : Except Refusal (List String) :=
  go 0 m.fields values
where
  count : String :=
    counted m.fields.length "element" "elements"
  go (i : Nat) : List String → List JsonValue → Except Refusal (List String)
    | [], [] => .ok []
    | [], _ :: _ => .error (.invalidLength values.length (count ++ " in sequence"))
    | _ :: _, [] => .error (.invalidLength i (m.title ++ " with " ++ count))
    | _ :: fields, v :: rest => do
      let s ← fieldText v
      return s :: (← go (i + 1) fields rest)

/-- A request from the fields of its method. -/
def build (m : Method) (fields : Except Refusal (List String)) : JsonReader Request := do
  match m.request? (← fields) with
  | some r => return r
  | none => JsonReader.malformed

/-- A value inside of a request. -/
def innerValue : JsonReader JsonValue :=
  JsonReader.valueUpTo (JsonReader.depthLimit - 1)

/-- The method and the other members, the last one first. -/
abbrev Members := Option Method × List (String × JsonValue)

/-- A member of a request: the method is looked at as soon as it is there. -/
def member (ms : Members) (key : String) : JsonReader Members := do
  if key = "method" then
    if ms.1.isSome then throw (.duplicateField key)
    JsonReader.expect ':'
    return (some (← Method.read), ms.2)
  else
    JsonReader.expect ':'
    return (ms.1, (key, ← innerValue) :: ms.2)

def ofObject : JsonReader Request := do
  JsonReader.advance
  match ← JsonReader.foldMembers JsonReader.string member (none, []) with
  | (some m, members) => build m (named m.fields members.reverse)
  | (none, _) => throw (.missingField "method")

def ofList : JsonReader Request := do
  JsonReader.advance
  if ← JsonReader.nextItem true then
    let m ← Method.read
    let values ← JsonReader.itemsUpTo innerValue ((← get).length + 1) false
    build m (positional m values)
  else throw (.missingField "method")

def reader : JsonReader Request := do
  match ← JsonReader.peek with
  | some '\x7b' => ofObject
  | some '[' => ofList
  | _ => JsonReader.unexpected "internally tagged enum Request"

/-- The request of a line, or why it is none. -/
def decode (line : String) : Except Refusal Request :=
  reader.run line

end Request

end ScriptLint

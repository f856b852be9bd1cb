/-!
# Arguments of the command

What the command is asked to do. Arguments are taken from left to right; values are looked at only
when it is clear that no more of them follow.

* `Arguments.parse`: the meaning of a list of arguments.
* `UsageError`: why a list has none; asking for help is among the reasons.
-/

namespace ScriptLint

/-- Why arguments do not say what to check. -/
inductive UsageError
  | help
  | version
  | unknownArgument
  | tooManyValues
  | invalidValue
  | conflict
  | missingArgument
deriving DecidableEq, Repr

/-- What is to be done. -/
structure Arguments where
  json : Bool := false
  config : Option String := none
  stdio : Bool := false
  files : List String := []
deriving DecidableEq, Repr

namespace Arguments

/-- Values that have been seen but not looked at. -/
inductive Pending
  | nothing
  | config (value : Option String)
  | files (values : List String)
deriving DecidableEq, Repr

structure State where
  parsed : Arguments := {}
  pending : Pending := .nothing
deriving DecidableEq, Repr

/-- Names a configuration file, which can be done once. -/
def setConfig (value : String) (a : Arguments) : Except UsageError Arguments :=
  if a.config.isSome then .error .conflict
  else if value = "" then .error .invalidValue
  else .ok { a with config := some value }

/-- Looks at the values that have been seen. -/
def settle (s : State) : Except UsageError Arguments :=
  match s.pending with
  | .nothing => .ok s.parsed
  | .config none => .error .invalidValue
  | .config (some value) => setConfig value s.parsed
  | .files values =>
    if values.contains "" then .error .invalidValue
    else .ok { s.parsed with files := s.parsed.files ++ values }

/-- An option that takes no value. -/
def flag (value : Option String) (s : State) (set : Arguments → Except UsageError Arguments) :
    Except UsageError State := do
  if value.isSome then throw .tooManyValues
  return { parsed := ← set (← settle s) }

def setJson (a : Arguments) : Except UsageError Arguments :=
  if a.json then .error .conflict else .ok { a with json := true }

def setStdio (a : Arguments) : Except UsageError Arguments :=
  if a.stdio then .error .conflict else .ok { a with stdio := true }

/-- An option with a long name. -/
def long (name : String) (value : Option String) (s : State) : Except UsageError State :=
  match name with
  | "json" => flag value s setJson
  | "stdio" => flag value s setStdio
  | "help" => flag value s fun _ => .error .help
  | "version" => flag value s fun _ => .error .version
  | "config" => do
    let a ← settle s
    match value with
    | some v => return { parsed := ← setConfig v a }
    | none => return ⟨a, .config none⟩
  | _ => .error .unknownArgument

/-- An option with a short name; either one ends the matter. -/
def short (name : Char) (s : State) : Except UsageError State :=
  match name with
  | 'h' => flag none s fun _ => .error .help
  | 'V' => flag none s fun _ => .error .version
  | _ => .error .unknownArgument

/-- A file to check. -/
def file (value : String) (s : State) : Except UsageError State :=
  match s.pending with
  | .files values => .ok { s with pending := .files (values ++ [value]) }
  | _ => do return ⟨← settle s, .files [value]⟩

/-- An argument that is no option. -/
def plain (value : String) (s : State) : Except UsageError State :=
  match s.pending with
  | .config none => .ok { s with pending := .config (some value) }
  | _ => file value s

/-- Cuts a long option in front of its value. -/
def cut (cs : List Char) : String × Option String :=
  match cs.dropWhile (· ≠ '=') with
  | [] => (String.ofList cs, none)
  | _ :: value => (String.ofList (cs.takeWhile (· ≠ '=')), some (String.ofList value))

/-- Takes arguments one after the other; behind `--` there are only files. -/
def take : List String → State → Except UsageError State
  | [], s => .ok s
  | arg :: args, s =>
    match arg.toList with
    | ['-', '-'] => args.foldlM (fun s value => file value s) s
    | '-' :: '-' :: cs => do
      let (name, value) := cut cs
      take args (← long name value s)
    | '-' :: c :: _ => do take args (← short c s)
    | _ => do take args (← plain arg s)

/-- What arguments ask for: files to check, or to serve an editor, but not both. -/
def parse (args : List String) : Except UsageError Arguments := do
  let a ← settle (← take args {})
  if a.stdio && !a.files.isEmpty then throw .conflict
  if !a.stdio && a.files.isEmpty then throw .missingArgument
  return a

end Arguments

end ScriptLint

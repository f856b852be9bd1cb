import ScriptLint.Fixture.Basic

/-!
# Summaries of fixtures

* `Summary.record`: counts one more verdict.
* `Summary.display`: the summary for a reader.
-/

namespace ScriptLint

/-- A fixture that did not fare well. -/
structure Mishap where
  name : String
  line : Nat
  verdict : Verdict
deriving DecidableEq, Repr

/-- How many fixtures fared how, and those that did not fare well. -/
structure Summary where
  passed : Nat := 0
  failed : Nat := 0
  skipped : Nat := 0
  errors : Nat := 0
  mishaps : List Mishap := []
deriving DecidableEq, Repr

namespace Summary

/-- Counts the verdict on a fixture. -/
def record (s : Summary) (name : String) (line : Nat) (v : Verdict) : Summary :=
  match v with
  | .pass => { s with passed := s.passed + 1 }
  | .skip _ => { s with skipped := s.skipped + 1 }
  | .fail _ _ => { s with failed := s.failed + 1, mishaps := s.mishaps ++ [⟨name, line, v⟩] }
  | .broken _ => { s with errors := s.errors + 1, mishaps := s.mishaps ++ [⟨name, line, v⟩] }

/-- The summary of fixtures that are run in order. -/
def ofFixtures (fs : List Fixture) : Summary :=
  fs.foldl (fun s f => s.record f.name f.line f.run) {}

def total (s : Summary) : Nat :=
  s.passed + s.failed + s.skipped + s.errors

def allPassed (s : Summary) : Bool :=
  s.failed = 0 && s.errors = 0

/-- The rows of a text, set in. -/
def indented (text : String) : List String :=
  (Text.rows text.toList).map fun r => "      " ++ String.ofList r

/-- What is said about a fixture that did not fare well. -/
def explain : Verdict → List String
  | .fail expected actual =>
    ["    expected:"] ++ indented expected ++ ["    actual:"] ++ indented actual
  | .broken message => ["    error: " ++ message]
  | _ => []

def ruler : String :=
  String.ofList (List.replicate 60 '═')

/-- The counts in a row. -/
def counts (s : Summary) : String :=
  "Diagnostics fixtures: " ++ toString s.total ++ " total, " ++ toString s.passed ++ " passed, " ++
    toString s.failed ++ " failed, " ++ toString s.skipped ++ " skipped, " ++
    toString s.errors ++ " errors"

/-- The summary for a reader. -/
def display (s : Summary) : String :=
  let mishap (m : Mishap) : List String :=
    ["", "  " ++ m.name ++ " (line " ++ toString m.line ++ ")"] ++ explain m.verdict
  let rows := ["", ruler, s.counts] ++ s.mishaps.flatMap mishap ++ [ruler]
  String.join (rows.map (· ++ "\n"))

end Summary

end ScriptLint

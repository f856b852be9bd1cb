import ScriptLint.Diagnose
import ScriptLint.Text.Rows

/-!
# Fixtures

A file of fixtures holds scripts and the diagnostics that are expected of them. A fixture is a
heading with its name, some settings, a row `---`, the script, a row `---`, the expected
diagnostics and a row `===`.

* `Fixture.parse`: the fixtures of a file.
* `Fixture.run`: how a fixture fares.
-/

namespace ScriptLint

/-- A script and what is expected of it. -/
structure Fixture where
  name : String
  /-- The row of its heading; the first row has the number 1. -/
  line : Nat
  input : String := ""
  expected : List String := []
  globals : List String := []
  syntaxOnly : Bool := false
  /-- Why it is not to be run. -/
  skip : Option String := none
deriving DecidableEq, Repr

/-- How a fixture fared. -/
inductive Verdict
  | pass
  | fail (expected actual : String)
  | skip (reason : String)
  | broken (message : String)
deriving DecidableEq, Repr

namespace Verdict

def isPass (v : Verdict) : Bool :=
  v = .pass

def isFail : Verdict → Bool
  | fail _ _ => true
  | _ => false

end Verdict

namespace Fixture

/-- A row and its number. -/
abbrev Row := Nat × List Char

/-- Is the row this mark, blanks aside? -/
def isMark (mark : List Char) (row : Row) : Bool :=
  Text.trim row.2 = mark

def rule : List Char :=
  ['-', '-', '-']

def closing : List Char :=
  ['=', '=', '=']

/-- The rows in front of a mark and those behind it. -/
def cut (mark : List Char) (rows : List Row) : List Row × List Row :=
  (rows.takeWhile fun r => !isMark mark r, (rows.dropWhile fun r => !isMark mark r).drop 1)

/-- The rest of a row that begins with this heading, blanks aside. -/
def heading? (heading : String) (row : Row) : Option (List Char) :=
  (Text.after? heading.toList (Text.trim row.2)).map Text.trim

/-- The names in a list with commas. -/
def names (cs : List Char) : List String :=
  (((Text.pieces ',' cs).map Text.trim).filter (· ≠ [])).map String.ofList

/-- A fixture with the setting of one more row; other rows say nothing. -/
def set (f : Fixture) (row : Row) : Fixture :=
  match heading? "# globals:" row with
  | some rest => { f with globals := f.globals ++ names rest }
  | none =>
    if isMark "# syntax-only".toList row then { f with syntaxOnly := true }
    else
      match heading? "# skip:" row with
      | some reason => { f with skip := some (String.ofList reason) }
      | none => f

/-- The rows that are not blank, trimmed. -/
def expectations (rows : List Row) : List String :=
  ((rows.map fun r => Text.trim r.2).filter (· ≠ [])).map String.ofList

/-- The fixture whose heading comes just before these rows, and the rows that follow it. -/
def read (name : List Char) (line : Nat) (rows : List Row) : Fixture × List Row :=
  let (settings, rows) := cut rule rows
  let (input, rows) := cut rule rows
  let (expected, rows) := cut closing rows
  let f := settings.foldl set { name := String.ofList name, line := line }
  ({ f with
    input := String.ofList (Text.joinLines (input.map Prod.snd))
    expected := expectations expected }, rows)

theorem length_cut_le (mark : List Char) (rows : List Row) :
    (cut mark rows).2.length ≤ rows.length := by
  have h := (List.dropWhile_suffix (fun r => !isMark mark r) (l := rows)).length_le
  simp only [cut, List.length_drop]
  omega

theorem length_read_le (name : List Char) (line : Nat) (rows : List Row) :
    (read name line rows).2.length ≤ rows.length :=
  Nat.le_trans (length_cut_le _ _) (Nat.le_trans (length_cut_le _ _) (length_cut_le _ _))

/-- The fixtures in some rows. -/
def parseRows (rows : List Row) : List Fixture :=
  match rows with
  | [] => []
  | row :: rest =>
    match heading? "# test:" row with
    | none => parseRows rest
    | some name => (read name row.1 rest).1 :: parseRows (read name row.1 rest).2
termination_by rows.length
decreasing_by
  · simp
  · have := length_read_le name row.1 rest
    simp only [List.length_cons]
    omega

/-- Rows with their numbers. -/
def number (n : Nat) : List (List Char) → List Row
  | [] => []
  | r :: rs => (n, r) :: number (n + 1) rs

/-- The fixtures of a file. -/
def parse (content : String) : List Fixture :=
  parseRows (number 1 (Text.rows content.toList))

/-- The settings that a fixture asks for. -/
def settings (f : Fixture) : Settings :=
  { undefinedVariables := !f.syntaxOnly, globals := f.globals }

/-- A diagnostic as fixtures write it. -/
def format (d : Diagnostic) : String :=
  toString d.line.toNat ++ ":" ++ toString d.column.toNat ++ " " ++ d.severity.name ++ " " ++
    d.message

/-- The diagnostics of the script. -/
def actual (f : Fixture) : List String :=
  (diagnose Engine.builtin f.settings f.input).map format

/-- Rows for a reader. -/
def shown (rows : List String) : String :=
  if rows = [] then "(none)" else "\n".intercalate rows

/-- How a fixture fares. -/
def run (f : Fixture) : Verdict :=
  match f.skip with
  | some reason => .skip reason
  | none =>
    if f.name = "" then .broken "test has no name"
    else if f.actual = f.expected then .pass
    else .fail (shown f.expected) (shown f.actual)

end Fixture

end ScriptLint

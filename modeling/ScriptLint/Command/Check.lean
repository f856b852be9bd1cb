import ScriptLint.Command.Failure
import ScriptLint.Report.Draw

/-!
# Checking files

* `Check.file`: checks a file and says what is to be printed.
* `Check.files`: checks files until one cannot be read.
-/

namespace ScriptLint

/-- How many files were checked, and what was found in them. -/
structure Tally where
  files : Nat := 0
  errors : Nat := 0
  warnings : Nat := 0
deriving DecidableEq, Repr

namespace Tally

def hasErrors (t : Tally) : Bool :=
  0 < t.errors

/-- Counts a file with its diagnostics; all that are no errors count as warnings. -/
def record (t : Tally) (ds : List Diagnostic) : Tally where
  files := t.files + 1
  errors := t.errors + ds.countP Diagnostic.isError
  warnings := t.warnings + ds.countP fun d => !d.isError

end Tally

/-- A check of files that is under way. -/
structure Check where
  service : Service
  json : Bool := false
  tally : Tally := {}

namespace Check

/-- The line about a file for other programs. -/
def jsonLine (path : String) (ds : List Diagnostic) : String :=
  (JsonValue.obj [("file", .str path), ("diagnostics", .arr (ds.map (·.toJson)))]).compact ++ "\n"

/-- What is printed about a file. -/
def report (c : Check) (path text : String) (ds : List Diagnostic) : String :=
  if c.json then jsonLine path ds
  else Report.render path text ds c.service.settings.markerWidth

/-- Checks a file, given what reading it came to. -/
def file (path : String) (content : Except ReadError String) (c : Check) :
    Except Failure (Check × String) :=
  match content with
  | .error e => .error (.script path e)
  | .ok text =>
    let (answer, service) := c.service.perform (.produce text)
    let ds := match answer with
      | .diagnostics ds => ds
      | _ => []
    .ok ({ c with service := service, tally := c.tally.record ds }, c.report path text ds)

/-- Checks files until one cannot be read. What was printed up to there counts. -/
def files (read : String → Except ReadError String) : List String → Check →
    Except Failure Tally × String
  | [], c => (.ok c.tally, "")
  | path :: paths, c =>
    match c.file path (read path) with
    | .error f => (.error f, "")
    | .ok (c, text) =>
      let (outcome, rest) := files read paths c
      (outcome, text ++ rest)

end Check

end ScriptLint

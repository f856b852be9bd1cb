import ScriptLint.Command.Arguments
import ScriptLint.Command.Check

/-!
# Running the command

* `Environment.settingsPath`: the usual file of settings.
* `Run.ofArguments`: what the command prints and how it exits.
-/

namespace ScriptLint

/-- The directories that the environment names. -/
structure Environment where
  home : Option String := none
  configHome : Option String := none
deriving DecidableEq, Repr

namespace Environment

/-- A name in a directory. -/
def join (directory name : String) : String :=
  if directory.endsWith "/" then directory ++ name else directory ++ "/" ++ name

/-- The directory for settings of programs; it has to be named from the root. -/
def configDirectory (e : Environment) : String :=
  let usual := join (e.home.getD "/tmp") ".config"
  match e.configHome with
  | some directory => if directory.startsWith "/" then directory else usual
  | none => usual

/-- The usual file of settings. -/
def settingsPath (e : Environment) : String :=
  join (join e.configDirectory "kodi") "diagnostics.toml"

end Environment

namespace Arguments

/-- The file of settings that is to be used. -/
def settingsPath (a : Arguments) (e : Environment) : String :=
  a.config.getD e.settingsPath

/-- The settings, given what reading their file came to. -/
def settings (a : Arguments) (e : Environment) (content : Except ReadError String) :
    Except Failure Settings :=
  (Settings.load (a.settingsPath e) content).mapError (.settings a.config)

end Arguments

namespace UsageError

def helpLines : List String :=
  ["Command-line checker and stdio diagnostics server for KodiScript",
    "",
    "Usage: kodi-check [OPTIONS] [FILE]...",
    "",
    "Arguments:",
    "  [FILE]...  Files to check",
    "",
    "Options:",
    "      --json           Print one JSON object per file instead of annotated reports",
    "      --config <PATH>  Configuration file (defaults to the user config directory)",
    "      --stdio          Serve JSON-lines requests on stdin/stdout",
    "  -h, --help           Print help",
    "  -V, --version        Print version"]

def helpText : String :=
  String.join (helpLines.map (· ++ "\n"))

def versionText : String :=
  "kodi-check 0.3.0\n"

/-- What is printed for the user who asked. -/
def output : UsageError → String
  | help => helpText
  | version => versionText
  | _ => ""

def exitCode : UsageError → Nat
  | help => 0
  | version => 0
  | _ => 2

end UsageError

/-- What the command printed, how it exited, and why it gave up if it did. -/
structure Run where
  exitCode : Nat
  output : String := ""
  failure : Option Failure := none
deriving DecidableEq, Repr

namespace Run

/-- The exit code of a check: 1 if a file has errors. -/
def exitCodeOf (t : Tally) : Nat :=
  if t.hasErrors then 1 else 0

/-- Gives up. -/
def fail (f : Failure) (output : String) : Run :=
  ⟨2, output, some f⟩

def ofCheck : Except Failure Tally × String → Run
  | (.ok t, output) => ⟨exitCodeOf t, output, none⟩
  | (.error f, output) => fail f output

/-- Serves an editor whose whole input is there at once. -/
def ofInput (settings : Settings) (input : List UInt8) : Run :=
  let s : Session := { server := Server.new (Service.builtin settings) }
  let (s, first) := s.feed input
  let (s, others) := s.close
  let output := String.join ((first ++ others).map fun r => r.line ++ "\n")
  match s.result with
  | .ok _ => ⟨0, output, none⟩
  | .error e => fail (.session e) output

/-- Runs the command. -/
def ofArguments (args : List String) (e : Environment) (read : String → Except ReadError String)
    (input : List UInt8) : Run :=
  match Arguments.parse args with
  | .error u => ⟨u.exitCode, u.output, none⟩
  | .ok a =>
    match a.settings e (read (a.settingsPath e)) with
    | .error f => fail f ""
    | .ok settings =>
      if a.stdio then ofInput settings input
      else
        ofCheck (Check.files read a.files { service := Service.builtin settings, json := a.json })

end Run

end ScriptLint

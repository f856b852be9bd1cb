import ScriptLint.Files.ReadError
import ScriptLint.Server.Session
import ScriptLint.Settings.Decode

/-!
# Failures of the command

* `Settings.load`: the settings in a file.
* `Failure`: why the command gives up, and its wording.
-/

namespace ScriptLint

/-- Why a file has no settings. -/
inductive SettingsError
  | unreadable (path : String) (error : ReadError)
  | invalid (path : String)
deriving DecidableEq, Repr

/-- What is wrong, from the outside to the inside. -/
def SettingsError.causes : SettingsError → List String
  | unreadable path e => ["failed to read " ++ path ++ ": " ++ e.message, e.message]
  | invalid path => ["invalid config in " ++ path ++ ": TOML parse error"]

/-- The settings in a file, given what reading it came to. Where there is no file, no choice is
made. -/
def Settings.load (path : String) (content : Except ReadError String) :
    Except SettingsError Settings :=
  match content with
  | .ok text => (Settings.decode text).mapError fun _ => .invalid path
  | .error e => if e.isMissing then .ok Settings.default else .error (.unreadable path e)

/-- Why the command gives up. -/
inductive Failure
  /-- The settings cannot be had, from a file that was named or from the usual one. -/
  | settings (named : Option String) (error : SettingsError)
  | script (path : String) (error : ReadError)
  | session (error : SessionError)
deriving DecidableEq, Repr

namespace Failure

def causes : Failure → List String
  | settings (some path) e => ("failed to load config " ++ path) :: e.causes
  | settings none e => "failed to load default config" :: e.causes
  | script path e => ["failed to read " ++ path, e.message]
  | session .unreadable => [SessionError.unreadable.message, ReadError.notText.message]
  | session .unwritable => [SessionError.unwritable.message]

def message (f : Failure) : String :=
  ": ".intercalate f.causes

end Failure

end ScriptLint

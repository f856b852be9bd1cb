import ScriptLint.Text.Utf8

/-!
# Files that cannot be read

* `ReadError`: why the text of a file cannot be had.
-/

namespace ScriptLint

/-- Why the text of a file cannot be had: the system refuses, or the file holds no text. -/
inductive ReadError
  | system (reason : String) (code : Nat)
  | notText
deriving DecidableEq, Repr

namespace ReadError

def missing : ReadError :=
  system "No such file or directory" 2

def notDirectory : ReadError :=
  system "Not a directory" 20

def isDirectory : ReadError :=
  system "Is a directory" 21

def message : ReadError → String
  | system reason code => reason ++ " (os error " ++ toString code ++ ")"
  | notText => "stream did not contain valid UTF-8"

/-- Is there no such file at all? -/
def isMissing : ReadError → Bool
  | system _ code => code = 2
  | notText => false

/-- The text that bytes spell. -/
def decode (bytes : List UInt8) : Except ReadError String :=
  match Text.fromBytes? bytes with
  | some text => .ok text
  | none => .error notText

end ReadError

end ScriptLint

import ScriptLint.Command.Run

/-!
# The command

Reads files and the standard input, keeps the time, and prints what the library says.
-/

namespace ScriptLint.Main

/-- A refusal of the system; its code may come with a minus sign. -/
def refusal (code : UInt32) (details : String) : ReadError :=
  match min code.toNat (UInt32.size - code.toNat) with
  | 2 => .missing
  | 20 => .notDirectory
  | 21 => .isDirectory
  | n => .system details.capitalize n

/-- Why the system refused to read a file. -/
def readError : IO.Error → ReadError
  | .noFileOrDirectory _ code details => refusal code details
  | .inappropriateType _ code details => refusal code details
  | .permissionDenied _ code details => refusal code details
  | .otherError code details => refusal code details
  | e => .system (toString e) 0

/-- The text of a file. -/
def readText (path : String) : IO (Except ReadError String) := do
  try
    let bytes ← IO.FS.readBinFile path
    return ReadError.decode bytes.data.toList
  catch e => return .error (readError e)

/-- An environment variable that is not empty. -/
def getVariable (name : String) : IO (Option String) := do
  return (← IO.getEnv name).filter (· ≠ "")

/-- Checks files and prints about each as soon as it is checked. -/
def checkFiles (paths : List String) (check : Check) : IO (Except Failure Tally) := do
  let mut c := check
  for path in paths do
    match c.file path (← readText path) with
    | .error f => return .error f
    | .ok (next, text) =>
      IO.print text
      c := next
  return .ok c.tally

/-- Writes responses; after a failure nothing more is written. -/
def write (out : IO.FS.Stream) (s : Session) (responses : List Response) : IO Session := do
  try
    for r in responses do
      out.putStr (r.line ++ "\n")
    unless responses.isEmpty do
      out.flush
    return s
  catch _ => return { s with writable := false, error := s.error <|> some .unwritable }

/-- The bytes up to the next line break, which is among them, or to the end of the input. -/
partial def readLine (input : IO.FS.Stream) (line : ByteArray) : IO ByteArray := do
  let byte ← input.read 1
  if byte.isEmpty then return line
  if byte.data = #[0x0A] then return line ++ byte
  readLine input (line ++ byte)

/-- Serves an editor until its input ends and no text rests. -/
partial def serve (start : Nat) (input out : IO.FS.Stream)
    (next : Option (Task (Except IO.Error ByteArray))) (s : Session) : IO Session := do
  let (s, responses) := s.pass ((← IO.monoMsNow) - start - s.now)
  let s ← write out s responses
  if s.stopped then
    return s
  match next with
  | none =>
    if s.server.pending.isEmpty then
      return s
    IO.sleep 1
    serve start input out none s
  | some line =>
    if ← IO.hasFinished line then
      let bytes := match line.get with
        | .ok bytes => bytes
        | .error _ => ByteArray.empty
      if bytes.isEmpty then
        let (s, responses) := s.endInput
        serve start input out none (← write out s responses)
      else
        let (s, responses) := s.feed bytes.data.toList
        let s ← write out s responses
        serve start input out (some (← IO.asTask (readLine input .empty))) s
    else
      IO.sleep 1
      serve start input out next s

/-- Gives up. -/
def fail (f : Failure) : IO UInt32 := do
  IO.eprintln ("kodi-check: " ++ f.message)
  return 2

/-- Does what arguments ask for. -/
def runArguments (a : Arguments) : IO UInt32 := do
  let environment : Environment := ⟨← getVariable "HOME", ← getVariable "XDG_CONFIG_HOME"⟩
  match a.settings environment (← readText (a.settingsPath environment)) with
  | .error f => fail f
  | .ok settings =>
    let service := Service.builtin settings
    if a.stdio then
      let input ← IO.getStdin
      let first ← IO.asTask (readLine input .empty)
      let s ← serve (← IO.monoMsNow) input (← IO.getStdout) (some first) { server := .new service }
      match s.result with
      | .ok _ => return 0
      | .error e => fail (.session e)
    else
      match ← checkFiles a.files { service := service, json := a.json } with
      | .ok tally => return UInt32.ofNat (Run.exitCodeOf tally)
      | .error f => fail f

end ScriptLint.Main

def main (args : List String) : IO UInt32 := do
  match ScriptLint.Arguments.parse args with
  | .ok a => ScriptLint.Main.runArguments a
  | .error u =>
    IO.print u.output
    unless u.exitCode = 0 do
      IO.eprintln "Usage: kodi-check [OPTIONS] [FILE]..."
    return UInt32.ofNat u.exitCode

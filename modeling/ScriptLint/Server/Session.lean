import ScriptLint.Server.Basic
import ScriptLint.Text.Utf8

/-!
# A session of the server

The server between an input of bytes and an output, and the time that passes.

* `Session.feed`: bytes arrive.
* `Session.pass`: time passes.
* `Session.close`: the input ends, and what rests is validated.
* `Session.result`: how the session went.
-/

namespace ScriptLint

/-- Why a session ends badly. -/
inductive SessionError
  | unreadable
  | unwritable
deriving DecidableEq, Repr

def SessionError.message : SessionError → String
  | unreadable => "failed to read request"
  | unwritable => "failed to write response"

structure Session where
  server : Server
  /-- Milliseconds since the start. -/
  now : Nat := 0
  /-- The bytes of a line that has not ended. -/
  carry : List UInt8 := []
  /-- Can responses be written? -/
  writable : Bool := true
  /-- The first thing that went wrong with the input, or else with the output. -/
  error : Option SessionError := none

namespace Session

/-- Has the input been given up? -/
def stopped (s : Session) : Bool :=
  s.error = some .unreadable

/-- Splits bytes into the lines that end and what follows the last of them. -/
def splitLines (bytes : List UInt8) : List (List UInt8) × List UInt8 :=
  bytes.foldr (fun b (lines, rest) =>
    if b = 0x0A then ([] :: lines, rest)
    else
      match lines with
      | [] => ([], b :: rest)
      | l :: ls => ((b :: l) :: ls, rest)) ([], [])

/-- Writes responses, as far as that is possible. -/
def deliver (s : Session) (responses : List Response) : Session × List Response :=
  if s.writable then (s, responses)
  else if responses = [] then (s, [])
  else ({ s with error := s.error <|> some .unwritable }, [])

/-- A line of input. One that is no text stops the server, and what rests is lost. -/
def line (s : Session) (bytes : List UInt8) : Session × List Response :=
  if s.stopped then (s, [])
  else
    match Text.fromBytes? bytes with
    | some text =>
      let (server, responses) := s.server.receive s.now text
      deliver { s with server := server } responses
    | none => ({ s with error := some .unreadable, server := { s.server with pending := [] } }, [])

/-- Lines of input in order. -/
def readAll : List (List UInt8) → Session → Session × List Response
  | [], s => (s, [])
  | l :: ls, s =>
    let (s, first) := s.line l
    let (s, others) := readAll ls s
    (s, first ++ others)

/-- Bytes arrive. -/
def feed (bytes : List UInt8) (s : Session) : Session × List Response :=
  let (lines, rest) := splitLines (s.carry ++ bytes)
  readAll lines { s with carry := rest }

/-- Time passes, and texts are validated that have rested. -/
def pass (ms : Nat) (s : Session) : Session × List Response :=
  let now := s.now + ms
  let (server, responses) := s.server.elapse now
  deliver { s with now := now, server := server } responses

/-- The input ends: what follows its last line break is a line. -/
def endInput (s : Session) : Session × List Response :=
  if s.carry = [] then (s, []) else { s with carry := [] }.line s.carry

/-- The input ends, and no text rests any longer. -/
def close (s : Session) : Session × List Response :=
  let (s, first) := s.endInput
  let (server, responses) := s.server.drain
  let (s, others) := deliver { s with server := server } responses
  (s, first ++ others)

/-- How the session went. -/
def result (s : Session) : Except SessionError Unit :=
  match s.error with
  | none => .ok ()
  | some e => .error e

end Session

end ScriptLint

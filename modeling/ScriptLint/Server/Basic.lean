import ScriptLint.Diagnostic.Wire
import ScriptLint.Server.Request
import ScriptLint.Service.Basic

/-!
# The diagnostics server

Answers the requests of an editor. A text that is to be validated rests for a while first, and is
dropped if another request for its buffer comes meanwhile.

* `Server.receive`: what a line of input brings about at once.
* `Server.fire`: what a text brings about when it has rested.
* `Server.elapse`: all texts that have rested by a moment.
-/

namespace ScriptLint

/-- What the server tells the editor. -/
inductive Response
  | publish (buffer : String) (diagnostics : List Diagnostic)
  | invalid (reason : Refusal)
deriving DecidableEq, Repr

namespace Response

def toJson : Response → JsonValue
  | publish buffer ds => .obj [("buffer", .str buffer), ("diagnostics", .arr (ds.map (·.toJson)))]
  | invalid reason => .obj [("error", .str ("invalid request: " ++ reason.message))]

/-- The line that is written. -/
def line (r : Response) : String :=
  r.toJson.compact

end Response

/-- A text that rests until its deadline; tickets tell the requests for a buffer apart. -/
structure Pending where
  buffer : String
  text : String
  ticket : Nat
  deadline : Nat
deriving DecidableEq, Repr

structure Server where
  service : Service
  /-- The latest ticket of each buffer. -/
  tickets : Table Nat := ⟨[]⟩
  /-- The texts that rest, in the order they came. -/
  pending : List Pending := []

namespace Server

def new (service : Service) : Server where
  service := service

/-- Takes a new ticket for a buffer, which makes older ones stale. -/
def supersede (s : Server) (buffer : String) : Nat × Server :=
  let ticket := s.tickets.get buffer + 1
  (ticket, { s with tickets := s.tickets.set buffer ticket })

/-- Is this ticket the latest of its buffer? -/
def isLatest (s : Server) (buffer : String) (ticket : Nat) : Bool :=
  s.tickets.get buffer = ticket

/-- What a request that comes at a moment brings about. -/
def handle (now : Nat) (r : Request) (s : Server) : Server × List Response :=
  let (ticket, s) := s.supersede r.buffer
  match r with
  | .validate buffer text =>
    let p := ⟨buffer, text, ticket, now + s.service.settings.debounceMs.toNat⟩
    ({ s with pending := s.pending ++ [p] }, [])
  | .clear buffer =>
    let (_, service) := s.service.perform (.clear buffer)
    ({ s with service := service }, [.publish buffer []])

/-- What a line that comes at a moment brings about: nothing if it is blank. -/
def receive (now : Nat) (line : String) (s : Server) : Server × List Response :=
  let line := Text.trimString line
  if line = "" then (s, [])
  else
    match Request.decode line with
    | .ok r => s.handle now r
    | .error reason => (s, [.invalid reason])

/-- Validates a text that has rested, if its ticket is still the latest. -/
def fire (p : Pending) (s : Server) : Server × List Response :=
  if s.isLatest p.buffer p.ticket then
    let (answer, service) := s.service.perform (.validate p.buffer p.text)
    let s := { s with service := service }
    match answer with
    | .diagnostics ds => (s, [.publish p.buffer ds])
    | _ => (s, [])
  else (s, [])

/-- Validates texts in order. -/
def fireAll : List Pending → Server → Server × List Response
  | [], s => (s, [])
  | p :: ps, s =>
    let (s, first) := s.fire p
    let (s, others) := fireAll ps s
    (s, first ++ others)

/-- Validates the texts that have rested by a moment. All rest equally long, so the order in which
they came is the order of their deadlines. -/
def elapse (now : Nat) (s : Server) : Server × List Response :=
  let due := s.pending.takeWhile fun p => p.deadline ≤ now
  fireAll due { s with pending := s.pending.drop due.length }

/-- Validates all texts that rest. -/
def drain (s : Server) : Server × List Response :=
  fireAll s.pending { s with pending := [] }

end Server

end ScriptLint

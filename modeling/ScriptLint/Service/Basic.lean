import ScriptLint.Service.Buffers
import ScriptLint.Service.Loading

/-!
# The diagnostics service

Diagnostics for the buffers of an editor, with an engine that may take time to load. An operation
that needs the engine while it loads is held up, and others run meanwhile.

* `Service.begin`: runs an operation, as far as it gets at once.
* `Service.resume`: the rest of an operation that was held up.
* `Service.together`: several operations that begin one after the other and overlap.
-/

namespace ScriptLint

/-- What can be asked of the service. -/
inductive Operation
  | produce (text : String)
  | validate (buffer text : String)
  | clear (buffer : String)
  | published (buffer : String)
  | markers (buffer : String)
  | settings
  | load
deriving DecidableEq, Repr

/-- What the service answers. -/
inductive Answer
  | diagnostics (ds : List Diagnostic)
  | stale
  | cleared
  | markers (ms : List Marker)
  | settings (s : Settings)
  | loaded
  | unloadable (error : LoadError)
deriving DecidableEq, Repr

/-- An operation that is held up until the engine is loaded; a validation has its number. -/
inductive Held
  | produce (text : String)
  | validate (buffer text : String) (generation : Nat)
  | load
deriving DecidableEq, Repr

/-- How far an operation is. -/
inductive Progress
  | done (answer : Answer)
  | held (rest : Held)
deriving DecidableEq, Repr

structure Service where
  settings : Settings
  engine : EngineCell
  buffers : Buffers := ⟨[]⟩

namespace Service

/-- A service that has done nothing yet. -/
def new (loader : Loader) (settings : Settings) : Service where
  settings := settings
  engine := ⟨loader, .idle, 0⟩

/-- A service with the engine of this library. -/
def builtin (settings : Settings) : Service :=
  new Loader.builtin settings

/-- The diagnostics of a text: none if there is no engine. -/
def diagnosticsWith (outcome : Except LoadError Engine) (settings : Settings) (text : String) :
    List Diagnostic :=
  match outcome with
  | .ok engine => diagnose engine settings text
  | .error _ => []

/-- The diagnostics that are published about a buffer, for an editor. -/
def markers (s : Service) (buffer : String) : List Marker :=
  (s.buffers.published buffer).map fun d => d.toMarker s.settings.markerWidth s.settings.source

/-- The rest of an operation, now that loading has an outcome. -/
def complete (outcome : Except LoadError Engine) (held : Held) (s : Service) : Answer × Service :=
  match held with
  | .produce text => (.diagnostics (diagnosticsWith outcome s.settings text), s)
  | .validate buffer text generation =>
    let (result, buffers) :=
      s.buffers.finish buffer generation (diagnosticsWith outcome s.settings text)
    (result.elim .stale .diagnostics, { s with buffers := buffers })
  | .load =>
    match outcome with
    | .ok _ => (.loaded, s)
    | .error e => (.unloadable e, s)

/-- Goes on with an operation that was held up, if the engine is loaded by now. -/
def resume (held : Held) (s : Service) : Progress × Service :=
  match s.engine.outcome? with
  | some outcome =>
    let (answer, s) := complete outcome held s
    (.done answer, s)
  | none => (.held held, s)

/-- Asks for the engine on behalf of an operation. -/
def needEngine (held : Held) (s : Service) : Progress × Service :=
  resume held { s with engine := s.engine.request }

/-- Runs an operation until it is done or held up. -/
def begin (op : Operation) (s : Service) : Progress × Service :=
  match op with
  | .produce text => needEngine (.produce text) s
  | .validate buffer text =>
    let (generation, buffers) := s.buffers.start buffer
    needEngine (.validate buffer text generation) { s with buffers := buffers }
  | .load => needEngine .load s
  | .clear buffer => (.done .cleared, { s with buffers := s.buffers.clear buffer })
  | .published buffer => (.done (.diagnostics (s.buffers.published buffer)), s)
  | .markers buffer => (.done (.markers (s.markers buffer)), s)
  | .settings => (.done (.settings s.settings), s)

/-- Lets a load come to its end. -/
def settle (s : Service) : Service :=
  { s with engine := s.engine.settle }

/-- Begins operations in order. -/
def beginAll : List Operation → Service → List Progress × Service
  | [], s => ([], s)
  | op :: ops, s =>
    let (p, s) := begin op s
    let (ps, s) := beginAll ops s
    (p :: ps, s)

/-- The answer of an operation, at the end of the load if it was held up. -/
def conclude (p : Progress) (s : Service) : Answer × Service :=
  match p with
  | .done answer => (answer, s)
  | .held held => complete s.engine.loader.outcome held s

/-- The answers of operations in order. -/
def concludeAll : List Progress → Service → List Answer × Service
  | [], s => ([], s)
  | p :: ps, s =>
    let (a, s) := conclude p s
    let (as, s) := concludeAll ps s
    (a :: as, s)

/-- Runs operations that overlap: all begin, the load ends, and the ones held up end in order. -/
def together (ops : List Operation) (s : Service) : List Answer × Service :=
  let (ps, s) := beginAll ops s
  concludeAll ps s.settle

/-- Runs an operation to its end. -/
def perform (op : Operation) (s : Service) : Answer × Service :=
  let (p, s) := begin op s
  conclude p s.settle

end Service

end ScriptLint

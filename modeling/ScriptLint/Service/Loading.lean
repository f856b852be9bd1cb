import ScriptLint.Diagnose

/-!
# Loading an engine

An engine is loaded when it is first asked for, and once only: who asks while it loads waits for
the same load, and the outcome is kept, a failure too.

* `Loader`: how loading goes.
* `EngineCell.request`: asking for the engine.
* `EngineCell.tick`: one more pause of the load is over.
-/

namespace ScriptLint

/-- Why there is no engine. -/
inductive LoadError
  | unavailable (detail : String)
  | uninitialized (detail : String)
deriving DecidableEq, Repr

def LoadError.message : LoadError → String
  | unavailable detail => "script engine unavailable: " ++ detail
  | uninitialized detail => "script engine failed to initialize: " ++ detail

/-- How loading goes: it pauses some times and then has an outcome. -/
structure Loader where
  pauses : Nat
  outcome : Except LoadError Engine

/-- Gives the engine of this library at once. -/
def Loader.builtin : Loader :=
  ⟨0, .ok Engine.builtin⟩

/-- How far loading is. -/
inductive LoadState
  | idle
  | loading (pauses : Nat)
  | resolved (outcome : Except LoadError Engine)

/-- An engine that is loaded when it is asked for. -/
structure EngineCell where
  loader : Loader
  state : LoadState := .idle
  /-- How often the loader was called. -/
  loads : Nat := 0

namespace EngineCell

/-- The outcome of loading, once it is over. -/
def outcome? (cell : EngineCell) : Option (Except LoadError Engine) :=
  match cell.state with
  | .resolved outcome => some outcome
  | _ => none

def isResolved (cell : EngineCell) : Bool :=
  cell.outcome?.isSome

/-- Why loading failed, if it did. -/
def error? (cell : EngineCell) : Option LoadError :=
  match cell.outcome? with
  | some (.error e) => some e
  | _ => none

/-- The state of a load with some pauses to come. -/
def after (loader : Loader) : Nat → LoadState
  | 0 => .resolved loader.outcome
  | n + 1 => .loading (n + 1)

/-- Asks for the engine, which starts a load if there was none. -/
def request (cell : EngineCell) : EngineCell :=
  match cell.state with
  | .idle =>
    { cell with state := after cell.loader cell.loader.pauses, loads := cell.loads + 1 }
  | _ => cell

/-- A load that goes on until its next pause, or to its end. -/
def tick (cell : EngineCell) : EngineCell :=
  match cell.state with
  | .loading n => { cell with state := after cell.loader (n - 1) }
  | _ => cell

/-- A load that goes on to its end. -/
def settle (cell : EngineCell) : EngineCell :=
  match cell.state with
  | .loading n => Nat.repeat tick n cell
  | _ => cell

end EngineCell

end ScriptLint

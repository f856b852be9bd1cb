import ScriptLint.Diagnostic.Basic
import ScriptLint.Table

/-!
# Buffers

What is published about each text that is being edited. Work on a text begins and ends; its result
counts only if no other work on that text began in between.

* `Buffers.start`: begins work on a buffer and gives it a number.
* `Buffers.finish`: publishes the result of work, unless it is stale.
* `Buffers.clear`: publishes nothing, which makes unfinished work stale.
-/

namespace ScriptLint

/-- The number of the latest work on a buffer, and what is published about it. -/
structure Buffer where
  generation : Nat := 0
  published : List Diagnostic := []
deriving Repr, Inhabited

/-- The buffers by name. -/
abbrev Buffers := Table Buffer

namespace Buffers

/-- Begins work on a buffer. -/
def start (buffers : Buffers) (name : String) : Nat × Buffers :=
  let old := buffers.get name
  (old.generation + 1, buffers.set name { old with generation := old.generation + 1 })

/-- Ends the work of a generation: publishes its result, or nothing if it is stale. -/
def finish (buffers : Buffers) (name : String) (generation : Nat) (result : List Diagnostic) :
    Option (List Diagnostic) × Buffers :=
  let old := buffers.get name
  if old.generation = generation then
    (some result, buffers.set name { old with published := result })
  else
    (none, buffers)

/-- Publishes an empty list, as work of its own. -/
def clear (buffers : Buffers) (name : String) : Buffers :=
  buffers.set name ⟨(buffers.get name).generation + 1, []⟩

/-- What is published about a buffer. -/
def published (buffers : Buffers) (name : String) : List Diagnostic :=
  (buffers.get name).published

end Buffers

end ScriptLint

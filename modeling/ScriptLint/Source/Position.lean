/-!
# Places in a source text

Texts are cut by byte offsets and shown to people by line and column, both counted from one, a
column being a character.

* `Span`: a stretch of bytes.
* `Position`: a line and a column.
* `Source.slice`, `Source.IsBoundary`: stretches of a text by byte offsets.
-/

namespace ScriptLint

/-- A stretch of a text in bytes, `stop` not included. -/
structure Span where
  start : Nat
  stop : Nat
deriving DecidableEq, Repr

/-- A line and a column, counted from one. -/
structure Position where
  line : UInt32
  column : UInt32
deriving DecidableEq, Repr

namespace Source

/-- The number of bytes of a text. -/
def byteLength : List Char → Nat
  | [] => 0
  | c :: cs => c.utf8Size + byteLength cs

/-- The number of lines of a text. -/
def lineCount (cs : List Char) : Nat :=
  cs.count '\n' + 1

/-- The characters of a text that end at a byte offset or before. -/
def before : List Char → Nat → List Char
  | [], _ => []
  | c :: cs, offset => if offset < c.utf8Size then [] else c :: before cs (offset - c.utf8Size)

/-- The characters of a stretch. -/
def slice (text : List Char) (span : Span) : List Char :=
  (before text span.stop).drop (before text span.start).length

/-- Does no character lie across the offset? -/
def IsBoundary (text : List Char) (offset : Nat) : Prop :=
  byteLength (before text offset) = offset

instance (text : List Char) (offset : Nat) : Decidable (IsBoundary text offset) :=
  inferInstanceAs (Decidable (_ = _))

end Source

end ScriptLint

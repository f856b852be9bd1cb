import ScriptLint.Source.Position

/-!
# The lines of a text by byte offsets

The position of an offset is looked up in a table of the offsets at which the lines of the text
begin. An offset inside a character means the start of that character, one past the end means the
end. Line and column numbers that do not fit are held at the largest that does.

* `LineIndex`: a text with the starts of its lines.
* `LineIndex.partitionPoint`: bisection in a table whose front satisfies a test.
* `LineIndex.position`: the position of a byte offset.
* `Source.positionAt`: the same for a text.
-/

namespace ScriptLint

open Source (byteLength slice IsBoundary)

/-- The offsets behind the newlines of a text that begins at `offset`. -/
def LineIndex.startsBehind (offset : Nat) : List Char → List Nat
  | [] => []
  | c :: cs =>
    let next := offset + c.utf8Size
    if c = '\n' then next :: startsBehind next cs else startsBehind next cs

/-- A text with the byte offsets at which its lines begin: the first line begins with the text,
every other one behind a newline. -/
structure LineIndex where
  text : List Char
  starts : Array Nat
  starts_eq : starts = (0 :: LineIndex.startsBehind 0 text).toArray
deriving DecidableEq, Repr

namespace LineIndex

def ofText (text : List Char) : LineIndex :=
  ⟨text, _, rfl⟩

def lineCount (index : LineIndex) : Nat :=
  index.starts.size

/-- The last boundary of a text that is not past the offset. -/
def floorBoundary (text : List Char) : Nat → Nat
  | 0 => 0
  | offset + 1 =>
    if IsBoundary text (offset + 1) then offset + 1 else floorBoundary text offset

/-- Halves the window between `low` and `high` until nothing is left of it, for as many rounds as
are given. -/
def bisect (holds : Nat → Bool) : Nat → Nat → Nat → Nat
  | 0, low, _ => low
  | rounds + 1, low, high =>
    if low < high then
      let middle := low + (high - low) / 2
      if holds middle then bisect holds rounds (middle + 1) high
      else bisect holds rounds low middle
    else low

/-- The number of entries that satisfy the test, if no other entry stands in front of one that
does. A window never takes more rounds than it has entries. -/
def partitionPoint (entries : Array Nat) (holds : Nat → Bool) : Nat :=
  bisect (fun i => entries[i]?.any holds) entries.size 0 entries.size

/-- The position of a byte offset: its line is the last that begins at the offset or before, its
column counts the characters from there. -/
def position (index : LineIndex) (offset : Nat) : Position :=
  let offset := floorBoundary index.text (Nat.min offset (byteLength index.text))
  let line := partitionPoint index.starts (· ≤ offset) - 1
  let column := (slice index.text ⟨index.starts.getD line 0, offset⟩).length + 1
  ⟨UInt32.ofNatClamp (line + 1), UInt32.ofNatClamp column⟩

end LineIndex

/-- The position of a byte offset in a text. -/
def Source.positionAt (text : List Char) (offset : Nat) : Position :=
  (LineIndex.ofText text).position offset

end ScriptLint

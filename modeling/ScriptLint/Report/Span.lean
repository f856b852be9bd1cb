import ScriptLint.Diagnostic.Basic
import ScriptLint.Text.Lines

/-!
# The characters that a diagnostic marks

* `Report.lineAt`: where a line begins in a text, and its length.
* `Report.charSpan`: the characters from a diagnostic's place on, as many as asked for, but not
  beyond the end of its line.
-/

namespace ScriptLint.Report

/-- The offset and the length of the line with this index, among lines that begin at `offset`. An
index past the last line gives an offset past the text. -/
def lineAt (offset index : Nat) : List (List Char) → Nat × Nat
  | [] => (offset, 0)
  | [l] => if index = 0 then (offset, l.length) else (offset + l.length + 1, l.length)
  | l :: ls =>
    if index = 0 then (offset, l.length) else lineAt (offset + l.length + 1) (index - 1) ls

/-- The first character that a diagnostic marks and the one behind the last, counted from the start
of the text. -/
def charSpan (text : List Char) (d : Diagnostic) (width : UInt32) : Nat × Nat :=
  let (offset, length) := lineAt 0 (d.line.toNat - 1) (Text.lines text)
  let start := min (offset + min (d.column.toNat - 1) length) text.length
  let stop := max (min (start + max width.toNat 1) (offset + length)) start
  (start, min stop text.length)

end ScriptLint.Report

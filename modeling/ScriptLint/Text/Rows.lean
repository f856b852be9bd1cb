import ScriptLint.Text.Lines

/-!
# Rows of a text

A newline, with or without a carriage return in front, ends a row. A text that ends with a newline
has no row behind it.

* `rows`: the rows of a text.
* `after?`: the rest of a text that begins in some way.
-/

namespace ScriptLint.Text

/-- A line without the carriage return at its end. -/
def dropReturn (l : List Char) : List Char :=
  if l.getLast? = some '\r' then l.dropLast else l

/-- The rows among the pieces between newlines; no newline ends the last one. -/
def rowsOf : List (List Char) → List (List Char)
  | [] => []
  | [l] => if l = [] then [] else [l]
  | l :: ls => dropReturn l :: rowsOf ls

/-- The rows of a text. -/
def rows (cs : List Char) : List (List Char) :=
  rowsOf (lines cs)

/-- What follows a beginning of the text, if it begins so. -/
def after? (start cs : List Char) : Option (List Char) :=
  if start.isPrefixOf cs then some (cs.drop start.length) else none

end ScriptLint.Text

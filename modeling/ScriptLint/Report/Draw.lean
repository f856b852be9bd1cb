import ScriptLint.Report.Span
import ScriptLint.Text.CellWidth

/-!
# Drawing a report

A diagnostic is drawn as a heading, the line of the source it is on, and an arrow from the marked
characters to a label.

* `Report.drawnLines`: the lines of the drawing. They end at any line break of Unicode, a carriage
  return included, and not only at newlines.
* `Report.draw`: the report on one diagnostic.
* `Report.render`: the reports on several, one below the other.
-/

namespace ScriptLint.Report

/-- Does a line of the drawing end behind this character? -/
def isBreak (c : Char) : Bool :=
  (0x0A ≤ c.toNat && c.toNat ≤ 0x0D) || c = '\u0085' || c = '\u2028' || c = '\u2029'

/-- Puts a character in front of lines that follow it; a carriage return stays with a newline. -/
def prependDrawn (c : Char) (ls : List (List Char)) : List (List Char) :=
  match ls with
  | [] => [[c]]
  | l :: rest =>
    if isBreak c && !(c = '\r' && l.head? = some '\n') then [c] :: ls else (c :: l) :: rest

/-- A line of the drawing, its break included: its index, the offset of its first character, and
its characters. -/
structure Line where
  index : Nat
  start : Nat
  text : List Char
deriving Repr

/-- Numbers lines and gives them their offsets. -/
def number (index start : Nat) : List (List Char) → List Line
  | [] => []
  | l :: ls => ⟨index, start, l⟩ :: number (index + 1) (start + l.length) ls

/-- The lines of the drawing; an empty text has one. -/
def drawnLines (text : List Char) : List Line :=
  number 0 0 (if text = [] then [[]] else text.foldr prependDrawn [])

/-- The last line that begins at or before an offset. -/
def lineOf (lines : List Line) (offset : Nat) : Line :=
  (lines.reverse.find? fun l => l.start ≤ offset).getD ⟨0, 0, []⟩

namespace Line

/-- The line as it is shown, nothing blank at its end. -/
def shown (l : Line) : List Char :=
  Text.trimEnd l.text

/-- Blanks that fill a column up to the next multiple of four. -/
def tabWidth (column : Nat) : Nat :=
  (column / 4 + 1) * 4 - column

/-- How many cells the character of a column fills. -/
def width (l : Line) (column : Nat) : Nat :=
  match l.shown[column]? with
  | some c => if c = '\t' then tabWidth column else if Text.isBlank c then 1 else Text.cellWidth c
  | none => 1

/-- The characters from a column on, with spaces for blanks. -/
def expand (column : Nat) : List Char → List Char
  | [] => []
  | c :: cs =>
    (if c = '\t' then List.replicate (tabWidth column) ' '
      else if Text.isBlank c then [' '] else [c]) ++ expand (column + 1) cs

/-- Glyphs under the first columns of the line. Each column has a glyph for its first cell and one
for the others. -/
def under (l : Line) (columns : Nat) (glyphs : Nat → Char × Char) : List Char :=
  (List.range columns).flatMap fun k =>
    let (first, tail) := glyphs k
    match l.width k with
    | 0 => []
    | w + 1 => first :: List.replicate w tail

end Line

def heading : Severity → String
  | .error => "Error"
  | .warning => "Warning"
  | .info => "Advice"

def label : Severity → String
  | .error => "syntax error here"
  | .warning => "not declared in this file"
  | .info => "note"

def spaces (n : Nat) : String :=
  String.ofList (List.replicate n ' ')

def bar (n : Nat) : String :=
  String.ofList (List.replicate n '─')

/-- A row of source text, its number in a column of the given width. -/
def sourceRow (numberWidth : Nat) (l : Line) (mark : String) : String :=
  let n := toString (l.index + 1)
  " " ++ spaces (numberWidth - n.length) ++ n ++ " │ " ++ mark ++
    String.ofList (Line.expand 0 l.shown)

/-- The rows for characters `start` to `stop` of one line. -/
def singleRows (numberWidth : Nat) (l : Line) (start stop : Nat) (text : String) : List String :=
  let columns := stop - l.start + 2
  let arrow := (start + stop) / 2 - l.start
  let marked k := start ≤ l.start + k && l.start + k < stop
  let above := l.under columns fun k =>
    if k = arrow then (if marked k then ('┬', '─') else ('│', ' '))
    else if marked k then ('─', '─') else (' ', ' ')
  let below := l.under columns fun k =>
    if k < arrow then (' ', ' ') else if k = arrow then ('╰', '─') else ('─', '─')
  let margin := spaces (numberWidth + 2) ++ "│ "
  [sourceRow numberWidth l "", margin ++ String.ofList above,
    margin ++ String.ofList below ++ " " ++ text]

/-- The rows for characters that reach from one line to another; lines between are left out. -/
def doubleRows (numberWidth : Nat) (first last : Line) (text : String) : List String :=
  let columns := last.text.length + 2
  let cells := (List.range columns).foldl (fun n k => n + last.width k) 0
  let margin := spaces (numberWidth + 2) ++ "│ "
  [sourceRow numberWidth first "╭─▶ ", sourceRow numberWidth last "├─▶ ",
    margin ++ "│   " ++ spaces cells, margin ++ "╰───" ++ bar cells ++ " " ++ text]

/-- The rows of the report on a diagnostic. -/
def draw (name : String) (text : List Char) (width : UInt32) (d : Diagnostic) : List String :=
  let (start, stop) := charSpan text d width
  let lines := drawnLines text
  let first := lineOf lines start
  let last := lineOf lines (max (stop - 1) start)
  let numberWidth := (toString (last.index + 1)).length
  let rows :=
    if first.index = last.index then singleRows numberWidth first start stop (label d.severity)
    else doubleRows numberWidth first last (label d.severity)
  [heading d.severity ++ ": " ++ d.message,
    spaces (numberWidth + 2) ++ "╭─[ " ++ name ++ ":" ++ toString (first.index + 1) ++ ":" ++
      toString (start - first.start + 1) ++ " ]",
    spaces (numberWidth + 2) ++ "│"] ++ rows ++ [bar (numberWidth + 2) ++ "╯"]

/-- The reports on diagnostics of a source text, each row with a line break behind it. -/
def render (name source : String) (diagnostics : List Diagnostic) (width : UInt32) : String :=
  String.join ((diagnostics.flatMap (draw name source.toList width)).map (· ++ "\n"))

end ScriptLint.Report

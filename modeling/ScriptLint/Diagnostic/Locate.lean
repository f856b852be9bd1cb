import ScriptLint.Decimal.Binary64
import ScriptLint.Diagnostic.Basic

/-!
# Finding the place in a message

The engine reports a failure as text, and its place is read from that text. A location is
`line N, column M` or `line N:M`, perhaps with `at` before it; the case of the words does not
matter.

* `Locate.lineColumn?`: the location that a text begins with.
* `Locate.findLocation`: the first location in a text.
* `locate`: the diagnostic of a message. The first location is cut out of the message; without
  one, a mere `line N` gives the line; without that, the place is the start of the script.
-/

namespace ScriptLint

namespace Locate

/-- The text behind a word that it begins with, whatever the case of its letters. -/
def word? : List Char → List Char → Option (List Char)
  | [], cs => some cs
  | _ :: _, [] => none
  | w :: ws, c :: cs => if c.toLower = w then word? ws cs else none

/-- The text behind at least one blank. -/
def blanks? (cs : List Char) : Option (List Char) :=
  let rest := cs.dropWhile Text.isBlank
  if rest.length < cs.length then some rest else none

/-- The number that a text begins with, all its digits taken, and the text behind it. -/
def number? (cs : List Char) : Option (UInt32 × List Char) :=
  let digits := cs.takeWhile Char.isDigit
  let value := digitsValue digits
  if digits ≠ [] ∧ value < UInt32.size then some (UInt32.ofNat value, cs.drop digits.length)
  else none

/-- `line N` -/
def line? (cs : List Char) : Option (UInt32 × List Char) := do
  let cs ← word? ['l', 'i', 'n', 'e'] cs
  let cs ← blanks? cs
  number? cs

/-- The text behind a comma, if one is there. -/
def skipComma : List Char → List Char
  | ',' :: cs => cs
  | cs => cs

/-- What stands between a line and its column: `, column` or a colon. -/
def separator? (cs : List Char) : Option (List Char) :=
  let named := (word? ['c', 'o', 'l', 'u', 'm', 'n'] (Text.trimStart (skipComma cs))).bind blanks?
  match named with
  | some rest => some rest
  | none =>
    match Text.trimStart cs with
    | ':' :: rest => some (Text.trimStart rest)
    | _ => none

/-- `line N, column M` or `line N:M` -/
def lineColumn? (cs : List Char) : Option (UInt32 × UInt32 × List Char) := do
  let (line, cs) ← line? cs
  let cs ← separator? cs
  let (column, cs) ← number? cs
  return (line, column, cs)

/-- The location that a text begins with, `at` before it included, and the text behind it. -/
def location? (cs : List Char) : Option (UInt32 × UInt32 × List Char) :=
  match ((word? ['a', 't'] cs).bind blanks?).bind lineColumn? with
  | some found => some found
  | none => lineColumn? cs

/-- A location in a text. -/
structure Found where
  line : UInt32
  column : UInt32
  before : List Char
  after : List Char
deriving DecidableEq, Repr

/-- The first location in a text. -/
def findLocation : List Char → Option Found
  | [] => none
  | c :: cs =>
    match location? (c :: cs) with
    | some (line, column, after) => some ⟨line, column, [], after⟩
    | none => (findLocation cs).map fun f => { f with before := c :: f.before }

/-- The first `line N` in a text. -/
def findLine : List Char → Option UInt32
  | [] => none
  | c :: cs =>
    match line? (c :: cs) with
    | some (line, _) => some line
    | none => findLine cs

/-- The message without its location, or all of it if nothing else is left. -/
def Found.message (f : Found) (message : String) : String :=
  match Text.trim (f.before ++ f.after) with
  | [] => message
  | text => String.ofList text

end Locate

/-- The error that a failure message reports, at the place that the message gives. -/
def locate (message : String) : Diagnostic :=
  let text := message.toList
  match Locate.findLocation text with
  | some found => Diagnostic.make .error found.line found.column (found.message message)
  | none => Diagnostic.make .error ((Locate.findLine text).getD 1) 1 message

end ScriptLint

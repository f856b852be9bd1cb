import ScriptLint.Text.Blank

/-!
# Code without literals and comments

A line is scrubbed by writing spaces over its string literals and its comment, so that what is
left stands where it stood.

* `Scrub.literals`: spaces over literals. A quote opens a literal that runs to the next quote of
  its kind, or to the end of the line; a backslash means nothing.
* `Scrub.comment`: spaces from the first `//` on.
* `scrub`: both, literals first.
* `length_scrub`: a scrubbed line is as long as the line.
-/

namespace ScriptLint

namespace Scrub

def isQuote (c : Char) : Bool :=
  c = '"' || c = '\''

/-- Spaces over the literals of a line, `inside` being the quote of one already open. -/
def literals (inside : Option Char) : List Char → List Char
  | [] => []
  | c :: cs =>
    match inside with
    | some quote => ' ' :: literals (if c = quote then none else some quote) cs
    | none => if isQuote c then ' ' :: literals (some c) cs else c :: literals none cs

/-- Spaces from the first `//` on. -/
def comment : List Char → List Char
  | [] => []
  | c :: cs =>
    if c = '/' ∧ cs.head? = some '/' then List.replicate (cs.length + 1) ' '
    else c :: comment cs

theorem length_literals (inside : Option Char) (cs : List Char) :
    (literals inside cs).length = cs.length := by
  induction cs generalizing inside with
  | nil => rfl
  | cons c cs ih =>
    cases inside with
    | some quote => simp [literals, ih]
    | none => by_cases h : isQuote c <;> simp [literals, h, ih]

theorem length_comment (cs : List Char) : (comment cs).length = cs.length := by
  induction cs with
  | nil => rfl
  | cons c cs ih =>
    simp only [comment]
    split <;> simp [ih]

end Scrub

/-- The line with spaces over its literals and its comment. -/
def scrub (line : List Char) : List Char :=
  Scrub.comment (Scrub.literals none line)

theorem length_scrub (line : List Char) : (scrub line).length = line.length := by
  simp [scrub, Scrub.length_comment, Scrub.length_literals]

/-- Is there nothing but a comment on the line? -/
def isCommentLine (line : List Char) : Bool :=
  ['/', '/'].isPrefixOf (Text.trimStart line)

end ScriptLint

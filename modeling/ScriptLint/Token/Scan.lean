import ScriptLint.Source.Fault
import ScriptLint.Token.Basic

/-!
# Reading tokens

A text is read piece by piece, each piece the longest that its first character allows: a gap
(blanks or a comment), a token, or a stretch that is none of these and ends the reading.

* `Token.first`: the piece that a text begins with.
* `Token.scan`: the tokens of a text up to its first fault.
* `tokenize`: the same for a source text, with the fault placed in it.
-/

namespace ScriptLint

/-- What a text can begin with. -/
inductive Piece
  | gap
  | token (t : Token)
  | bad (cause : Cause)
deriving DecidableEq, Repr

namespace Token

/-- The characters that separate tokens. -/
def isGap (c : Char) : Bool :=
  c = ' ' || c = '\t' || c = '\r' || c = '\n' || c = '\x0c'

/-- The characters that a word may begin with. -/
def isWordStart (c : Char) : Bool :=
  c.isAlpha || c = '_'

/-- The characters that a word may go on with. -/
def isWordChar (c : Char) : Bool :=
  c.isAlphanum || c = '_'

/-- What a character stands for behind a backslash. -/
def unescape : Char → Char
  | 'n' => '\n'
  | 't' => '\t'
  | 'r' => '\r'
  | '0' => '\x00'
  | c => c

/-- The inside of a string literal: the number of its characters, what they say, and whether the
closing quote follows. -/
structure Inside where
  length : Nat
  content : List Char
  closed : Bool
deriving DecidableEq, Repr

/-- Reads up to the closing quote. A literal ends with its line; a backslash takes the next
character of the line with it. -/
def inside (quote : Char) : List Char → Inside
  | [] => ⟨0, [], false⟩
  | [c] =>
    if c = quote then ⟨0, [], true⟩
    else if c = '\n' ∨ c = '\\' then ⟨0, [], false⟩
    else ⟨1, [c], false⟩
  | c :: d :: cs =>
    if c = quote then ⟨0, [], true⟩
    else if c = '\n' then ⟨0, [], false⟩
    else if c = '\\' then
      if d = '\n' then ⟨0, [], false⟩
      else
        let rest := inside quote cs
        ⟨rest.length + 2, unescape d :: rest.content, rest.closed⟩
    else
      let rest := inside quote (d :: cs)
      ⟨rest.length + 1, c :: rest.content, rest.closed⟩

/-- A literal, its opening quote read: the piece, and how many more characters belong to it. -/
def literal (quote : Char) (cs : List Char) : Piece × Nat :=
  let i := inside quote cs
  if i.closed then (.token (.str (String.ofList i.content)), i.length + 1)
  else (.bad .unterminatedString, i.length)

/-- Whole numbers are below this bound. -/
def intBound : Nat :=
  Nat.pow 2 63

/-- A run of digits, a number if it is not too large. -/
def integer (digits : List Char) : Piece :=
  let value := digitsValue digits
  if value < intBound then .token (.int value) else .bad (.invalidNumber (String.ofList digits))

/-- A number, its first digit read: the piece, and how many more characters belong to it. A point
belongs to it if a digit follows. -/
def number (c : Char) (cs : List Char) : Piece × Nat :=
  let whole := cs.takeWhile Char.isDigit
  let plain := (integer (c :: whole), whole.length)
  match cs.drop whole.length with
  | '.' :: rest =>
    let places := rest.takeWhile Char.isDigit
    if places.isEmpty then plain
    else (.token (.float (Binary64.ofDecimal (c :: whole ++ places) places.length)),
      whole.length + 1 + places.length)
  | _ => plain

/-- A symbol of two characters, else of one. -/
def mark (c : Char) (cs : List Char) : Piece × Nat :=
  match cs.head?.bind (Symbol.ofPair? c) with
  | some s => (.token (.symbol s), 1)
  | none =>
    match Symbol.ofChar? c with
    | some s => (.token (.symbol s), 0)
    | none => (.bad (.unexpectedCharacter c), 0)

/-- The piece that a text begins with, and how many characters behind the first belong to it. -/
def first (c : Char) (cs : List Char) : Piece × Nat :=
  if isGap c then (.gap, (cs.takeWhile isGap).length)
  else if c = '/' ∧ cs.head? = some '/' then (.gap, (cs.takeWhile (· ≠ '\n')).length)
  else if isWordStart c then
    let word := cs.takeWhile isWordChar
    (.token (ofWord (String.ofList (c :: word))), word.length)
  else if c.isDigit then number c cs
  else if c = '"' ∨ c = '\'' then literal c cs
  else mark c cs

/-- The tokens of a text that begins at byte `offset`, behind those already read; or the first
cause for which it is not a list of tokens, and its stretch. -/
def scan (offset : Nat) (read : Array Lexeme) : List Char → Except (Cause × Span) (Array Lexeme)
  | [] => .ok read
  | c :: cs =>
    let (piece, more) := first c cs
    let span : Span := ⟨offset, offset + Source.byteLength (c :: cs.take more)⟩
    match piece with
    | .gap => scan span.stop read (cs.drop more)
    | .token t => scan span.stop (read.push ⟨t, span⟩) (cs.drop more)
    | .bad cause => .error (cause, span)
termination_by cs => cs.length
decreasing_by all_goals simp only [List.length_drop, List.length_cons]; omega

end Token

/-- The tokens of a source text, or its first fault. -/
def tokenize (source : String) : Except Fault (Array Lexeme) :=
  let text := source.toList
  match Token.scan 0 #[] text with
  | .ok lexemes => .ok lexemes
  | .error (cause, span) => .error (Fault.inText text span cause)

end ScriptLint

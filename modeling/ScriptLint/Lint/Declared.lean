import ScriptLint.Text.Blank
import ScriptLint.Text.Lines
import ScriptLint.Token.Scan

/-!
# Names that a script declares

Names are declared by `let name =` and by the parameters of `fn (…)`, each found on one line of
text. A declaration counts for the whole script.

* `Declared.occurrences`: the places behind a word in a line.
* `declaredNames`: every name declared in some lines.
-/

namespace ScriptLint

namespace Declared

open Token (isWordStart isWordChar)

/-- What follows each occurrence of a word that no word character stands before; `joined` tells
whether one stands before the text. -/
def occurrences (word : List Char) (joined : Bool) : List Char → List (List Char)
  | [] => []
  | c :: cs =>
    let others := occurrences word (isWordChar c) cs
    if !joined && word.isPrefixOf (c :: cs) then (c :: cs).drop word.length :: others else others

/-- The identifier that a text begins with. -/
def identifier? : List Char → Option (List Char)
  | [] => none
  | c :: cs => if isWordStart c then some (c :: cs.takeWhile isWordChar) else none

/-- The name bound by what follows a `let`: blanks, a name, and an equals sign. -/
def letName? (cs : List Char) : Option (List Char) := do
  let rest := Text.trimStart cs
  guard (rest.length < cs.length)
  let name ← identifier? rest
  guard ((Text.trimStart (rest.drop name.length)).head? = some '=')
  return name

/-- The parameters listed by what follows an `fn`; of each, the identifier it begins with. -/
def paramNames (cs : List Char) : List (List Char) :=
  match Text.trimStart cs with
  | '(' :: rest =>
    if rest.contains ')' then
      (Text.pieces ',' (rest.takeWhile (· ≠ ')'))).filterMap fun p => identifier? (Text.trim p)
    else []
  | _ => []

/-- The names that a line declares. -/
def inLine (line : List Char) : List String :=
  let lets := (occurrences ['l', 'e', 't'] false line).filterMap letName?
  let params := (occurrences ['f', 'n'] false line).flatMap paramNames
  (lets ++ params).map String.ofList

end Declared

/-- The names declared in some lines, each once. -/
def declaredNames (lines : List (List Char)) : List String :=
  (lines.flatMap Declared.inLine).eraseDups

end ScriptLint

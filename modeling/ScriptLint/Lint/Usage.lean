import ScriptLint.Diagnostic.Basic
import ScriptLint.Lint.Declared
import ScriptLint.Lint.Scrub
import ScriptLint.Vocabulary

/-!
# Undefined variables

Every plain use of a name that nothing makes known is reported once, at its first place. A use is
plain if it is not being declared, is no member of something and is not called.

* `Usage.sites`: the identifiers of a line with what stands around them.
* `Usage.inLine`: the plain uses on a line, literals and comments aside.
* `undefinedNames`: the warnings for some lines, given the names that are known.
-/

namespace ScriptLint

namespace Usage

open Token (isWordStart isWordChar)

/-- An identifier in a line; `before` is read from it leftwards. -/
structure Site where
  before : List Char
  name : List Char
  after : List Char
deriving DecidableEq, Repr

/-- The identifiers of a text with `before` on its left. A run of word characters that begins with
a digit is none. -/
def sites (before : List Char) : List Char → List Site
  | [] => []
  | c :: cs =>
    if isWordChar c then
      let more := cs.takeWhile isWordChar
      let others := sites (more.reverse ++ c :: before) (cs.drop more.length)
      if isWordStart c then ⟨before, c :: more, cs.drop more.length⟩ :: others else others
    else sites (c :: before) cs
termination_by cs => cs.length
decreasing_by all_goals simp only [List.length_drop, List.length_cons]; omega

namespace Site

/-- Is the word `let` before it, with a blank between? -/
def isDeclared (s : Site) : Bool :=
  let left := s.before.dropWhile Text.isBlank
  left.length < s.before.length && ['t', 'e', 'l'].isPrefixOf left &&
    !((left.drop 3).head?.any isWordChar)

/-- Is it named behind a dot? -/
def isMember (s : Site) : Bool :=
  (s.before.dropWhile Text.isBlank).head? = some '.'

/-- Is it called? -/
def isCalled (s : Site) : Bool :=
  (s.after.dropWhile Text.isBlank).head? = some '('

def isPlain (s : Site) : Bool :=
  !s.isDeclared && !s.isMember && !s.isCalled

def column (s : Site) : Nat :=
  s.before.length + 1

end Site

end Usage

/-- A plain use of a name; lines and columns are counted from one. -/
structure Use where
  line : Nat
  column : Nat
  name : String
deriving DecidableEq, Repr

namespace Usage

/-- The plain uses on a line. -/
def inLine (number : Nat) (line : List Char) : List Use :=
  if isCommentLine line then []
  else ((sites [] (scrub line)).filter Site.isPlain).map fun s =>
    ⟨number, s.column, String.ofList s.name⟩

/-- The plain uses in lines that are numbered from `number` on. -/
def inLines (number : Nat) : List (List Char) → List Use
  | [] => []
  | l :: ls => inLine number l ++ inLines (number + 1) ls

/-- The first use of each name that is not known. -/
def firstUses (known : String → Bool) (seen : List String) : List Use → List Use
  | [] => []
  | u :: us =>
    if known u.name || seen.contains u.name then firstUses known seen us
    else u :: firstUses known (u.name :: seen) us

def warning (u : Use) : Diagnostic :=
  Diagnostic.make .warning (UInt32.ofNatClamp u.line) (UInt32.ofNatClamp u.column)
    ("Undefined variable '" ++ u.name ++ "'")

/-- Is the name a word of the language, a function of its library, declared or given by the host? -/
def isKnown (declared globals : List String) (name : String) : Bool :=
  Vocabulary.isKeyword name || Vocabulary.isNative name || declared.contains name ||
    globals.contains name

end Usage

/-- A warning for each name that is used plainly and not known, at its first plain use. -/
def undefinedNames (declared globals : List String) (lines : List (List Char)) : List Diagnostic :=
  (Usage.firstUses (Usage.isKnown declared globals) [] (Usage.inLines 1 lines)).map Usage.warning

end ScriptLint

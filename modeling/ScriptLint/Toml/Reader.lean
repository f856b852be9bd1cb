import ScriptLint.Toml.Lexical

/-!
# Reading TOML text

* `TomlReader.value`: a value. Lists and inline tables nest at most 80 deep.
* `TomlReader.document`: the sections of a text.
* `readToml?`: the table that a text describes, if it keeps the rules of TOML.
-/

namespace ScriptLint

/-- Takes an `α` off the front of a text that keeps the rules. -/
abbrev TomlReader (α : Type) :=
  StateT (List Char) Option α

namespace TomlReader

variable {α : Type}

/-- Runs a partial function on the text. -/
def scan (f : List Char → Option (α × List Char)) : TomlReader α := fun cs => f cs

/-- Passes over some text. -/
def pass (f : List Char → Option (List Char)) : TomlReader Unit := fun cs =>
  (f cs).map fun rest => ((), rest)

/-- Passes over blanks. -/
def spaces : TomlReader Unit :=
  modify (List.dropWhile TomlText.isSpace)

def peek : TomlReader (Option Char) :=
  return (← get).head?

/-- This character. -/
def expect (c : Char) : TomlReader Unit :=
  pass (TomlText.after? c)

/-- Passes over blanks, line breaks and comments. -/
def trivia : TomlReader Unit :=
  pass (TomlText.trivia? false)

def isBareKeyChar (c : Char) : Bool :=
  c.isAlphanum || c = '_' || c = '-'

/-- A string of one line, or a word. -/
def simpleKey : TomlReader String := do
  match ← get with
  | '"' :: cs =>
    let (content, rest) ← TomlText.basic? cs
    set rest
    return String.ofList content
  | '\'' :: cs =>
    let (content, rest) ← TomlText.literal? cs
    set rest
    return String.ofList content
  | cs =>
    let w := cs.takeWhile isBareKeyChar
    if w.isEmpty then failure
    set (cs.drop w.length)
    return String.ofList w

/-- A key of at most `n` further parts. -/
def keyUpTo : Nat → TomlReader (List String)
  | 0 => failure
  | n + 1 => do
    spaces
    let part ← simpleKey
    spaces
    if (← peek) = some '.' then
      expect '.'
      return part :: (← keyUpTo n)
    else return [part]

/-- A key with dots between its parts. -/
def key : TomlReader (List String) := do
  keyUpTo ((← get).length + 1)

/-- At most `n` more items of a list. -/
def itemsUpTo (value : TomlReader TomlValue) : Nat → TomlReader (List TomlValue)
  | 0 => failure
  | n + 1 => do
    trivia
    if (← peek) = some ']' then
      expect ']'
      return []
    let v ← value
    trivia
    if (← peek) = some ',' then
      expect ','
      return v :: (← itemsUpTo value n)
    else
      expect ']'
      return [v]

/-- At most `n` more entries of an inline table. -/
def entriesUpTo (value : TomlReader TomlValue) : Nat → TomlReader (List (List String × TomlValue))
  | 0 => failure
  | n + 1 => do
    trivia
    if (← peek) = some '\x7d' then
      expect '\x7d'
      return []
    let k ← key
    expect '='
    spaces
    let v ← value
    trivia
    if (← peek) = some ',' then
      expect ','
      return (k, v) :: (← entriesUpTo value n)
    else
      expect '\x7d'
      return [(k, v)]

/-- A value that nests at most this deep. -/
def valueUpTo (depth : Nat) : TomlReader TomlValue := do
  match ← peek with
  | some '"' => return .str (← scan TomlText.string?)
  | some '\'' => return .str (← scan TomlText.string?)
  | some '[' =>
    match depth with
    | 0 => failure
    | depth + 1 =>
      expect '['
      return .arr (← itemsUpTo (valueUpTo depth) ((← get).length + 1))
  | some '\x7b' =>
    match depth with
    | 0 => failure
    | depth + 1 =>
      expect '\x7b'
      let entries ← entriesUpTo (valueUpTo depth) ((← get).length + 1)
      let table ← TomlTable.putAll [] entries
      return .table (TomlNode.entryValues table)
  | _ => scan fun cs => do
    let w := TomlText.word cs
    return (← TomlText.scalar? w, cs.drop w.length)

/-- How deep lists and inline tables may nest. -/
def depthLimit : Nat :=
  80

def value : TomlReader TomlValue :=
  valueUpTo depthLimit

/-- The end of a line: blanks, a comment, and a line break or the end of the text. -/
def lineEnd : TomlReader Unit := do
  spaces
  if (← peek) = some '#' then pass TomlText.comment?
  match ← get with
  | [] => return
  | _ => pass TomlText.newline?

/-- The last part of a key and those before it. -/
def split : List String → Option (List String × String)
  | [] => none
  | [k] => some ([], k)
  | k :: ks => do
    let (path, last) ← split ks
    return (k :: path, last)

/-- A header, its first bracket taken. -/
def header : TomlReader TomlHeader := do
  if (← peek) = some '[' then
    expect '['
    let (path, k) ← split (← key)
    expect ']'
    expect ']'
    return .listed path k
  else
    let (path, k) ← split (← key)
    expect ']'
    return .table path k

/-- At most `n` more lines. The section being read has its entries in reverse, and the finished
ones are in reverse too. -/
def linesUpTo (done : List TomlSection) (current : TomlHeader)
    (entries : List (List String × TomlValue)) : Nat → TomlReader (List TomlSection)
  | 0 => failure
  | n + 1 => do
    spaces
    match ← get with
    | [] => return (⟨current, entries.reverse⟩ :: done).reverse
    | c :: _ =>
      if c = '\n' ∨ c = '\r' ∨ c = '#' then
        lineEnd
        linesUpTo done current entries n
      else if c = '[' then
        expect '['
        let h ← header
        lineEnd
        linesUpTo (⟨current, entries.reverse⟩ :: done) h [] n
      else
        let k ← key
        expect '='
        spaces
        let v ← value
        lineEnd
        linesUpTo done current ((k, v) :: entries) n

/-- The sections of a text. A mark of byte order may stand before them. -/
def document : TomlReader (List TomlSection) := do
  match ← get with
  | '\ufeff' :: cs => set cs
  | _ => pure ()
  linesUpTo [] .root [] ((← get).length + 1)

end TomlReader

/-- The table that a TOML text describes. -/
def readToml? (source : String) : Option (List (String × TomlValue)) := do
  let (sections, _) ← TomlReader.document.run source.toList
  let table ← TomlTable.ofSections [] sections
  return TomlNode.entryValues table

end ScriptLint

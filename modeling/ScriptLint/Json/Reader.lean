import ScriptLint.Decode.Refusal
import ScriptLint.Json.Lexical
import ScriptLint.Json.Value

/-!
# Reading JSON text

A reader takes a value off the front of a text and refuses at the first thing that is not as it
should be, in the order of the text.

* `JsonReader.string`, `JsonReader.skip`, `JsonReader.value`: a string, any value unseen, any
  value. Values read for what they hold nest less than 128 deep; values skipped may nest without
  bound.
* `JsonReader.found`: what stands where another value should.
* `JsonReader.nextItem`, `JsonReader.nextKey`: the items of a list and the members of an object.
* `JsonReader.run`: a value that is the whole text.
-/

namespace ScriptLint

/-- Takes an `α` off the front of a text. -/
abbrev JsonReader (α : Type) :=
  StateT (List Char) (Except Refusal) α

namespace JsonReader

variable {α β κ : Type}

def malformed : JsonReader α :=
  throw .malformed

/-- The blanks of JSON. -/
def isSpace (c : Char) : Bool :=
  c = ' ' || c = '\n' || c = '\t' || c = '\r'

/-- The next character that is not blank; it stays where it is. -/
def peek : JsonReader (Option Char) := do
  modify (List.dropWhile isSpace)
  return (← get).head?

/-- Drops a character. -/
def advance : JsonReader Unit :=
  modify (List.drop 1)

/-- This character, after blanks. -/
def expect (c : Char) : JsonReader Unit := do
  if (← peek) = some c then advance else malformed

/-- Runs a partial function on the text. -/
def scan (f : List Char → Option (α × List Char)) : JsonReader α := do
  match f (← get) with
  | some (a, rest) =>
    set rest
    return a
  | none => malformed

/-- A word of JSON that stands here. -/
def word (w : List Char) : JsonReader Unit :=
  scan fun cs => if w.isPrefixOf cs then some ((), cs.drop w.length) else none

/-- A string whose opening quote stands here. -/
def string : JsonReader String := do
  advance
  let parts ← scan JsonText.parts?
  match JsonText.join? parts with
  | some cs => return String.ofList cs
  | none => malformed

/-- A string whose opening quote stands here, looked at only for its form. -/
def skipString : JsonReader Unit := do
  advance
  let _ ← scan JsonText.parts?

/-- A number that stands here: an integer or a double. -/
def number : JsonReader JsonValue := do
  let t ← scan JsonText.number?
  match t.int? with
  | some n => return .int n
  | none =>
    match t.float? with
    | some x => return .float x
    | none => malformed

/-- Can a number begin with this character? -/
def startsNumber (c : Char) : Bool :=
  c = '-' || c.isDigit

/-- Does another item of a list follow? `first` if none came before. -/
def nextItem (first : Bool) : JsonReader Bool := do
  match ← peek with
  | none => malformed
  | some ']' =>
    advance
    return false
  | some c =>
    if first then return true
    if c ≠ ',' then malformed
    advance
    match ← peek with
    | none => malformed
    | some c => if c = ']' then malformed else return true

/-- The name of the next member of an object, as `key` takes it, if another follows. -/
def nextKey (key : JsonReader κ) (first : Bool) : JsonReader (Option κ) := do
  match ← peek with
  | none => malformed
  | some '\x7d' =>
    advance
    return none
  | some c =>
    unless first do
      if c ≠ ',' then malformed
      advance
    match ← peek with
    | some '"' => return some (← key)
    | _ => malformed

/-- At most `n` more items. -/
def itemsUpTo (item : JsonReader α) : Nat → Bool → JsonReader (List α)
  | 0, _ => malformed
  | n + 1, first => do
    if ← nextItem first then
      let a ← item
      return a :: (← itemsUpTo item n false)
    else return []

/-- The items of a list whose bracket was taken. Each takes a character, so their number is
bounded by the text's. -/
def items (item : JsonReader α) : JsonReader (List α) := do
  itemsUpTo item ((← get).length + 1) true

/-- At most `n` more members. -/
def foldMembersUpTo (key : JsonReader κ) (member : β → κ → JsonReader β) :
    Nat → Bool → β → JsonReader β
  | 0, _, _ => malformed
  | n + 1, first, b => do
    match ← nextKey key first with
    | none => return b
    | some k => foldMembersUpTo key member n false (← member b k)

/-- The members of an object whose brace was taken, each with its name as `key` takes it and read
from its colon on. -/
def foldMembers (key : JsonReader κ) (member : β → κ → JsonReader β) (b : β) : JsonReader β := do
  foldMembersUpTo key member ((← get).length + 1) true b

/-- Any value of at most this nesting, looked at only for its form. -/
def skipUpTo : Nat → JsonReader Unit
  | 0 => malformed
  | depth + 1 => do
    match ← peek with
    | none => malformed
    | some '"' => skipString
    | some '[' => do
      advance
      let _ ← items (skipUpTo depth)
    | some '\x7b' => do
      advance
      foldMembers skipString (fun _ _ => do expect ':'; skipUpTo depth) ()
    | some 'n' => word ['n', 'u', 'l', 'l']
    | some 't' => word ['t', 'r', 'u', 'e']
    | some 'f' => word ['f', 'a', 'l', 's', 'e']
    | some c =>
      if startsNumber c then
        let _ ← scan JsonText.number?
      else malformed

/-- Any value, looked at only for its form. -/
def skip : JsonReader Unit := do
  skipUpTo ((← get).length + 1)

/-- Any value of less than this nesting. -/
def valueUpTo : Nat → JsonReader JsonValue
  | 0 => malformed
  | depth + 1 => do
    match ← peek with
    | none => malformed
    | some '"' => return .str (← string)
    | some '[' => do
      advance
      if depth = 0 then malformed
      return .arr (← items (valueUpTo depth))
    | some '\x7b' => do
      advance
      if depth = 0 then malformed
      let members ← foldMembers string (fun (ms : List (String × JsonValue)) key => do
        expect ':'
        return (key, ← valueUpTo depth) :: ms) []
      return .obj members.reverse
    | some 'n' => do
      word ['n', 'u', 'l', 'l']
      return .null
    | some 't' => do
      word ['t', 'r', 'u', 'e']
      return .bool true
    | some 'f' => do
      word ['f', 'a', 'l', 's', 'e']
      return .bool false
    | some c => if startsNumber c then number else malformed

/-- The nesting at which reading a value stops. -/
def depthLimit : Nat :=
  128

/-- A value as it is named where it should not be. -/
def describe : JsonValue → Found
  | .null => .null
  | .bool b => .bool b
  | .int n => .integer n
  | .float x => .float x.scientific
  | .str s => .string s
  | .arr _ => .sequence
  | .obj _ => .map

/-- What stands here; a list or an object is not looked into. -/
def found : JsonReader Found := do
  match ← peek with
  | some '[' => return .sequence
  | some '\x7b' => return .map
  | _ => return describe (← valueUpTo 1)

/-- Refuses what stands here. -/
def unexpected (expected : String) : JsonReader α := do
  throw (.invalidType (← found) expected)

/-- A string. -/
def text (expected : String) : JsonReader String := do
  if (← peek) = some '"' then string else unexpected expected

/-- A number of 32 bits. -/
def uint32 : JsonReader UInt32 := do
  match ← peek with
  | some c =>
    if startsNumber c then
      match ← number with
      | .int n =>
        if 0 ≤ n ∧ n < UInt32.size then return UInt32.ofNat n.toNat
        else throw (.invalidValue (.integer n) "u32")
      | v => throw (.invalidType (describe v) "u32")
    else unexpected "u32"
  | none => malformed

/-- One of some named things, as a string or as an object whose only member has that name and
holds `null`. -/
def variant (known : List String) : JsonReader String := do
  match ← peek with
  | some '"' => name
  | some '\x7b' => do
    advance
    let n ← name
    expect ':'
    if (← peek) = some 'n' then word ['n', 'u', 'l', 'l'] else unexpected "unit"
    expect '\x7d'
    return n
  | _ => malformed
where
  name : JsonReader String := do
    let n ← text "variant identifier"
    if known.contains n then return n else throw (.unknownVariant n known)

/-- Reads a value that is the whole text. -/
def run (p : JsonReader α) (source : String) : Except Refusal α := do
  let (a, rest) ← StateT.run p source.toList
  if rest.all isSpace then return a else throw .malformed

end JsonReader

end ScriptLint

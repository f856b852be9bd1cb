import ScriptLint.Decimal.Shortest

/-!
# JSON values and their compact text

* `JsonValue`: a value; members of an object keep their order and may repeat a name.
* `JsonValue.compact`: its text without blanks. Only what must be escaped is: quotes,
  backslashes and control characters.
-/

namespace ScriptLint

inductive JsonValue
  | null
  | bool (b : Bool)
  | int (n : Int)
  | float (x : Binary64)
  | str (s : String)
  | arr (items : List JsonValue)
  | obj (members : List (String × JsonValue))

namespace JsonValue

/-- A hexadecimal digit. -/
def hexDigit (n : Nat) : Char :=
  (Nat.toDigits 16 n).headD '0'

/-- A character as it stands in a JSON string. -/
def escapeChar (c : Char) : List Char :=
  if c = '"' then ['\\', '"']
  else if c = '\\' then ['\\', '\\']
  else if c = '\x08' then ['\\', 'b']
  else if c = '\x0c' then ['\\', 'f']
  else if c = '\n' then ['\\', 'n']
  else if c = '\r' then ['\\', 'r']
  else if c = '\t' then ['\\', 't']
  else if c.toNat < 0x20 then
    ['\\', 'u', '0', '0', hexDigit (c.toNat / 16), hexDigit (c.toNat % 16)]
  else [c]

/-- A JSON string with its quotes. -/
def quote (s : String) : List Char :=
  '"' :: (s.toList.flatMap escapeChar ++ ['"'])

/-- Texts with commas between them. -/
def commas : List (List Char) → List Char
  | [] => []
  | [t] => t
  | t :: ts => t ++ ',' :: commas ts

mutual

/-- The characters of the compact text. -/
def chars : JsonValue → List Char
  | null => "null".toList
  | bool true => "true".toList
  | bool false => "false".toList
  | int n => (toString n).toList
  | float x => x.scientific.toList
  | str s => quote s
  | arr items => '[' :: (commas (itemChars items) ++ [']'])
  | obj members => '\x7b' :: (commas (memberChars members) ++ ['\x7d'])

/-- The text of each item. -/
def itemChars : List JsonValue → List (List Char)
  | [] => []
  | v :: vs => chars v :: itemChars vs

/-- The text of each member. -/
def memberChars : List (String × JsonValue) → List (List Char)
  | [] => []
  | (name, v) :: vs => (quote name ++ ':' :: chars v) :: memberChars vs

end

/-- The compact text. -/
def compact (v : JsonValue) : String :=
  String.ofList v.chars

end JsonValue

end ScriptLint

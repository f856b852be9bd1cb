import ScriptLint.Text.Quoted

/-!
# Refused data

Why a text of a data format is not the value that was asked for. A text that breaks the rules of
its format is malformed; one that keeps them can hold something else than expected.

* `Found.describe`: what was found instead.
* `Refusal.message`: the wording of each refusal.
-/

namespace ScriptLint

/-- A value that was found in place of another. -/
inductive Found
  | null
  | bool (b : Bool)
  | integer (n : Int)
  /-- An integer for which 64 bits are too few, and the name of the type that holds it. -/
  | wide (n : Int) (type : String)
  | float (text : String)
  | string (s : String)
  | sequence
  | map
deriving DecidableEq, Repr

def Found.describe : Found → String
  | null => "null"
  | bool b => "boolean `" ++ (if b then "true" else "false") ++ "`"
  | integer n => "integer `" ++ toString n ++ "`"
  | wide n type => "integer `" ++ toString n ++ "` as " ++ type
  | float text => "floating point `" ++ text ++ "`"
  | string s => "string " ++ Text.quoted s
  | sequence => "sequence"
  | map => "map"

/-- Why a text does not hold the value asked for. -/
inductive Refusal
  | malformed
  | invalidType (found : Found) (expected : String)
  | invalidValue (found : Found) (expected : String)
  | invalidLength (n : Nat) (expected : String)
  | missingField (name : String)
  | duplicateField (name : String)
  | unknownVariant (name : String) (known : List String)
deriving DecidableEq, Repr

namespace Refusal

def ticked (s : String) : String :=
  "`" ++ s ++ "`"

/-- Names to choose from. -/
def choices : List String → String
  | [a] => ticked a
  | [a, b] => ticked a ++ " or " ++ ticked b
  | names => "one of " ++ ", ".intercalate (names.map ticked)

/-- The wording of a refusal. -/
def message : Refusal → String
  | malformed => "malformed"
  | invalidType found expected => "invalid type: " ++ found.describe ++ ", expected " ++ expected
  | invalidValue found expected => "invalid value: " ++ found.describe ++ ", expected " ++ expected
  | invalidLength n expected => "invalid length " ++ toString n ++ ", expected " ++ expected
  | missingField name => "missing field " ++ ticked name
  | duplicateField name => "duplicate field " ++ ticked name
  | unknownVariant name known =>
    "unknown variant " ++ ticked name ++ ", expected " ++ choices known

end Refusal

/-- A count and the word for what is counted. -/
def counted (n : Nat) (one many : String) : String :=
  toString n ++ " " ++ if n = 1 then one else many

end ScriptLint

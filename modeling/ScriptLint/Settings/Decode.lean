import ScriptLint.Decimal.Shortest
import ScriptLint.Decode.Refusal
import ScriptLint.Settings.Basic
import ScriptLint.Toml.Reader

/-!
# Settings from TOML

A text that breaks the rules of TOML is malformed. Entries are looked at in the order of their
keys; those that are no setting are ignored.

* `Settings.ofTable`: the settings that a table gives.
* `Settings.decode`: the settings that a text gives.
-/

namespace ScriptLint

namespace TomlValue

/-- A value as it is named where it should not be; `none` for a number that is too large. -/
def found? : TomlValue → Option Found
  | bool b => some (.bool b)
  | int n =>
    if -(Nat.pow 2 63 : Nat) ≤ n ∧ n < UInt64.size then some (.integer n)
    else if n < Nat.pow 2 127 then some (.wide n "i128")
    else some (.wide n "u128")
  | float x => some (.float x.pointed)
  | tooLarge => none
  | str s => some (.string s)
  | datetime => some .map
  | arr _ => some .sequence
  | table _ => some .map

/-- Refuses a value. -/
def unexpected {α : Type} (v : TomlValue) (expected : String) : Except Refusal α :=
  match v.found? with
  | some found => .error (.invalidType found expected)
  | none => .error .malformed

def asBool : TomlValue → Except Refusal Bool
  | bool b => .ok b
  | v => v.unexpected "a boolean"

def asString : TomlValue → Except Refusal String
  | str s => .ok s
  | v => v.unexpected "a string"

def asStrings : TomlValue → Except Refusal (List String)
  | arr items => items.mapM asString
  | v => v.unexpected "a sequence"

/-- A whole number below a bound of at most 64 bits. -/
def asNat (bound : Nat) (expected : String) : TomlValue → Except Refusal Nat
  | int n =>
    if 0 ≤ n ∧ n < bound then .ok n.toNat
    else if -(Nat.pow 2 63 : Nat) ≤ n ∧ n < UInt64.size then
      .error (.invalidValue (.integer n) expected)
    else (int n).unexpected expected
  | v => v.unexpected expected

mutual

/-- Does no number in it exceed every number type? -/
def isHeld : TomlValue → Bool
  | tooLarge => false
  | arr items => areHeld items
  | table entries => entriesHeld entries
  | _ => true

def areHeld : List TomlValue → Bool
  | [] => true
  | v :: vs => v.isHeld && areHeld vs

def entriesHeld : List (String × TomlValue) → Bool
  | [] => true
  | (_, v) :: vs => v.isHeld && entriesHeld vs

end

end TomlValue

namespace Settings

/-- The settings with one entry taken into account. -/
def withEntry (s : Settings) (key : String) (v : TomlValue) : Except Refusal Settings :=
  match key with
  | "undefined_variables" => do return { s with undefinedVariables := ← v.asBool }
  | "globals" => do return { s with globals := ← v.asStrings }
  | "marker_width" => do return { s with markerWidth := UInt32.ofNat (← v.asNat UInt32.size "u32") }
  | "source" => do return { s with source := ← v.asString }
  | "debounce_ms" => do return { s with debounceMs := UInt64.ofNat (← v.asNat UInt64.size "u64") }
  | _ => if v.isHeld then .ok s else .error .malformed

/-- The settings that a table gives. -/
def ofTable (entries : List (String × TomlValue)) : Except Refusal Settings :=
  (entries.mergeSort fun a b => a.1 < b.1 || a.1 == b.1).foldlM
    (fun s (key, v) => s.withEntry key v) default

/-- The settings that a TOML text gives. -/
def decode (text : String) : Except Refusal Settings :=
  match readToml? text with
  | some entries => ofTable entries
  | none => .error .malformed

end Settings

end ScriptLint

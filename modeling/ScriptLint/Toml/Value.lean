import ScriptLint.Decimal.Binary64

/-!
# TOML values

* `TomlValue`: a value. Dates and times are not told apart, and a number that is too large for any
  number type is kept as such.
* `TomlNode`: a table while it is being written, which remembers how it came to be.
-/

namespace ScriptLint

inductive TomlValue
  | bool (b : Bool)
  | int (n : Int)
  | float (x : Binary64)
  | tooLarge
  | str (s : String)
  | datetime
  | arr (items : List TomlValue)
  | table (entries : List (String × TomlValue))

/-- How a table came to be: on the way to another by a header, by a header of its own, or by a
dotted key. -/
inductive TomlOrigin
  | implied | header | dotted
deriving DecidableEq, Repr

/-- An entry of a table under construction: a value, a table, or tables listed by headers. -/
inductive TomlNode
  | leaf (v : TomlValue)
  | table (origin : TomlOrigin) (entries : List (String × TomlNode))
  | tables (elements : List (List (String × TomlNode)))

abbrev TomlTable :=
  List (String × TomlNode)

mutual

/-- The value of an entry. -/
def TomlNode.toValue : TomlNode → TomlValue
  | .leaf v => v
  | .table _ entries => .table (TomlNode.entryValues entries)
  | .tables elements => .arr (TomlNode.elementValues elements)

/-- The values of the entries of a table. -/
def TomlNode.entryValues : List (String × TomlNode) → List (String × TomlValue)
  | [] => []
  | (key, node) :: entries => (key, node.toValue) :: TomlNode.entryValues entries

/-- The values of listed tables. -/
def TomlNode.elementValues : List (List (String × TomlNode)) → List TomlValue
  | [] => []
  | entries :: elements =>
    .table (TomlNode.entryValues entries) :: TomlNode.elementValues elements

end

namespace TomlTable

/-- Changes the entry of a key, or adds one at the end. -/
def alter (key : String) (f : Option TomlNode → Option TomlNode) : TomlTable → Option TomlTable
  | [] => do return [(key, ← f none)]
  | (k, node) :: entries =>
    if k = key then do return (k, ← f (some node)) :: entries
    else do return (k, node) :: (← alter key f entries)

/-- Changes the last of some tables. -/
def alterLast (f : TomlTable → Option TomlTable) : List TomlTable → Option (List TomlTable)
  | [] => none
  | [t] => do return [← f t]
  | t :: ts => do return t :: (← alterLast f ts)

/-- Changes the table that a header leads through. What is missing on the way is made. -/
def descend (f : TomlTable → Option TomlTable) : List String → TomlTable → Option TomlTable
  | [], t => f t
  | key :: path, t => t.alter key fun
    | none => do return .table .implied (← descend f path [])
    | some (.table origin entries) => do return .table origin (← descend f path entries)
    | some (.tables elements) => do return .tables (← alterLast (descend f path) elements)
    | some (.leaf _) => none

/-- Adds a value under a dotted key. A dotted key makes the tables it leads through, or goes on
with those that dotted keys made; a key that is there already is refused. -/
def put (v : TomlValue) : List String → TomlTable → Option TomlTable
  | [], _ => none
  | [key], t => t.alter key fun
    | none => some (.leaf v)
    | some _ => none
  | key :: next :: path, t => t.alter key fun
    | none => do return .table .dotted (← put v (next :: path) [])
    | some (.table .dotted entries) => do return .table .dotted (← put v (next :: path) entries)
    | some (.table .implied entries) =>
      if path.isEmpty then none
      else do return .table .implied (← put v (next :: path) entries)
    | some _ => none

/-- Adds values under dotted keys. -/
def putAll (t : TomlTable) : List (List String × TomlValue) → Option TomlTable
  | [] => some t
  | (path, v) :: entries => do (← put v path t).putAll entries

end TomlTable

/-- Where the entries that follow a header belong. -/
inductive TomlHeader
  /-- Before any header. -/
  | root
  | table (path : List String) (key : String)
  | listed (path : List String) (key : String)
deriving DecidableEq, Repr

/-- A header and the entries that follow it. -/
structure TomlSection where
  header : TomlHeader
  entries : List (List String × TomlValue)

namespace TomlTable

/-- Adds a section. A table has one header; headers in double brackets list tables. -/
def addSection (t : TomlTable) (s : TomlSection) : Option TomlTable :=
  match s.header with
  | .root => t.putAll s.entries
  | .table path key => t.descend (fun inner => inner.alter key fun
    | none => do return .table .header (← TomlTable.putAll [] s.entries)
    | some (.table .implied entries) => do
      return .table .header (← TomlTable.putAll entries s.entries)
    | some _ => none) path
  | .listed path key => t.descend (fun inner => inner.alter key fun
    | none => do return .tables [← TomlTable.putAll [] s.entries]
    | some (.tables elements) => do
      return .tables (elements ++ [← TomlTable.putAll [] s.entries])
    | some _ => none) path

/-- The table of all sections. -/
def ofSections (t : TomlTable) : List TomlSection → Option TomlTable
  | [] => some t
  | s :: ss => do (← t.addSection s).ofSections ss

end TomlTable

end ScriptLint

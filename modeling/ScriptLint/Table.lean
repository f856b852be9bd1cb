/-!
# Tables

Values by name. A name without an entry has a default value.

* `Table.get`: the value of a name.
* `Table.set`: the table with another value for one name.
-/

namespace ScriptLint

/-- Values by name; the first entry of a name counts. -/
structure Table (α : Type) where
  entries : List (String × α) := []
deriving Repr

namespace Table

variable {α : Type} [Inhabited α]

/-- Puts a value in the place of a name's first entry, or behind all entries. -/
def setIn (name : String) (value : α) : List (String × α) → List (String × α)
  | [] => [(name, value)]
  | e :: es => if e.1 = name then (name, value) :: es else e :: setIn name value es

/-- The value in a name's first entry. -/
def getIn (name : String) : List (String × α) → α
  | [] => default
  | e :: es => if e.1 = name then e.2 else getIn name es

/-- The value of a name. -/
def get (t : Table α) (name : String) : α :=
  getIn name t.entries

/-- The table in which a name has this value. -/
def set (t : Table α) (name : String) (value : α) : Table α :=
  ⟨setIn name value t.entries⟩

theorem getIn_setIn (name other : String) (value : α) (es : List (String × α)) :
    getIn other (setIn name value es) = if other = name then value else getIn other es := by
  induction es with
  | nil => grind [setIn, getIn]
  | cons e es ih => grind [setIn, getIn]

@[simp]
theorem get_empty (name : String) : (⟨[]⟩ : Table α).get name = default := rfl

theorem get_set (t : Table α) (name other : String) (value : α) :
    (t.set name value).get other = if other = name then value else t.get other :=
  getIn_setIn name other value t.entries

@[simp]
theorem get_set_self (t : Table α) (name : String) (value : α) :
    (t.set name value).get name = value := by
  simp [get_set]

end Table

end ScriptLint

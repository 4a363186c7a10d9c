import ShutdownLint.Decimal.Binary64
/-!
TOML values, and tables as they are built up.

A table remembers how it came about, since this decides how it may be added to. `Value.update`
follows a path of keys into a table, makes the tables that are missing and changes the one at the
end. A path in a header may lead through every table but an inline one; a dotted key may not lead
through a table that has a header of its own. Both enter the last element of an array of tables.
-/

set_option autoImplicit false

namespace ShutdownLint.Toml

/-- How a table came about. -/
inductive Origin where
  /-- By a header of its own, as an element of an array of tables, or as the whole document. -/
  | header
  /-- By the header of a table inside of it. -/
  | implied
  /-- By a dotted key. -/
  | dotted
  /-- As an inline table. -/
  | inline
  deriving DecidableEq, Inhabited, Repr

inductive Value where
  | string (s : String)
  | integer (n : Int)
  | float (x : Decimal.Binary64)
  | boolean (b : Bool)
  /-- A date, a time of day or both, as it is written. -/
  | datetime (text : String)
  /-- An array; those whose elements have headers of their own are told apart. -/
  | array (ofTables : Bool) (items : List Value)
  | table (origin : Origin) (entries : List (String × Value))
  deriving Inhabited

namespace Value

/-- The value at a key of a table; other values have none. -/
def get? (key : String) : Value → Option Value
  | table _ entries => entries.lookup key
  | _ => none

/-- Replaces the value at a key. -/
def replaceAt (key : String) (v : Value) (entries : List (String × Value)) :
    List (String × Value) :=
  entries.map fun e ↦ if e.1 == key then (key, v) else e

/-- Changes the table that a step of a path leads to. -/
def enter (byDottedKey : Bool) (change : Value → Option Value) : Value → Option Value
  | table .inline _ => none
  | table origin entries =>
    if byDottedKey && origin == .header then none else change (table origin entries)
  | array true items => do
    let last ← change (← items.getLast?)
    return array true (items.dropLast ++ [last])
  | _ => none

/-- Changes the table at the end of a path. -/
def update (byDottedKey : Bool) (change : Value → Option Value) :
    List String → Value → Option Value
  | [], t => change t
  | key :: path, table origin entries =>
    match entries.lookup key with
    | some v =>
      (enter byDottedKey (update byDottedKey change path) v).map fun v ↦
        table origin (replaceAt key v entries)
    | none =>
      (update byDottedKey change path (table (if byDottedKey then .dotted else .implied) [])).map
        fun v ↦ table origin (entries ++ [(key, v)])
  | _ :: _, _ => none

/-- Adds an entry whose key is new. -/
def add (t : Value) (key : String) (v : Value) : Option Value :=
  match t with
  | table origin entries =>
    if (entries.lookup key).isSome then none else some (table origin (entries ++ [(key, v)]))
  | _ => none

def isDotted : Value → Bool
  | table .dotted _ => true
  | _ => false

/-- Adds an entry at a key behind a dotted path. What the path leads to has to be a table made by
dotted keys. -/
def put (t : Value) (path : List String) (key : String) (v : Value) : Option Value :=
  update true (fun t ↦ if t.isDotted == path.isEmpty then none else t.add key v) path t

/-- Begins a table with a header. Only a table that has been implied may exist already. -/
def beginTable (t : Value) (path : List String) (key : String) : Option Value :=
  update false
    (fun t ↦
      match t, t.get? key with
      | table origin entries, some (table .implied es) =>
        some (table origin (replaceAt key (table .header es) entries))
      | _, some _ => none
      | t, none => t.add key (table .header []))
    path t

/-- Begins an element of an array of tables. -/
def beginElement (t : Value) (path : List String) (key : String) : Option Value :=
  update false
    (fun t ↦
      match t, t.get? key with
      | table origin entries, some (array true items) =>
        some (table origin (replaceAt key (array true (items ++ [table .header []])) entries))
      | _, some _ => none
      | t, none => t.add key (array true [table .header []]))
    path t

end Value

end ShutdownLint.Toml

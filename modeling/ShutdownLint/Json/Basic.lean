/-!
JSON values.

A number is kept as it is written, so that a whole number can be told from the same number with a
fraction or an exponent. An object keeps its members in order; where a name occurs more than once,
the last member counts. A record is stricter, and takes each of its fields only once.
-/

set_option autoImplicit false

namespace ShutdownLint

inductive Json where
  | null
  | bool (b : Bool)
  | number (text : String)
  | string (s : String)
  | array (items : List Json)
  | object (members : List (String × Json))
  deriving Inhabited

namespace Json

/-- The value of the last member with a name. -/
def lookup (name : String) (members : List (String × Json)) : Option Json :=
  (members.reverse.find? (·.1 == name)).map Prod.snd

/-- The member of an object; other values have none. -/
def member? (name : String) : Json → Option Json
  | object members => lookup name members
  | _ => none

def asString? : Json → Option String
  | string s => some s
  | _ => none

def asBool? : Json → Option Bool
  | bool b => some b
  | _ => none

def asArray? : Json → Option (List Json)
  | array items => some items
  | _ => none

/-- The fields of a record, which is written as an object or as an array of its fields in order.
Fields may be missing, but none may be given twice. Members of other names do not count, but surplus
items do. -/
def fields? (names : List String) : Json → Option (List (Option Json))
  | object members =>
    if names.any fun name ↦ 1 < members.countP (·.1 == name) then none
    else some (names.map (lookup · members))
  | array items =>
    if items.length ≤ names.length then
      some (items.map some ++ List.replicate (names.length - items.length) none)
    else none
  | _ => none

end Json

end ShutdownLint

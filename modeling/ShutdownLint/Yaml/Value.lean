import ShutdownLint.Yaml.Number
/-!
The values of YAML documents.

A mapping keeps its entries in order. `Value.same` is the equality that keys are compared with: it
ignores the order of a mapping's entries and takes floating-point numbers as numbers. The accessors
`asMapping?`, `asSequence?` and `isNull` look through tags; `lookup` finds the value of a key that
is a string.
-/

set_option autoImplicit false

namespace ShutdownLint.Yaml

inductive Value where
  | null
  | bool (b : Bool)
  | number (n : Number)
  | string (s : String)
  | sequence (items : List Value)
  | mapping (entries : List (Value × Value))
  /-- The name is the tag without the exclamation mark in front. -/
  | tagged (name : String) (value : Value)
  deriving Inhabited

namespace Value

mutual

def same : Value → Value → Bool
  | .null, .null => true
  | .bool a, .bool b => a == b
  | .number m, .number n => m.same n
  | .string s, .string t => s == t
  | .sequence xs, .sequence ys => sameItems xs ys
  | .mapping es, .mapping fs => es.length == fs.length && entriesIn es fs
  | .tagged s v, .tagged t w => s == t && v.same w
  | _, _ => false

def sameItems : List Value → List Value → Bool
  | [], [] => true
  | x :: xs, y :: ys => x.same y && sameItems xs ys
  | _, _ => false

/-- Whether every entry of the first mapping is one of the second. -/
def entriesIn : List (Value × Value) → List (Value × Value) → Bool
  | [], _ => true
  | (k, v) :: es, fs => fs.any (fun f ↦ k.same f.1 && v.same f.2) && entriesIn es fs

end

def hasKey (key : Value) (entries : List (Value × Value)) : Bool :=
  entries.any fun e ↦ key.same e.1

def isString (s : String) : Value → Bool
  | .string t => s == t
  | _ => false

/-- The value of the key that is the given string. -/
def lookup (key : String) (entries : List (Value × Value)) : Option Value :=
  (entries.find? fun e ↦ e.1.isString key).map Prod.snd

def asMapping? : Value → Option (List (Value × Value))
  | .mapping entries => some entries
  | .tagged _ v => v.asMapping?
  | _ => none

def asSequence? : Value → Option (List Value)
  | .sequence items => some items
  | .tagged _ v => v.asSequence?
  | _ => none

def isNull : Value → Bool
  | .null => true
  | .tagged _ v => v.isNull
  | _ => false

mutual

/-- The number of values in a value, the keys of mappings apart. -/
def size : Value → Nat
  | .sequence items => sizeOfItems items + 1
  | .mapping entries => sizeOfEntries entries + 1
  | .tagged _ v => v.size + 1
  | _ => 1

def sizeOfItems : List Value → Nat
  | [] => 0
  | v :: vs => v.size + sizeOfItems vs + 1

def sizeOfEntries : List (Value × Value) → Nat
  | [] => 0
  | (_, v) :: es => v.size + sizeOfEntries es + 1

end

end Value

end ShutdownLint.Yaml

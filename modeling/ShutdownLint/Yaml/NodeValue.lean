import ShutdownLint.Yaml.Node
import ShutdownLint.Yaml.Value
/-!
The value of a document's tree.

Plain scalars are read by their notation, all others are strings, and a tag may force either.
Aliases stand for the node with their anchor. They are visited anew each time, within a budget in
proportion to the length of the document, and collections may be nested 128 deep; both limits also
stop an alias that contains itself. A key may occur once in a mapping.
-/

set_option autoImplicit false

namespace ShutdownLint.Yaml

/-! ### Scalars -/

def isNullText (s : String) : Bool :=
  s == "null" || s == "Null" || s == "NULL" || s == "~"

def readBool? (s : String) : Option Bool :=
  if s == "true" || s == "True" || s == "TRUE" then some true
  else if s == "false" || s == "False" || s == "FALSE" then some false
  else none

/-- The value of a plain scalar without a tag. -/
def plainValue (s : String) : Except Fault Value :=
  if s.isEmpty || isNullText s then .ok .null
  else
    match readBool? s with
    | some b => .ok (.bool b)
    | none =>
      match Number.readInt s.toList with
      | .fits n => .ok (.number (.int n))
      | .tooWide => .error .badScalar
      | .notInt =>
        if Number.isZeroPadded s.toList then .ok (.string s)
        else
          match Number.readFloat? s.toList with
          | some x => .ok (.number (.float x))
          | none => .ok (.string s)

def untaggedScalar (s : String) (plain : Bool) : Except Fault Value :=
  if plain then plainValue s else .ok (.string s)

/-- The value of a scalar whose tag is not one of the document's own. -/
def scalarValue (tag : Option Tag) (s : String) (plain : Bool) : Except Fault Value :=
  match tag with
  | some .null => if isNullText s then .ok .null else .error .badScalar
  | some .bool =>
    match readBool? s with
    | some b => .ok (.bool b)
    | none => .error .badScalar
  | some .int =>
    match Number.readInt s.toList with
    | .fits n => .ok (.number (.int n))
    | _ => .error .badScalar
  | some .float =>
    match Number.readFloat? s.toList with
    | some x => .ok (.number (.float x))
    | none => .error .badScalar
  | some .other => .ok (.string s)
  | _ => untaggedScalar s plain

/-- Puts a tag of the document's own around a value. -/
def withTag (tag : Option Tag) (v : Value) : Value :=
  match tag with
  | some .bare => .tagged "!" v
  | some (.named name) => .tagged name v
  | _ => v

/-! ### Nodes -/

/-- Reading a value uses up visits of aliases. -/
abbrev Reading := StateT Nat (Except Fault)

namespace Node

/-- The node an alias stands for, which takes one visit. A number that was given to several anchors
belongs to the last of them. -/
def target (anchored : List (Nat × Node)) : Node → Reading Node
  | .alias i => do
    let visits ← get
    if visits = 0 then throw .tooManyAliases
    set (visits - 1)
    match (anchored.reverse).lookup i with
    | some n => return n
    | none => throw .unknownAlias
  | n => return n

/-- Adds an entry to a mapping whose entries come last one first. -/
def addEntry (value : Node → Reading Value) (entries : List (Value × Value)) (e : Node × Node) :
    Reading (List (Value × Value)) := do
  let k ← value e.1
  if Value.hasKey k entries then throw .duplicateKey
  let v ← value e.2
  return (k, v) :: entries

/-- The value of a node, given how many collections may be nested in it. -/
def value (anchored : List (Nat × Node)) : Nat → Node → Reading Value
  | depth, n => do
    match ← n.target anchored with
    | .alias _ => throw .unknownAlias
    | .scalar p s plain => return withTag p.tag (← scalarValue p.tag s plain)
    | .sequence p items =>
      match depth with
      | 0 => throw .tooDeep
      | depth + 1 => return withTag p.tag (.sequence (← items.mapM (value anchored depth)))
    | .mapping p entries =>
      match depth with
      | 0 => throw .tooDeep
      | depth + 1 =>
        let entries ← entries.foldlM (addEntry (value anchored depth)) []
        return withTag p.tag (.mapping entries.reverse)

/-- The value of a whole document. -/
def documentValue (n : Node) : Except Fault Value :=
  (·.1) <$> (n.value n.anchored 128).run (100 * n.steps)

end Node

end ShutdownLint.Yaml

import ShutdownLint.Yaml.Directives
/-!
The tree that the tokens of a document describe.

A `Builder` takes the tokens one at a time. It keeps the collections that are still open and knows
what may come next, so reading a document is a recursion over its tokens. A node is given the
number of its anchor, and an alias the number it refers to; numbers are handed out in the order in
which anchors appear, and a name that is used again gives its old number up.
-/

set_option autoImplicit false

namespace ShutdownLint.Yaml

/-- What is written in front of a node's content. -/
structure Properties where
  anchor : Option Nat := none
  tag : Option Tag := none
  deriving DecidableEq, Inhabited

inductive Node where
  | alias (target : Nat)
  | scalar (properties : Properties) (text : String) (plain : Bool)
  | sequence (properties : Properties) (items : List Node)
  | mapping (properties : Properties) (entries : List (Node × Node))
  deriving Inhabited

namespace Node

/-- A node that is not written at all, apart from its properties. -/
def empty (p : Properties) : Node :=
  .scalar p "" true

/-- The node of a scalar. A bare tag says nothing about a scalar that has content. -/
def ofScalar (p : Properties) (text : String) (plain : Bool) : Node :=
  .scalar { p with tag := if p.tag = some .bare then none else p.tag } text plain

mutual

/-- The number of steps in which a document is read: one for a scalar or an alias, and one for
each end of a collection. -/
def steps : Node → Nat
  | .alias _ => 1
  | .scalar _ _ _ => 1
  | .sequence _ items => stepsOfItems items + 2
  | .mapping _ entries => stepsOfEntries entries + 2

def stepsOfItems : List Node → Nat
  | [] => 0
  | n :: ns => n.steps + stepsOfItems ns

def stepsOfEntries : List (Node × Node) → Nat
  | [] => 0
  | (k, v) :: es => k.steps + v.steps + stepsOfEntries es

end

/-- The node's own anchor, with the node. -/
def ownAnchor (p : Properties) (n : Node) : List (Nat × Node) :=
  match p.anchor with
  | some i => [(i, n)]
  | none => []

mutual

/-- All nodes with an anchor, in the order in which they begin. -/
def anchored : Node → List (Nat × Node)
  | .alias _ => []
  | .scalar p text plain => ownAnchor p (.scalar p text plain)
  | .sequence p items => ownAnchor p (.sequence p items) ++ anchoredItems items
  | .mapping p entries => ownAnchor p (.mapping p entries) ++ anchoredEntries entries

def anchoredItems : List Node → List (Nat × Node)
  | [] => []
  | n :: ns => n.anchored ++ anchoredItems ns

def anchoredEntries : List (Node × Node) → List (Nat × Node)
  | [] => []
  | (k, v) :: es => k.anchored ++ (v.anchored ++ anchoredEntries es)

end

end Node

/-! ### Open collections -/

/-- A collection that is still open. Its members come last one first, and a mapping may hold a key
whose value is not known yet. -/
inductive Frame where
  | blockSequence (properties : Properties) (items : List Node)
  /-- A list in a block mapping that is indented no deeper than the mapping. -/
  | indentlessSequence (properties : Properties) (items : List Node)
  | blockMapping (properties : Properties) (entries : List (Node × Node)) (key : Option Node)
  | flowSequence (properties : Properties) (items : List Node)
  /-- The mapping of one entry that a key makes inside a flow sequence. -/
  | flowPair (key : Option Node)
  /-- While `bare` holds, the node being read is a key that can have no value. -/
  | flowMapping (properties : Properties) (entries : List (Node × Node)) (key : Option Node)
      (bare : Bool)
  deriving Inhabited

/-- Where a node may begin. -/
inductive Slot where
  /-- The document itself, which may be missing behind a document mark. -/
  | root (afterMark : Bool)
  | blockItem
  | indentlessItem
  | blockKey
  | blockValue
  | flowItem
  | pairKey
  | pairValue
  /-- An entry of a flow mapping, with or without a mark for its key. -/
  | flowEntry
  | flowKey
  | flowValue
  deriving DecidableEq, Inhabited

namespace Slot

/-- Whether block collections may begin here. -/
def allowsBlock : Slot → Bool
  | .root _ | .blockItem | .indentlessItem | .blockKey | .blockValue => true
  | _ => false

/-- Whether a list may begin here without indentation. -/
def allowsIndentless : Slot → Bool
  | .blockKey | .blockValue => true
  | _ => false

/-- Whether the token shows that no node is written here. -/
def isEmptyBefore : Slot → Token → Bool
  | .blockItem, .blockEntry | .blockItem, .blockEnd => true
  | .indentlessItem, .blockEntry | .indentlessItem, .key | .indentlessItem, .value
  | .indentlessItem, .blockEnd => true
  | .blockKey, .key | .blockKey, .value | .blockKey, .blockEnd => true
  | .blockValue, .key | .blockValue, .value | .blockValue, .blockEnd => true
  | .pairKey, .value | .pairKey, .flowEntry | .pairKey, .flowSequenceEnd => true
  | .pairValue, .flowEntry | .pairValue, .flowSequenceEnd => true
  | .flowKey, .value | .flowKey, .flowEntry | .flowKey, .flowMappingEnd => true
  | .flowValue, .flowEntry | .flowValue, .flowMappingEnd => true
  | .root true, .versionDirective _ _ | .root true, .tagDirective _ _ => true
  | _, _ => false

end Slot

/-- What may come next. -/
inductive Phase where
  | slot (s : Slot)
  /-- The content of a node whose properties have been read, at least in part. -/
  | content (s : Slot) (p : Properties)
  /-- What follows a member of the innermost open collection. -/
  | separator
  /-- Nothing: the document is complete. -/
  | done (n : Node)
  deriving Inhabited

structure Builder where
  directives : Directives
  /-- The numbers of the anchors that have been named. -/
  anchors : List (String × Nat) := []
  /-- Innermost first. -/
  stack : List Frame := []
  phase : Phase
  deriving Inhabited

/-- What a token does: it is taken, or the document was complete in front of it. -/
inductive Progress where
  | taken (b : Builder)
  | complete (n : Node)
  deriving Inhabited

namespace Builder

/-! ### Nodes -/

/-- Puts a finished node into the innermost open collection. -/
def accept (b : Builder) (n : Node) : Builder :=
  match b.stack with
  | [] => { b with phase := .done n }
  | .blockSequence p items :: fs =>
    { b with stack := .blockSequence p (n :: items) :: fs, phase := .separator }
  | .indentlessSequence p items :: fs =>
    { b with stack := .indentlessSequence p (n :: items) :: fs, phase := .separator }
  | .blockMapping p entries none :: fs =>
    { b with stack := .blockMapping p entries (some n) :: fs, phase := .separator }
  | .blockMapping p entries (some k) :: fs =>
    { b with stack := .blockMapping p ((k, n) :: entries) none :: fs, phase := .separator }
  | .flowSequence p items :: fs =>
    { b with stack := .flowSequence p (n :: items) :: fs, phase := .separator }
  | .flowPair none :: fs => { b with stack := .flowPair (some n) :: fs, phase := .separator }
  | .flowPair (some k) :: .flowSequence p items :: fs =>
    { b with
      stack := .flowSequence p (.mapping {} [(k, n)] :: items) :: fs, phase := .separator }
  | .flowPair (some _) :: fs => { b with stack := fs, phase := .separator }
  | .flowMapping p entries none true :: fs =>
    { b with
      stack := .flowMapping p ((n, .empty {}) :: entries) none false :: fs, phase := .separator }
  | .flowMapping p entries none false :: fs =>
    { b with stack := .flowMapping p entries (some n) false :: fs, phase := .separator }
  | .flowMapping p entries (some k) _ :: fs =>
    { b with stack := .flowMapping p ((k, n) :: entries) none false :: fs, phase := .separator }

/-- Closes the innermost open collection, of which `n` is the node. -/
def closeFrame (b : Builder) (n : Node) : Builder :=
  { b with stack := b.stack.tail }.accept n

def push (b : Builder) (f : Frame) (phase : Phase) : Builder :=
  { b with stack := f :: b.stack, phase }

/-- Gives the anchor the next number. -/
def nameAnchor (b : Builder) (name : String) : Builder × Nat :=
  let i := b.anchors.length
  ({ b with anchors := (name, i) :: b.anchors.filter (·.1 != name) }, i)

/-! ### Between members -/

/-- The separator in a block mapping whose last entry is complete. -/
def afterBlockEntry (b : Builder) (p : Properties) (entries : List (Node × Node)) :
    Token → Except Fault Builder
  | .key => .ok { b with phase := .slot .blockKey }
  | .blockEnd => .ok (b.closeFrame (.mapping p entries.reverse))
  | _ => .error .unexpectedToken

/-- The separator in a flow mapping whose last entry is complete. -/
def afterFlowEntry (b : Builder) (p : Properties) (entries : List (Node × Node)) :
    Token → Except Fault Builder
  | .flowEntry => .ok { b with phase := .slot .flowEntry }
  | .flowMappingEnd => .ok (b.closeFrame (.mapping p entries.reverse))
  | _ => .error .unexpectedToken

def afterFlowItem (b : Builder) (p : Properties) (items : List Node) :
    Token → Except Fault Builder
  | .flowEntry => .ok { b with phase := .slot .flowItem }
  | .flowSequenceEnd => .ok (b.closeFrame (.sequence p items.reverse))
  | _ => .error .unexpectedToken

/-- The separator in a block mapping: a key without a value has an empty one. -/
def inBlockMapping (b : Builder) (p : Properties) (entries : List (Node × Node))
    (key : Option Node) (fs : List Frame) (t : Token) : Except Fault Builder :=
  match key, t with
  | none, t => b.afterBlockEntry p entries t
  | some _, .value => .ok { b with phase := .slot .blockValue }
  | some k, t =>
    let entries := (k, .empty {}) :: entries
    { b with stack := .blockMapping p entries none :: fs }.afterBlockEntry p entries t

/-- What a token does behind a member of the innermost open collection. -/
def separate (b : Builder) (t : Token) : Except Fault Builder :=
  match b.stack with
  | [] => .error .unexpectedToken
  | .blockSequence p items :: _ =>
    match t with
    | .blockEntry => .ok { b with phase := .slot .blockItem }
    | .blockEnd => .ok (b.closeFrame (.sequence p items.reverse))
    | _ => .error .unexpectedToken
  | .indentlessSequence p items :: .blockMapping q entries key :: fs =>
    if t = .blockEntry then .ok { b with phase := .slot .indentlessItem }
    else
      let n : Node := .sequence p items.reverse
      match key with
      | none =>
        { b with stack := .blockMapping q entries (some n) :: fs }.inBlockMapping q entries
          (some n) fs t
      | some k =>
        { b with stack := .blockMapping q ((k, n) :: entries) none :: fs }.inBlockMapping q
          ((k, n) :: entries) none fs t
  | .indentlessSequence _ _ :: _ => .error .unexpectedToken
  | .blockMapping p entries key :: fs => b.inBlockMapping p entries key fs t
  | .flowSequence p items :: _ => b.afterFlowItem p items t
  | .flowPair (some k) :: .flowSequence p items :: fs =>
    if t = .value then .ok { b with phase := .slot .pairValue }
    else
      let items := .mapping {} [(k, .empty {})] :: items
      { b with stack := .flowSequence p items :: fs }.afterFlowItem p items t
  | .flowPair _ :: _ => .error .unexpectedToken
  | .flowMapping p entries none _ :: _ => b.afterFlowEntry p entries t
  | .flowMapping p entries (some k) _ :: fs =>
    if t = .value then .ok { b with phase := .slot .flowValue }
    else
      let entries := (k, .empty {}) :: entries
      { b with stack := .flowMapping p entries none false :: fs }.afterFlowEntry p entries t

/-- Puts in a node that is not written, and goes on with the token behind it. -/
def acceptEmpty (b : Builder) (p : Properties) (t : Token) : Except Fault Progress :=
  let b := b.accept (.empty p)
  match b.phase with
  | .done n => .ok (.complete n)
  | _ => (b.separate t).map .taken

/-! ### Where a node may begin -/

/-- Begins the content of a node, or finds that there is none. -/
def begin (b : Builder) (s : Slot) (p : Properties) (t : Token) : Except Fault Progress :=
  match t with
  | .scalar text plain => .ok (.taken (b.accept (.ofScalar p text plain)))
  | .flowSequenceStart => .ok (.taken (b.push (.flowSequence p []) (.slot .flowItem)))
  | .flowMappingStart => .ok (.taken (b.push (.flowMapping p [] none false) (.slot .flowEntry)))
  | .blockSequenceStart =>
    if s.allowsBlock then .ok (.taken (b.push (.blockSequence p []) .separator))
    else .error .unexpectedToken
  | .blockMappingStart =>
    if s.allowsBlock then .ok (.taken (b.push (.blockMapping p [] none) .separator))
    else .error .unexpectedToken
  | t =>
    if t = .blockEntry && s.allowsIndentless then
      .ok (.taken (b.push (.indentlessSequence p []) (.slot .indentlessItem)))
    else if p.anchor.isSome || p.tag.isSome then b.acceptEmpty p t
    else .error .unexpectedToken

/-- Reads a property of a node, or its content. A node has one anchor and one tag at most. -/
def property (b : Builder) (s : Slot) (p : Properties) (t : Token) : Except Fault Progress :=
  match t with
  | .anchor name =>
    if p.anchor.isNone then
      let (b, i) := b.nameAnchor name
      .ok (.taken { b with phase := .content s { p with anchor := some i } })
    else b.begin s p t
  | .tag handle suffix =>
    if p.tag.isNone then
      match b.directives.tag handle suffix with
      | .ok tag => .ok (.taken { b with phase := .content s { p with tag := some tag } })
      | .error e => .error e
    else b.begin s p t
  | t => b.begin s p t

/-- Reads an alias, or begins a node. An alias has no properties. -/
def node (b : Builder) (s : Slot) (t : Token) : Except Fault Progress :=
  match t with
  | .alias name =>
    match b.anchors.lookup name with
    | some i => .ok (.taken (b.accept (.alias i)))
    | none => .error .unknownAlias
  | t => b.property s {} t

/-- What a token does where a node may begin. -/
def start (b : Builder) (s : Slot) (t : Token) : Except Fault Progress :=
  if s.isEmptyBefore t then
    if s = .pairKey then .ok (.taken (b.accept (.empty {})))
    else b.acceptEmpty {} t
  else
    match s, b.stack, t with
    | .flowItem, .flowSequence p items :: _, .flowSequenceEnd =>
      .ok (.taken (b.closeFrame (.sequence p items.reverse)))
    | .flowItem, _, .key => .ok (.taken (b.push (.flowPair none) (.slot .pairKey)))
    | .flowEntry, .flowMapping p entries _ _ :: _, .flowMappingEnd =>
      .ok (.taken (b.closeFrame (.mapping p entries.reverse)))
    | .flowEntry, _, .key => .ok (.taken { b with phase := .slot .flowKey })
    | .flowEntry, .flowMapping p entries key _ :: fs, t =>
      { b with stack := .flowMapping p entries key true :: fs }.node s t
    | s, _, t => b.node s t

/-- What a token does. -/
def feed (b : Builder) (t : Token) : Except Fault Progress :=
  match b.phase with
  | .slot s => b.start s t
  | .content s p => b.property s p t
  | .separator => (b.separate t).map .taken
  | .done n => .ok (.complete n)

/-- The document if it is complete at the end of the tokens. -/
def finish (b : Builder) : Except Fault Node :=
  match b.phase with
  | .done n => .ok n
  | .slot (.root true) => .ok (.empty {})
  | .content (.root _) p => .ok (.empty p)
  | _ => .error .unexpectedToken

/-- Takes tokens until the document is complete; what is left of them comes with it. -/
def read (b : Builder) : List Token → Except Fault (Node × List Token)
  | [] => b.finish.map (·, [])
  | t :: ts =>
    match b.feed t with
    | .ok (.taken b) => b.read ts
    | .ok (.complete n) => .ok (n, t :: ts)
    | .error e => .error e

end Builder

namespace Node

/-- The document at the front of the tokens, which may be missing behind a document mark. -/
def ofTokens (d : Directives) (afterMark : Bool) (tokens : List Token) :
    Except Fault (Node × List Token) :=
  Builder.read { directives := d, phase := .slot (.root afterMark) } tokens

end Node

end ShutdownLint.Yaml

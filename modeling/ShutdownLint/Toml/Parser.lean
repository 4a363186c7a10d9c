import ShutdownLint.Toml.Scalar
import ShutdownLint.Toml.Token
/-!
TOML texts as tables.

A text is a sequence of lines with headers and pairs of a key and a value. The arrays and inline
tables that are open form a stack, on which the keys of the pairs lie, too, while their values are
being read. At most 80 arrays and inline tables may be open at a time.
-/

set_option autoImplicit false

namespace ShutdownLint.Toml

/-! ### States -/

/-- A key with its parts in reverse, at least one. -/
structure Key where
  last : String
  /-- The parts in front of the last one, which are read from right to left. -/
  parents : List String
  deriving DecidableEq, Inhabited

namespace Key

def path (k : Key) : List String :=
  k.parents.reverse

def parts (k : Key) : List String :=
  k.last :: k.parents

end Key

inductive Frame where
  /-- An array, its items in reverse. -/
  | array (read : List Value)
  /-- An inline table. -/
  | table (t : Value)
  /-- A pair in the inline table below, or in the document if there is none. -/
  | pair (key : Key)
  deriving Inhabited

/-- What a key is for. -/
inductive KeyUse where
  | pair
  | header
  | elementHeader
  deriving DecidableEq, Inhabited, Repr

/-- What may come next. -/
inductive Place where
  /-- The beginning of a line. -/
  | line
  /-- Directly behind the bracket that opens a header. -/
  | header
  /-- A part of a key, behind those in the list, which is in reverse. -/
  | keyPart (use : KeyUse) (before : List String)
  /-- What follows a part of a key. -/
  | keyEnd (use : KeyUse) (key : Key)
  /-- The second of the two brackets that close a header. -/
  | secondBracket (key : Key)
  | value
  /-- More of a value that is a word, which is in reverse. -/
  | word (read : List Char)
  /-- What follows a date and a space, which may be a time. -/
  | time (date : List Char)
  /-- What follows an item of an array or a pair of an inline table. -/
  | separator
  /-- The end of a line. -/
  | lineEnd
  deriving Inhabited

structure Parser where
  document : Value
  /-- The path to the table that the pairs of the document belong to. -/
  current : List String
  frames : List Frame
  place : Place
  deriving Inhabited

namespace Parser

def initial : Parser where
  document := .table .header []
  current := []
  frames := []
  place := .line

/-! ### Values -/

/-- How many arrays and inline tables may be open. -/
def nestingLimit : Nat := 80

def isCollection : Frame → Bool
  | .pair _ => false
  | _ => true

/-- Opens an array or an inline table. -/
def openFrame (s : Parser) (f : Frame) (place : Place) : Option Parser :=
  let frames := f :: s.frames
  if frames.countP isCollection ≤ nestingLimit then some { s with frames, place } else none

/-- Adds a pair to the document. -/
def addPair (s : Parser) (key : Key) (v : Value) : Option Parser := do
  let document ← s.document.update false (·.put key.path key.last v) s.current
  return { s with document, frames := [], place := .lineEnd }

/-- Puts a complete value where it belongs. -/
def complete (s : Parser) (v : Value) : Option Parser :=
  match s.frames with
  | .array read :: frames =>
    some { s with frames := .array (v :: read) :: frames, place := .separator }
  | .pair key :: .table t :: frames => do
    let t ← t.put key.path key.last v
    return { s with frames := .table t :: frames, place := .separator }
  | [.pair key] => s.addPair key v
  | _ => none

/-- Closes an array or an inline table. -/
def closeFrame (s : Parser) (t : Token) : Option Parser :=
  match t, s.frames with
  | .closeBracket, .array read :: frames =>
    complete { s with frames } (.array false read.reverse)
  | .closeBrace, .table t :: frames => complete { s with frames } t
  | _, _ => none

/-- Ends a value that is a word. -/
def completeWord (s : Parser) (read : List Char) : Option Parser :=
  (readScalar? read.reverse).bind s.complete

def stepValue (s : Parser) (t : Token) : Option Parser :=
  match t with
  | .space => some s
  | .newline =>
    match s.frames with
    | .array _ :: _ => some s
    | _ => none
  | .word cs => some { s with place := .word cs.reverse }
  | .string _ text => s.complete (.string text)
  | .openBracket => s.openFrame (.array []) .value
  | .openBrace => s.openFrame (.table (.table .inline [])) (.keyPart .pair [])
  | t => s.closeFrame t

/-- Reads what follows an item or pair: a comma, or the end of the collection. -/
def stepSeparator (s : Parser) (t : Token) : Option Parser :=
  match t, s.frames with
  | .space, _ => some s
  | .newline, _ => some s
  | .comma, .array _ :: _ => some { s with place := .value }
  | .comma, .table _ :: _ => some { s with place := .keyPart .pair [] }
  | t, _ => s.closeFrame t

def stepLineEnd (s : Parser) : Token → Option Parser
  | .space => some s
  | .newline => some { s with place := .line }
  | _ => none

/-- Reads what follows a value. -/
def stepBehindValue (s : Parser) (t : Token) : Option Parser :=
  match s.place with
  | .separator => s.stepSeparator t
  | .lineEnd => s.stepLineEnd t
  | _ => none

/-- Goes on with a word. Only a date may have a space in it. -/
def stepWord (s : Parser) (read : List Char) (t : Token) : Option Parser :=
  match t with
  | .word cs => some { s with place := .word (cs.reverse ++ read) }
  | .dot => some { s with place := .word ('.' :: read) }
  | .space =>
    if isDate read.reverse then some { s with place := .time read }
    else s.completeWord read
  | t => (s.completeWord read).bind (·.stepBehindValue t)

/-- Reads what follows a date and a space. -/
def stepTime (s : Parser) (date : List Char) (t : Token) : Option Parser :=
  match t with
  | .word cs => some { s with place := .word (cs.reverse ++ ' ' :: date) }
  | t => (s.completeWord date).bind (·.stepBehindValue t)

/-! ### Keys and headers -/

def isBareKeyChar (c : Char) : Bool :=
  ('0' ≤ c && c ≤ '9') || ('A' ≤ c && c ≤ 'Z') || ('a' ≤ c && c ≤ 'z') || c == '_' || c == '-'

/-- A part of a key: a word of certain characters or a string of one line. -/
def keyPart? : Token → Option String
  | .word cs => if cs.all isBareKeyChar then some (String.ofList cs) else none
  | .string false s => some s
  | _ => none

/-- Reads a part of a key. In an inline table the end of the table may come instead. -/
def stepKeyPart (s : Parser) (use : KeyUse) (before : List String) (t : Token) : Option Parser :=
  match keyPart? t, t with
  | some part, _ => some { s with place := .keyEnd use ⟨part, before⟩ }
  | none, .space => some s
  | none, .newline =>
    match s.frames, before with
    | .table _ :: _, [] => some s
    | _, _ => none
  | none, t => if before.isEmpty && use == .pair then s.closeFrame t else none

/-- Begins the table or the element that a header names. -/
def completeHeader (s : Parser) (key : Key)
    (start : Value → List String → String → Option Value) : Option Parser := do
  let document ← start s.document key.path key.last
  return { s with document, current := key.parts.reverse, place := .lineEnd }

def stepKeyEnd (s : Parser) (use : KeyUse) (key : Key) (t : Token) : Option Parser :=
  match t, use with
  | .space, _ => some s
  | .dot, _ => some { s with place := .keyPart use key.parts }
  | .equals, .pair => some { s with frames := .pair key :: s.frames, place := .value }
  | .closeBracket, .header => s.completeHeader key Value.beginTable
  | .closeBracket, .elementHeader => some { s with place := .secondBracket key }
  | _, _ => none

def stepHeader (s : Parser) : Token → Option Parser
  | .openBracket => some { s with place := .keyPart .elementHeader [] }
  | t => s.stepKeyPart .header [] t

def stepLine (s : Parser) (t : Token) : Option Parser :=
  match t with
  | .space => some s
  | .newline => some s
  | .openBracket => some { s with place := .header }
  | t => s.stepKeyPart .pair [] t

/-! ### The whole text -/

def step (s : Parser) (t : Token) : Option Parser :=
  match s.place with
  | .line => s.stepLine t
  | .header =>
    match t with
    | .space => some { s with place := .keyPart .header [] }
    | t => s.stepHeader t
  | .keyPart use before => s.stepKeyPart use before t
  | .keyEnd use key => s.stepKeyEnd use key t
  | .secondBracket key =>
    match t with
    | .closeBracket => s.completeHeader key Value.beginElement
    | _ => none
  | .value => s.stepValue t
  | .word read => s.stepWord read t
  | .time date => s.stepTime date t
  | .separator => s.stepSeparator t
  | .lineEnd => s.stepLineEnd t

end Parser

/-- The table that a text spells. -/
def parse? (text : String) : Option Value := do
  let tokens ← tokens? text.toList
  let s ← tokens.foldlM Parser.step Parser.initial
  match s.place with
  | .line => return s.document
  | _ => none

end ShutdownLint.Toml

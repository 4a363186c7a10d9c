import ShutdownLint.Json.Token
/-!
JSON texts as values.

The collections that have been opened form a stack, and each token either adds to the innermost one,
opens another one inside it or closes it.
-/

set_option autoImplicit false

namespace ShutdownLint.Json

/-- A collection that has been opened, its members so far in reverse. -/
inductive Frame where
  | array (read : List Json)
  | object (read : List (String × Json))
  /-- An object, and the name of the member of which the value is being read. -/
  | member (read : List (String × Json)) (name : String)
  deriving Inhabited

/-- What may come next. -/
inductive Expectation where
  | value
  | valueOrClose
  | name
  | nameOrClose
  | colon
  | commaOrClose
  deriving DecidableEq, Inhabited

inductive Builder where
  | reading (frames : List Frame) (next : Expectation)
  | done (v : Json)
  deriving Inhabited

namespace Builder

def initial : Builder :=
  reading [] .value

/-- Puts a complete value where it belongs. -/
def complete (v : Json) : List Frame → Option Builder
  | [] => some (done v)
  | .array read :: frames => some (reading (.array (v :: read) :: frames) .commaOrClose)
  | .member read name :: frames =>
    some (reading (.object ((name, v) :: read) :: frames) .commaOrClose)
  | .object _ :: _ => none

/-- Reads the first token of a value. -/
def beginValue (frames : List Frame) : Token → Option Builder
  | .openArray => some (reading (.array [] :: frames) .valueOrClose)
  | .openObject => some (reading (.object [] :: frames) .nameOrClose)
  | .string s => complete (.string s) frames
  | .word v => complete v frames
  | _ => none

def beginMember (frames : List Frame) : Token → Option Builder
  | .string s =>
    match frames with
    | .object read :: frames => some (reading (.member read s :: frames) .colon)
    | _ => none
  | _ => none

/-- Closes the innermost collection. -/
def close (frames : List Frame) : Token → Option Builder
  | .closeArray =>
    match frames with
    | .array read :: frames => complete (.array read.reverse) frames
    | _ => none
  | .closeObject =>
    match frames with
    | .object read :: frames => complete (.object read.reverse) frames
    | _ => none
  | _ => none

/-- What a comma is followed by. -/
def continueWith : List Frame → Expectation
  | .object _ :: _ => .name
  | _ => .value

def step : Builder → Token → Option Builder
  | done _, _ => none
  | reading frames next, t =>
    match next with
    | .value => beginValue frames t
    | .valueOrClose => (beginValue frames t).or (close frames t)
    | .name => beginMember frames t
    | .nameOrClose => (beginMember frames t).or (close frames t)
    | .colon =>
      match t with
      | .colon => some (reading frames .value)
      | _ => none
    | .commaOrClose =>
      match t with
      | .comma => some (reading frames (continueWith frames))
      | t => close frames t

def result? : Builder → Option Json
  | done v => some v
  | reading _ _ => none

end Builder

/-- The value that tokens spell. -/
def ofTokens? (tokens : List Token) : Option Json :=
  (tokens.foldlM Builder.step Builder.initial).bind Builder.result?

/-- The value that a text spells. -/
def parse? (text : String) : Option Json :=
  (tokens? text.toList).bind ofTokens?

end ShutdownLint.Json

import ShutdownLint.Decimal.Digits
import ShutdownLint.Json.Basic
import ShutdownLint.Json.Quoted
/-!
The tokens of a JSON text.

The text is read one character at a time. A run of characters that are neither punctuation nor space
nor quotes is a word, and has to be a literal or a number.
-/

set_option autoImplicit false

namespace ShutdownLint.Json

open Decimal (isDigit)

inductive Token where
  | openArray
  | closeArray
  | openObject
  | closeObject
  | comma
  | colon
  /-- A string, which may turn out to be the name of a member. -/
  | string (s : String)
  /-- A value without members that is no string. -/
  | word (v : Json)
  deriving Inhabited

namespace Token

def ofPunctuation? : Char → Option Token
  | '[' => some openArray
  | ']' => some closeArray
  | '\x7b' => some openObject
  | '\x7d' => some closeObject
  | ',' => some comma
  | ':' => some colon
  | _ => none

end Token

def isSpace (c : Char) : Bool :=
  c == ' ' || c == '\t' || c == '\n' || c == '\r'

/-! ### Words -/

/-- One digit or more. -/
def areDigits (cs : List Char) : Bool :=
  !cs.isEmpty && cs.all isDigit

/-- The end of a number: nothing, or an exponent. -/
def isExponent : List Char → Bool
  | [] => true
  | e :: cs =>
    (e == 'e' || e == 'E') &&
      match cs with
      | '+' :: ds => areDigits ds
      | '-' :: ds => areDigits ds
      | ds => areDigits ds

/-- What follows the whole part of a number. -/
def isFraction : List Char → Bool
  | '.' :: cs => !(cs.takeWhile isDigit).isEmpty && isExponent (cs.dropWhile isDigit)
  | cs => isExponent cs

def isUnsignedNumber : List Char → Bool
  | '0' :: cs => isFraction cs
  | c :: cs => isDigit c && isFraction (cs.dropWhile isDigit)
  | [] => false

def isNumber : List Char → Bool
  | '-' :: cs => isUnsignedNumber cs
  | cs => isUnsignedNumber cs

def ofWord? (cs : List Char) : Option Json :=
  if cs = ['n', 'u', 'l', 'l'] then some null
  else if cs = ['t', 'r', 'u', 'e'] then some (bool true)
  else if cs = ['f', 'a', 'l', 's', 'e'] then some (bool false)
  else if isNumber cs then some (number (String.ofList cs))
  else none

/-! ### The lexer -/

/-- What is being read; what has been read of it is in reverse. -/
inductive Lexeme where
  | nothing
  | word (read : List Char)
  | string (read : List Char) (escape : Escape)
  deriving Inhabited

structure Lexer where
  lexeme : Lexeme
  /-- The tokens so far, the last one first. -/
  tokens : List Token
  deriving Inhabited

namespace Lexer

def initial : Lexer :=
  ⟨.nothing, []⟩

/-- Reads a character that is not inside of a token. -/
def begin (tokens : List Token) (c : Char) : Lexer :=
  if isSpace c then ⟨.nothing, tokens⟩
  else if c = '\x22' then ⟨.string [] .outside, tokens⟩
  else
    match Token.ofPunctuation? c with
    | some t => ⟨.nothing, t :: tokens⟩
    | none => ⟨.word [c], tokens⟩

def endsWord (c : Char) : Bool :=
  isSpace c || c == '\x22' || (Token.ofPunctuation? c).isSome

def step (s : Lexer) (c : Char) : Option Lexer :=
  match s.lexeme with
  | .nothing => some (begin s.tokens c)
  | .word read =>
    if endsWord c then (ofWord? read.reverse).map fun v ↦ begin (.word v :: s.tokens) c
    else some { s with lexeme := .word (c :: read) }
  | .string read .outside =>
    if c = '\x22' then some ⟨.nothing, .string (String.ofList read.reverse) :: s.tokens⟩
    else (Escape.step .outside c).map fun (d, e) ↦
      { s with lexeme := .string (d.toList ++ read) e }
  | .string read escape =>
    (escape.step c).map fun (d, e) ↦ { s with lexeme := .string (d.toList ++ read) e }

/-- The tokens at the end of the text. -/
def finish (s : Lexer) : Option (List Token) :=
  match s.lexeme with
  | .nothing => some s.tokens.reverse
  | .word read => (ofWord? read.reverse).map fun v ↦ (.word v :: s.tokens).reverse
  | .string _ _ => none

end Lexer

/-- The tokens of a text. -/
def tokens? (text : List Char) : Option (List Token) :=
  (text.foldlM Lexer.step Lexer.initial).bind Lexer.finish

end ShutdownLint.Json

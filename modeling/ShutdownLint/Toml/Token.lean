import ShutdownLint.Text.Hexadecimal
/-!
The tokens of a TOML text.

The text is read one character at a time. Strings are tokens with their escapes resolved; comments
are left out, and so is the byte-order mark in front. Spaces and tabs are tokens, because a header
of an array of tables must not have any between its brackets and a date may have one behind it. All
other runs of characters are words, whose meaning depends on their place.
-/

set_option autoImplicit false

namespace ShutdownLint.Toml

inductive Token where
  | space
  | newline
  | dot
  | equals
  | comma
  | openBracket
  | closeBracket
  | openBrace
  | closeBrace
  | word (cs : List Char)
  | string (multiline : Bool) (s : String)
  deriving DecidableEq, Inhabited

namespace Token

def ofPunctuation? : Char → Option Token
  | ' ' => some space
  | '\t' => some space
  | '\n' => some newline
  | '.' => some dot
  | '=' => some equals
  | ',' => some comma
  | '[' => some openBracket
  | ']' => some closeBracket
  | '\x7b' => some openBrace
  | '\x7d' => some closeBrace
  | _ => none

end Token

/-- The characters of comments and strings: all but the control characters, tabs excepted. -/
def isPrintable (c : Char) : Bool :=
  c == '\t' || (0x20 ≤ c.toNat && c.toNat != 0x7F)

/-- A kind of strings. -/
structure Quotes where
  /-- The quotation mark or the apostrophe. -/
  mark : Char
  multiline : Bool
  deriving DecidableEq, Inhabited

/-- Apostrophes make backslashes ordinary characters. -/
def Quotes.hasEscapes (q : Quotes) : Bool :=
  q.mark == '\x22'

/-- Where in a string the reader is. -/
inductive StringState where
  | inside
  /-- Directly behind the quotes that open a string of several lines. -/
  | first
  /-- Behind a carriage return, which has to be followed by a line feed. -/
  | afterReturn (atFirst : Bool)
  /-- Behind some quotation marks in a string of several lines. -/
  | marks (count : Nat)
  | backslash
  /-- In an escape that names a character by its number. -/
  | number (missing value : Nat)
  /-- In the white space that a backslash removes, which has to hold the end of a line. -/
  | gap (hasBreak afterReturn : Bool)
  deriving DecidableEq, Inhabited

/-- What is being read; what has been read of it is in reverse. -/
inductive Lexeme where
  | nothing
  | comment
  /-- A carriage return outside of strings. -/
  | afterReturn
  | word (read : List Char)
  /-- One or two marks that may begin a string. -/
  | opening (mark : Char) (two : Bool)
  | string (quotes : Quotes) (read : List Char) (state : StringState)
  deriving Inhabited

structure Lexer where
  lexeme : Lexeme
  /-- The tokens so far, the last one first. -/
  tokens : List Token
  deriving Inhabited

namespace Lexer

def initial : Lexer :=
  ⟨.nothing, []⟩

/-- Reads a character outside of strings, comments and words. -/
def begin (tokens : List Token) (c : Char) : Lexer :=
  match Token.ofPunctuation? c with
  | some t => ⟨.nothing, t :: tokens⟩
  | none =>
    if c = '#' then ⟨.comment, tokens⟩
    else if c = '\r' then ⟨.afterReturn, tokens⟩
    else if c = '\x22' || c = '\x27' then ⟨.opening c false, tokens⟩
    else ⟨.word [c], tokens⟩

def endsWord (c : Char) : Bool :=
  (Token.ofPunctuation? c).isSome || c == '#' || c == '\r' || c == '\x22' || c == '\x27'

/-! ### Strings -/

/-- The character for a letter behind a backslash. -/
def letter? : Char → Option Char
  | 'b' => some '\x08'
  | 't' => some '\t'
  | 'n' => some '\n'
  | 'f' => some '\x0c'
  | 'r' => some '\r'
  | 'e' => some '\x1b'
  | '\x22' => some '\x22'
  | '\\' => some '\\'
  | _ => none

/-- How many digits follow a letter behind a backslash. -/
def numberLength? : Char → Option Nat
  | 'x' => some 2
  | 'u' => some 4
  | 'U' => some 8
  | _ => none

/-- Reads a character that is not at a special place. -/
def stepInside (q : Quotes) (read : List Char) (c : Char) (tokens : List Token) : Option Lexer :=
  if c = q.mark then
    if q.multiline then some ⟨.string q read (.marks 1), tokens⟩
    else some ⟨.nothing, .string false (String.ofList read.reverse) :: tokens⟩
  else if c = '\\' ∧ q.hasEscapes then some ⟨.string q read .backslash, tokens⟩
  else if c = '\n' ∧ q.multiline then some ⟨.string q ('\n' :: read) .inside, tokens⟩
  else if c = '\r' ∧ q.multiline then some ⟨.string q read (.afterReturn false), tokens⟩
  else if isPrintable c then some ⟨.string q (c :: read) .inside, tokens⟩
  else none

/-- Reads a character behind `count` marks. Three of them end the string, and up to two in front of
these belong to it. -/
def stepMarks (q : Quotes) (read : List Char) (count : Nat) (c : Char) (tokens : List Token) :
    Option Lexer :=
  let marks (n : Nat) : List Char := List.replicate n q.mark
  let closed (n : Nat) : Token := .string true (String.ofList (marks (n - 3) ++ read).reverse)
  if c = q.mark then
    if count < 4 then some ⟨.string q read (.marks (count + 1)), tokens⟩
    else some ⟨.nothing, closed 5 :: tokens⟩
  else if count < 3 then stepInside q (marks count ++ read) c tokens
  else some (begin (closed count :: tokens) c)

/-- Reads a character behind a backslash. -/
def stepBackslash (q : Quotes) (read : List Char) (c : Char) (tokens : List Token) :
    Option Lexer :=
  match letter? c, numberLength? c with
  | some d, _ => some ⟨.string q (d :: read) .inside, tokens⟩
  | none, some n => some ⟨.string q read (.number n 0), tokens⟩
  | none, none =>
    if !q.multiline then none
    else if c = ' ' || c = '\t' then some ⟨.string q read (.gap false false), tokens⟩
    else if c = '\n' then some ⟨.string q read (.gap true false), tokens⟩
    else if c = '\r' then some ⟨.string q read (.gap true true), tokens⟩
    else none

/-- Reads a digit of a character number. -/
def stepNumber (q : Quotes) (read : List Char) (missing value : Nat) (c : Char)
    (tokens : List Token) : Option Lexer := do
  let digit ← Text.hexDigit? c
  let value := 16 * value + digit
  if 1 < missing then return ⟨.string q read (.number (missing - 1) value), tokens⟩
  else if Nat.isValidChar value then return ⟨.string q (Char.ofNat value :: read) .inside, tokens⟩
  else none

/-- Reads a character in white space that does not count. -/
def stepGap (q : Quotes) (read : List Char) (hasBreak afterReturn : Bool) (c : Char)
    (tokens : List Token) : Option Lexer :=
  if c = '\n' then some ⟨.string q read (.gap true false), tokens⟩
  else if afterReturn then none
  else if c = '\r' then some ⟨.string q read (.gap true true), tokens⟩
  else if c = ' ' || c = '\t' then some ⟨.string q read (.gap hasBreak false), tokens⟩
  else if hasBreak then stepInside q read c tokens
  else none

def stepString (q : Quotes) (read : List Char) (state : StringState) (c : Char)
    (tokens : List Token) : Option Lexer :=
  match state with
  | .inside => stepInside q read c tokens
  | .first =>
    if c = '\n' then some ⟨.string q [] .inside, tokens⟩
    else if c = '\r' then some ⟨.string q [] (.afterReturn true), tokens⟩
    else stepInside q read c tokens
  | .afterReturn atFirst =>
    if c = '\n' then some ⟨.string q (if atFirst then [] else '\n' :: read) .inside, tokens⟩
    else none
  | .marks count => stepMarks q read count c tokens
  | .backslash => stepBackslash q read c tokens
  | .number missing value => stepNumber q read missing value c tokens
  | .gap hasBreak afterReturn => stepGap q read hasBreak afterReturn c tokens

/-- Reads a character behind one or two marks. -/
def stepOpening (mark : Char) (two : Bool) (c : Char) (tokens : List Token) : Option Lexer :=
  match two, c == mark with
  | false, true => some ⟨.opening mark true, tokens⟩
  | true, true => some ⟨.string ⟨mark, true⟩ [] .first, tokens⟩
  | false, false => stepInside ⟨mark, false⟩ [] c tokens
  | true, false => some (begin (.string false "" :: tokens) c)

/-! ### The whole text -/

def step (s : Lexer) (c : Char) : Option Lexer :=
  match s.lexeme with
  | .nothing => some (begin s.tokens c)
  | .comment =>
    if c = '\n' || c = '\r' then some (begin s.tokens c)
    else if isPrintable c then some s
    else none
  | .afterReturn => if c = '\n' then some ⟨.nothing, .newline :: s.tokens⟩ else none
  | .word read =>
    if endsWord c then some (begin (.word read.reverse :: s.tokens) c)
    else some ⟨.word (c :: read), s.tokens⟩
  | .opening mark two => stepOpening mark two c s.tokens
  | .string q read state => stepString q read state c s.tokens

end Lexer

def withoutMark : List Char → List Char
  | '\ufeff' :: cs => cs
  | cs => cs

/-- The tokens of a text. The end of the text counts as the end of a line, but it is not the line
feed that a carriage return needs. -/
def tokens? (text : List Char) : Option (List Token) := do
  guard (text.getLast? != some '\r')
  let s ← (withoutMark text ++ ['\n']).foldlM Lexer.step Lexer.initial
  match s.lexeme with
  | .nothing => return s.tokens.reverse
  | _ => none

end ShutdownLint.Toml

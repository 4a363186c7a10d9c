import ShutdownLint.Decimal.Digits
import ShutdownLint.Text.Hexadecimal
/-!
The characters of a YAML stream and places in it.

A stream holds printable characters only. It is cut into lines at five single breaks and at the
pair of carriage return and line feed; `loadedBreak` is what a break leaves in a scalar that keeps
it. A `Cursor` is what is still unread together with the place where it begins, and every move of
a cursor leaves a suffix behind.
-/

set_option autoImplicit false

namespace ShutdownLint.Yaml

def isPrintable (c : Char) : Bool :=
  c == '\t' || c == '\n' || c == '\r' || (' ' ≤ c && c ≤ '~') || c == '\u0085'
    || ('\u00a0' ≤ c && c ≤ '\ufffd') || 0x10000 ≤ c.toNat

def isBreak (c : Char) : Bool :=
  c == '\n' || c == '\r' || c == '\u0085' || c == '\u2028' || c == '\u2029'

def isBlank (c : Char) : Bool :=
  c == ' ' || c == '\t'

/-- The break as part of a scalar: all but the two Unicode separators become a line feed. -/
def loadedBreak (c : Char) : Char :=
  if c == '\u2028' || c == '\u2029' then c else '\n'

/-- Whether a word that ends here ends properly: the text is over, or a blank or break follows. -/
def atBoundary : List Char → Bool
  | [] => true
  | c :: _ => isBlank c || isBreak c

/-- The letters of anchors, tag handles and directive names. -/
def isWordChar (c : Char) : Bool :=
  ('0' ≤ c && c ≤ '9') || ('A' ≤ c && c ≤ 'Z') || ('a' ≤ c && c ≤ 'z') || c == '_' || c == '-'

/-- A place in a text; all three numbers count from zero and in characters. -/
structure Position where
  index : Nat := 0
  line : Nat := 0
  column : Nat := 0
  deriving DecidableEq, Inhabited

namespace Position

def right (p : Position) (n : Nat) : Position :=
  { p with index := p.index + n, column := p.column + n }

/-- The start of the next line, behind a break of `width` characters. -/
def down (p : Position) (width : Nat) : Position :=
  { index := p.index + width, line := p.line + 1, column := 0 }

end Position

/-- The unread rest of a text and the place where it begins. -/
structure Cursor where
  rest : List Char
  position : Position := {}
  deriving DecidableEq, Inhabited

namespace Cursor

/-- Moves over `n` characters of one line. -/
def advance (c : Cursor) (n : Nat) : Cursor :=
  { rest := c.rest.drop n, position := c.position.right n }

/-- Moves over the characters in front that satisfy `p`, none of which may be a break. -/
def skipWhile (c : Cursor) (p : Char → Bool) : Cursor :=
  c.advance (c.rest.takeWhile p).length

def skipBlanks (c : Cursor) : Cursor :=
  c.skipWhile isBlank

/-- Moves over a comment if one begins here. -/
def skipComment (c : Cursor) : Cursor :=
  match c.rest with
  | '#' :: _ => c.skipWhile fun x ↦ !isBreak x
  | _ => c

/-- Moves over the break in front, if there is one. -/
def skipBreak (c : Cursor) : Cursor :=
  match c.rest with
  | '\r' :: '\n' :: r => { rest := r, position := c.position.down 2 }
  | b :: r => if isBreak b then { rest := r, position := c.position.down 1 } else c
  | [] => c

theorem length_rest_advance_le (c : Cursor) (n : Nat) :
    (c.advance n).rest.length ≤ c.rest.length := by
  simp [advance]

theorem length_rest_skipWhile_le (c : Cursor) (p : Char → Bool) :
    (c.skipWhile p).rest.length ≤ c.rest.length :=
  c.length_rest_advance_le _

theorem length_rest_skipComment_le (c : Cursor) : c.skipComment.rest.length ≤ c.rest.length := by
  unfold skipComment
  split
  · exact c.length_rest_skipWhile_le _
  · exact Nat.le_refl _

theorem length_rest_skipBreak_le (c : Cursor) : c.skipBreak.rest.length ≤ c.rest.length := by
  unfold skipBreak
  split
  · rename_i h
    simp only [h, List.length_cons]
    omega
  · rename_i h
    split
    · simp [h]
    · exact Nat.le_refl _
  · exact Nat.le_refl _

end Cursor

end ShutdownLint.Yaml

import ShutdownLint.Calendar
import ShutdownLint.Text.Hexadecimal
import ShutdownLint.Toml.Value
/-!
The values that are written as a word: booleans, numbers, dates and times.

Digits may be grouped by single underscores between them, and a decimal number does not begin with a
zero unless this is all there is in front of the point. A whole number fits in 128 bits and a
floating-point number is finite if it is written in digits.
-/

set_option autoImplicit false

namespace ShutdownLint.Toml

open Decimal (Binary64 isDigit twoTo value)

/-! ### Numbers -/

/-- Digits of some kind, at least one, with single underscores between some of them. -/
def areGrouped (isDigit : Char → Bool) : List Char → Bool
  | [] => false
  | [d] => isDigit d
  | d :: '_' :: cs => isDigit d && areGrouped isDigit cs
  | d :: cs => isDigit d && areGrouped isDigit cs

def withoutUnderscores (cs : List Char) : List Char :=
  cs.filter (· != '_')

/-- The number that grouped digits of a base spell. -/
def readBased? (base : Nat) (cs : List Char) : Option Nat :=
  if areGrouped (fun c ↦ (Text.hexDigit? c).any (· < base)) cs then
    some ((withoutUnderscores cs).foldl (fun n c ↦ base * n + (Text.hexDigit? c).getD 0) 0)
  else none

/-- Grouped decimal digits that do not begin with a zero unless it is the only one. -/
def isWhole (cs : List Char) : Bool :=
  areGrouped isDigit cs && (cs.head? != some '0' || cs.length == 1)

/-- What is in front of the first character with a property, and what begins there. -/
def cutAt (p : Char → Bool) (cs : List Char) : List Char × List Char :=
  (cs.takeWhile (!p ·), cs.dropWhile (!p ·))

/-- A sign and the text behind it; the sign may be missing. -/
def splitSign : List Char → Bool × List Char
  | '-' :: cs => (true, cs)
  | '+' :: cs => (false, cs)
  | cs => (false, cs)

def isExponentMark (c : Char) : Bool :=
  c == 'e' || c == 'E'

/-- Whether a text without its sign is a decimal with a fraction or an exponent or both. -/
def isFloat (cs : List Char) : Bool :=
  let (mantissa, exponent) := cutAt isExponentMark cs
  let (whole, fraction) := cutAt (· == '.') mantissa
  isWhole whole && !(fraction.isEmpty && exponent.isEmpty) &&
    (fraction.isEmpty || areGrouped isDigit (fraction.drop 1)) &&
    (exponent.isEmpty || areGrouped isDigit (splitSign (exponent.drop 1)).2)

/-- A whole number in 128 bits. Without a minus sign one bit more is available. -/
def ofMagnitude (negative : Bool) (n : Nat) : Option Value :=
  if negative then if n ≤ twoTo 127 then some (.integer (-n)) else none
  else if n < twoTo 128 then some (.integer n) else none

def readNumber? (cs : List Char) : Option Value :=
  let (negative, digits) := splitSign cs
  match cs with
  | '0' :: 'x' :: r => (readBased? 16 r).bind (ofMagnitude false)
  | '0' :: 'o' :: r => (readBased? 8 r).bind (ofMagnitude false)
  | '0' :: 'b' :: r => (readBased? 2 r).bind (ofMagnitude false)
  | _ =>
    if digits = ['i', 'n', 'f'] then some (.float (.infinity negative))
    else if digits = ['n', 'a', 'n'] then some (.float .nan)
    else if isWhole digits then ofMagnitude negative (value (withoutUnderscores digits))
    else if isFloat digits then
      ((Binary64.read? (withoutUnderscores cs)).filter Binary64.isFinite).map .float
    else none

/-! ### Dates and times -/

/-- A date, without anything behind it. -/
def isDate : List Char → Bool
  | [y₁, y₂, y₃, y₄, '-', m₁, m₂, '-', d₁, d₂] =>
    [y₁, y₂, y₃, y₄, m₁, m₂, d₁, d₂].all isDigit &&
      decide (Calendar.IsDate (value [y₁, y₂, y₃, y₄]) (value [m₁, m₂]) (value [d₁, d₂]))
  | _ => false

def isOffset : List Char → Bool
  | [] => true
  | ['Z'] => true
  | ['z'] => true
  | [sign, h₁, h₂, ':', m₁, m₂] =>
    (sign == '+' || sign == '-') && [h₁, h₂, m₁, m₂].all isDigit && value [h₁, h₂] < 24 &&
      value [m₁, m₂] < 60
  | _ => false

/-- What may follow the seconds of a time: decimals. What follows these is `tail`. -/
def isFractionThen (tail : List Char → Bool) : List Char → Bool
  | '.' :: cs => !(cs.takeWhile isDigit).isEmpty && tail (cs.dropWhile isDigit)
  | cs => tail cs

/-- A time of day, where the seconds may be missing, and what follows it. -/
def isTimeThen (tail : List Char → Bool) : List Char → Bool
  | h₁ :: h₂ :: ':' :: m₁ :: m₂ :: cs =>
    [h₁, h₂, m₁, m₂].all isDigit && value [h₁, h₂] < 24 && value [m₁, m₂] < 60 &&
      match cs with
      | ':' :: s₁ :: s₂ :: cs =>
        [s₁, s₂].all isDigit && value [s₁, s₂] ≤ 60 && isFractionThen tail cs
      | cs => tail cs
  | _ => false

def isDatetime (cs : List Char) : Bool :=
  let date := cs.take 10
  isTimeThen List.isEmpty cs || isDate cs ||
    (isDate date &&
      match cs.drop 10 with
      | separator :: cs =>
        (separator == 'T' || separator == 't' || separator == ' ') && isTimeThen isOffset cs
      | [] => false)

/-! ### All of them -/

/-- The value that a word spells. -/
def readScalar? (cs : List Char) : Option Value :=
  if cs = ['t', 'r', 'u', 'e'] then some (.boolean true)
  else if cs = ['f', 'a', 'l', 's', 'e'] then some (.boolean false)
  else if isDatetime cs then some (.datetime (String.ofList cs))
  else readNumber? cs

end ShutdownLint.Toml

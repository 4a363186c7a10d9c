import ShutdownLint.Decimal.Binary64
import ShutdownLint.Yaml.Token
/-!
Numbers and their notations in plain scalars.

Whole numbers are written in decimal, hexadecimal, octal or binary digits. Those that fit in 64 bits
are values; wider ones up to 128 bits are refused; still wider ones are read as floating-point
numbers where their notation allows it. Decimal digits behind a leading zero are no number.
-/

set_option autoImplicit false

namespace ShutdownLint.Yaml

open Decimal (Binary64 twoTo)

inductive Number where
  | int (n : Int)
  | float (x : Binary64)
  deriving DecidableEq, Inhabited

namespace Number

/-- Equality of keys: whole numbers differ from floating-point numbers. -/
def same : Number → Number → Bool
  | int m, int n => m == n
  | float x, float y => x.same y
  | _, _ => false

def text : Number → String
  | int n => Decimal.signedText n
  | float x => x.text

/-! ### Notations -/

/-- The number that digits of a base spell, at least one of them. -/
def readDigits? (base : Nat) (cs : List Char) : Option Nat :=
  if cs.isEmpty then none
  else
    cs.foldlM (fun n c ↦ (Text.hexDigit? c).bind fun d ↦
      if d < base then some (base * n + d) else none) 0

/-- A sign, if any, and digits that are more than one and begin with a zero. -/
def isZeroPadded (cs : List Char) : Bool :=
  let digits := match cs with
    | '+' :: r => r
    | '-' :: r => r
    | r => r
  match digits with
  | '0' :: d :: r => (d :: r).all Decimal.isDigit
  | _ => false

/-- The absolute value of a whole number without its sign. -/
def readMagnitude? (cs : List Char) : Option Nat :=
  match cs with
  | '0' :: 'x' :: r => readDigits? 16 r
  | '0' :: 'o' :: r => readDigits? 8 r
  | '0' :: 'b' :: r => readDigits? 2 r
  | r => if isZeroPadded r then none else readDigits? 10 r

/-- A whole number that fits in 64 bits, none if it is wider and fits in 128, and otherwise
nothing. -/
inductive IntReading where
  | fits (n : Int)
  | tooWide
  | notInt
  deriving DecidableEq, Inhabited

/-- Reads a whole number; without a minus sign one bit more is available. -/
def readInt (cs : List Char) : IntReading :=
  let unsigned (r : List Char) : IntReading :=
    match readMagnitude? r with
    | none => .notInt
    | some n => if n < twoTo 64 then .fits n else if n < twoTo 128 then .tooWide else .notInt
  match cs with
  | '-' :: r =>
    match readMagnitude? r with
    | none => .notInt
    | some n => if n ≤ twoTo 63 then .fits (-n) else if n ≤ twoTo 127 then .tooWide else .notInt
  | '+' :: r => unsigned r
  | r => unsigned r

/-- Reads a floating-point number, which overflow would make none. -/
def readFloat? (cs : List Char) : Option Binary64 :=
  let infinities : List (List Char) := [".inf", ".Inf", ".INF"].map String.toList
  let positive := match cs with
    | '+' :: r => r
    | r => r
  let negative := match cs with
    | '-' :: r => r
    | _ => []
  if cs.head? = some '+' && positive.head?.any (fun c ↦ c == '+' || c == '-') then none
  else if infinities.contains positive then some (.infinity false)
  else if infinities.contains negative then some (.infinity true)
  else if [".nan", ".NaN", ".NAN"].map String.toList |>.contains cs then some .nan
  else (Binary64.read? positive).filter Binary64.isFinite

end Number

end ShutdownLint.Yaml

import ShutdownLint.Decimal.Digits
/-!
Binary floating-point numbers of 64 bits and their decimal texts.

A finite number is a whole number of at most 53 bits times a power of two. `ofDecimal` rounds a
decimal to the nearest such number, a tie going to the even one. `shortest` finds the fewest
digits that read back as the same number, and of those the nearest to it. Both compute with whole
numbers only, so nothing depends on the arithmetic of the machine.
-/

set_option autoImplicit false

namespace ShutdownLint.Decimal

inductive Binary64 where
  | nan
  | infinity (negative : Bool)
  /-- The number `mantissa * 2 ^ exponent`, where the mantissa has 53 bits unless the exponent is
  the least one, which is -1074. -/
  | finite (negative : Bool) (mantissa : Nat) (exponent : Int)
  deriving DecidableEq, Inhabited

namespace Binary64

/-- Equality as numbers: zero has two signs, and here a number that is none equals itself. -/
def same : Binary64 → Binary64 → Bool
  | finite _ 0 _, finite _ 0 _ => true
  | x, y => x == y

/-! ### Reading -/

/-- Rounds `numerator / denominator` to a whole number, a tie going to the even one. -/
def roundQuotient (numerator denominator : Nat) : Nat :=
  let q := numerator / denominator
  let r := numerator % denominator
  if denominator < 2 * r || (2 * r == denominator && q % 2 == 1) then q + 1 else q

/-- The fraction `numerator / denominator * 2 ^ shift`. -/
def scaleBy (shift : Int) (numerator denominator : Nat) : Nat × Nat :=
  if 0 ≤ shift then (numerator * twoTo shift.toNat, denominator)
  else (numerator, denominator * twoTo (-shift).toNat)

/-- Rounds a positive fraction. -/
def ofFraction (negative : Bool) (numerator denominator : Nat) : Binary64 :=
  let e : Int := max ((numerator.log2 : Int) - denominator.log2 - 52) (-1074)
  let (n, d) := scaleBy (-e) numerator denominator
  let e := if n / d < twoTo 52 && -1074 < e then e - 1 else e
  let (n, d) := scaleBy (-e) numerator denominator
  let m := roundQuotient n d
  let (m, e) := if m = twoTo 53 then (twoTo 52, e + 1) else (m, e)
  if 971 < e then infinity negative else finite negative m e

/-- Rounds `coefficient * 10 ^ exponent`. -/
def ofDecimal (negative : Bool) (coefficient : Nat) (exponent : Int) : Binary64 :=
  let magnitude := (digits coefficient).length + exponent
  if coefficient = 0 || magnitude < -330 then finite negative 0 (-1074)
  else if 330 < magnitude then infinity negative
  else if 0 ≤ exponent then ofFraction negative (coefficient * tenTo exponent.toNat) 1
  else ofFraction negative coefficient (tenTo (-exponent).toNat)

/-- The exponent behind the digits of a decimal: nothing, or a letter, a sign and digits. -/
def readExponent? : List Char → Option Int
  | [] => some 0
  | c :: cs =>
    if c == 'e' || c == 'E' then
      let (negative, ds) := match cs with
        | '+' :: ds => (false, ds)
        | '-' :: ds => (true, ds)
        | ds => (false, ds)
      if !ds.isEmpty && ds.all isDigit then
        some (if negative then -(value ds : Int) else value ds)
      else none
    else none

/-- Reads digits with at most one point among them and perhaps an exponent. -/
def readUnsigned? (negative : Bool) (cs : List Char) : Option Binary64 :=
  let whole := cs.takeWhile isDigit
  let (places, tail) := match cs.dropWhile isDigit with
    | '.' :: r => (r.takeWhile isDigit, r.dropWhile isDigit)
    | r => ([], r)
  if whole.isEmpty && places.isEmpty then none
  else
    (readExponent? tail).map fun e ↦
      ofDecimal negative (value (whole ++ places)) (e - places.length)

/-- Reads a decimal with an optional sign. -/
def read? : List Char → Option Binary64
  | '+' :: cs => readUnsigned? false cs
  | '-' :: cs => readUnsigned? true cs
  | cs => readUnsigned? false cs

def isFinite : Binary64 → Bool
  | finite _ _ _ => true
  | _ => false

/-! ### Writing -/

/-- The exponent `k` with `10 ^ (k - 1) ≤ numerator / denominator < 10 ^ k`. -/
def magnitude (numerator denominator : Nat) : Int :=
  if denominator ≤ numerator then (digits (numerator / denominator)).length
  else
    match (List.range 400).find? fun j ↦ denominator ≤ numerator * tenTo j with
    | some j => 1 - (j : Int)
    | none => -399

/-- Of the multiples of `unit` next to `x`, the nearest one from `low` to `high`; the ends count if
`closed` holds, and a tie goes to the even multiple. -/
def nearestMultiple? (unit low x high : Nat) (closed : Bool) : Option Nat :=
  let q := x / unit
  let within (n : Nat) : Bool :=
    if closed then low ≤ n * unit && n * unit ≤ high else low < n * unit && n * unit < high
  let below := x - q * unit
  let above := (q + 1) * unit - x
  let lowerFirst := below < above || (below == above && q % 2 == 0)
  match within q, within (q + 1) with
  | true, true => some (if lowerFirst then q else q + 1)
  | true, false => some q
  | false, true => some (q + 1)
  | false, false => none

/-- Moves the zeros at the end of a coefficient into its exponent. -/
def stripZeros : Nat → Nat → Int → Nat × Int
  | 0, d, k => (d, k)
  | fuel + 1, d, k => if d != 0 && d % 10 == 0 then stripZeros fuel (d / 10) (k + 1) else (d, k)

/-- The shortest decimal `d * 10 ^ k` that reads back as `mantissa * 2 ^ exponent`, which is not
zero. The numbers that do so lie between the midpoints to the two neighbours. -/
def shortest (mantissa : Nat) (exponent : Int) : Nat × Int :=
  let lowStep := if mantissa = twoTo 52 && -1074 < exponent then 1 else 2
  let up (n : Nat) : Nat := if 2 ≤ exponent then n * twoTo (exponent - 2).toNat else n
  let denominator := if 2 ≤ exponent then 1 else twoTo (2 - exponent).toNat
  let x := up (4 * mantissa)
  let low := up (4 * mantissa - lowStep)
  let high := up (4 * mantissa + 2)
  let top := magnitude x denominator
  let attempt (n : Nat) : Option (Nat × Int) :=
    let k := top - (n + 1 : Nat)
    let found :=
      if 0 ≤ k then
        nearestMultiple? (tenTo k.toNat * denominator) low x high (mantissa % 2 == 0)
      else
        let s := tenTo (-k).toNat
        nearestMultiple? denominator (low * s) (x * s) (high * s) (mantissa % 2 == 0)
    found.map fun d ↦ stripZeros 20 d k
  ((List.range 17).findSome? attempt).getD (0, 0)

/-- How `d * 10 ^ k` is written: with a point where that needs no more than 16 digits in front of
it or four zeros behind it, and else with one digit in front and an exponent. -/
def layOut (d : Nat) (k : Int) : List Char :=
  let ds := digits d
  let n : Int := ds.length
  let e := n + k
  if 0 ≤ k && e ≤ 16 then ds ++ List.replicate k.toNat '0' ++ ['.', '0']
  else if 0 < e && e ≤ 16 then ds.take e.toNat ++ '.' :: ds.drop e.toNat
  else if -5 < e && e ≤ 0 then '0' :: '.' :: (List.replicate (-e).toNat '0' ++ ds)
  else
    let fraction := ds.drop 1
    ds.take 1 ++ (if fraction.isEmpty then [] else '.' :: fraction) ++
      'e' :: (signedText (e - 1)).toList

/-- The text of a number. -/
def text : Binary64 → String
  | nan => ".nan"
  | infinity negative => if negative then "-.inf" else ".inf"
  | finite negative m e =>
    let body := if m = 0 then ['0', '.', '0'] else
      let (d, k) := shortest m e
      layOut d k
    String.ofList (if negative then '-' :: body else body)

end Binary64

end ShutdownLint.Decimal

/-!
Whole numbers and their decimal digits.
-/

set_option autoImplicit false

namespace ShutdownLint.Decimal

def twoTo (n : Nat) : Nat :=
  Nat.pow 2 n

def tenTo (n : Nat) : Nat :=
  Nat.pow 10 n

def isDigit (c : Char) : Bool :=
  '0' ≤ c && c ≤ '9'

def digitValue (c : Char) : Nat :=
  c.toNat - '0'.toNat

/-- The digits of a number, without leading zeros; zero has one digit. -/
def digits (n : Nat) : List Char :=
  Nat.toDigits 10 n

/-- The number that digits spell. -/
def value (cs : List Char) : Nat :=
  cs.foldl (fun n c ↦ 10 * n + digitValue c) 0

/-- The digits as a text. -/
def text (n : Nat) : String :=
  String.ofList (digits n)

/-- The digits of a whole number, with a minus sign in front if it is negative. -/
def signedText (n : Int) : String :=
  if n < 0 then "-" ++ text n.natAbs else text n.natAbs

/-- The digits of a number that has at most `width` of them, filled up with zeros in front. -/
def padded (width n : Nat) : List Char :=
  List.leftpad width '0' (digits n)

end ShutdownLint.Decimal

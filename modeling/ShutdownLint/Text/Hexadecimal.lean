/-!
Hexadecimal digits: letters of either case are read, small ones are written.
-/

set_option autoImplicit false

namespace ShutdownLint.Text

def hexDigit? (c : Char) : Option Nat :=
  if '0' ≤ c && c ≤ '9' then some (c.toNat - '0'.toNat)
  else if 'a' ≤ c && c ≤ 'f' then some (c.toNat - 'a'.toNat + 10)
  else if 'A' ≤ c && c ≤ 'F' then some (c.toNat - 'A'.toNat + 10)
  else none

/-- The digit for a number below sixteen. -/
def hexDigit (n : Nat) : Char :=
  if n < 10 then Char.ofNat ('0'.toNat + n) else Char.ofNat ('a'.toNat + (n - 10))

theorem hexDigit?_hexDigit (n : Fin 16) : hexDigit? (hexDigit n) = some n.val := by
  revert n
  decide

end ShutdownLint.Text

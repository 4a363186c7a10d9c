import ShutdownLint.Text.Hexadecimal
/-!
The characters of a JSON string between its quotes.

`escape` writes one character: quotes, backslashes and control characters are escaped. `Escape.step`
is the reverse for one character of the written form, where an escape may be under way; it also
knows the escaped slash and any character by the number of its UTF-16 units.
-/

set_option autoImplicit false

namespace ShutdownLint.Json

/-! ### Writing -/

def escape (c : Char) : List Char :=
  if c = '\x22' then ['\\', '\x22']
  else if c = '\\' then ['\\', '\\']
  else if c = '\x08' then ['\\', 'b']
  else if c = '\t' then ['\\', 't']
  else if c = '\n' then ['\\', 'n']
  else if c = '\x0c' then ['\\', 'f']
  else if c = '\r' then ['\\', 'r']
  else if c.toNat < 0x20 then
    ['\\', 'u', '0', '0', Text.hexDigit (c.toNat / 16), Text.hexDigit (c.toNat % 16)]
  else [c]

def quoted (s : String) : List Char :=
  '\x22' :: s.toList.flatMap escape ++ ['\x22']

/-! ### Reading -/

/-- What has been read of an escape. A character beyond the 16-bit range takes two of them, the
first of which is remembered as `lead`. -/
inductive Escape where
  | outside
  | begun
  | unit (lead : Option Nat) (missing value : Nat)
  | between (lead : Nat)
  | begunAgain (lead : Nat)
  deriving DecidableEq, Inhabited

namespace Escape

/-- The character for a letter behind a backslash. -/
def letter? : Char → Option Char
  | '\x22' => some '\x22'
  | '\\' => some '\\'
  | '/' => some '/'
  | 'b' => some '\x08'
  | 'f' => some '\x0c'
  | 'n' => some '\n'
  | 'r' => some '\r'
  | 't' => some '\t'
  | _ => none

/-- What a complete UTF-16 unit amounts to: a character, or half of one. -/
def ofUnit (lead : Option Nat) (unit : Nat) : Option (Option Char × Escape) :=
  let isLead := 0xD800 ≤ unit && unit < 0xDC00
  let isTrail := 0xDC00 ≤ unit && unit < 0xE000
  match lead with
  | none =>
    if isLead then some (none, between unit)
    else if isTrail then none
    else some (some (Char.ofNat unit), outside)
  | some high =>
    if isTrail then
      some (some (Char.ofNat (0x10000 + 0x400 * (high - 0xD800) + (unit - 0xDC00))), outside)
    else none

/-- Reads a character: the character that it completes, if any, and the new state. -/
def step : Escape → Char → Option (Option Char × Escape)
  | outside, c =>
    if c = '\\' then some (none, begun)
    else if c.toNat < 0x20 then none
    else some (some c, outside)
  | begun, c =>
    if c = 'u' then some (none, unit none 4 0)
    else (letter? c).map fun d ↦ (some d, outside)
  | unit lead missing value, c => do
    let digit ← Text.hexDigit? c
    let value := 16 * value + digit
    if missing ≤ 1 then ofUnit lead value else return (none, unit lead (missing - 1) value)
  | between lead, c => if c = '\\' then some (none, begunAgain lead) else none
  | begunAgain lead, c => if c = 'u' then some (none, unit (some lead) 4 0) else none

end Escape

end ShutdownLint.Json

/-!
White space and letter case.

White space is the Unicode property of that name: 25 characters, of which a byte-order mark and the
zero-width space are none. Upper and lower case are told apart for the letters A to Z only.
-/

set_option autoImplicit false

namespace ShutdownLint.Text

/-- The ranges of the characters that are white space. -/
def whiteSpaceRanges : List (Nat × Nat) :=
  [(0x09, 0x0D), (0x20, 0x20), (0x85, 0x85), (0xA0, 0xA0), (0x1680, 0x1680), (0x2000, 0x200A),
    (0x2028, 0x2029), (0x202F, 0x202F), (0x205F, 0x205F), (0x3000, 0x3000)]

def isWhiteSpace (c : Char) : Bool :=
  whiteSpaceRanges.any fun (low, high) ↦ low ≤ c.toNat && c.toNat ≤ high

/-- Removes white space from both ends. -/
def trimChars (cs : List Char) : List Char :=
  ((cs.dropWhile isWhiteSpace).reverse.dropWhile isWhiteSpace).reverse

def trim (s : String) : String :=
  String.ofList (trimChars s.toList)

def upperChar (c : Char) : Char :=
  if 'a' ≤ c ∧ c ≤ 'z' then Char.ofNat (c.toNat - 32) else c

def lowerChar (c : Char) : Char :=
  if 'A' ≤ c ∧ c ≤ 'Z' then Char.ofNat (c.toNat + 32) else c

def upper (s : String) : String :=
  String.ofList (s.toList.map upperChar)

def lower (s : String) : String :=
  String.ofList (s.toList.map lowerChar)

end ShutdownLint.Text

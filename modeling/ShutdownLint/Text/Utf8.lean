/-!
Bytes as text in UTF-8.

`decode` reads bytes one at a time. Each longest run of bytes that begins a character without
completing it counts as one malformed piece, and so does every byte that begins none. `lossy` puts
the replacement character in the place of each piece, `strict?` refuses a text that has one.
-/

set_option autoImplicit false

namespace ShutdownLint.Text.Utf8

/-- A character that has been begun: how many bytes are missing, between which bounds the next one
has to lie, and the bits so far. -/
structure Partial where
  missing : Nat
  least : Nat
  greatest : Nat
  bits : Nat
  deriving DecidableEq, Inhabited

/-- What the first byte of a character says. -/
inductive Opening where
  | complete (c : Char)
  | incomplete (p : Partial)
  | malformed
  deriving DecidableEq, Inhabited

def opening (byte : UInt8) : Opening :=
  let b := byte.toNat
  if b < 0x80 then .complete (Char.ofNat b)
  else if b < 0xC2 then .malformed
  else if b < 0xE0 then .incomplete ⟨1, 0x80, 0xBF, b - 0xC0⟩
  else if b = 0xE0 then .incomplete ⟨2, 0xA0, 0xBF, 0⟩
  else if b = 0xED then .incomplete ⟨2, 0x80, 0x9F, 0xD⟩
  else if b < 0xF0 then .incomplete ⟨2, 0x80, 0xBF, b - 0xE0⟩
  else if b = 0xF0 then .incomplete ⟨3, 0x90, 0xBF, 0⟩
  else if b < 0xF4 then .incomplete ⟨3, 0x80, 0xBF, b - 0xF0⟩
  else if b = 0xF4 then .incomplete ⟨3, 0x80, 0x8F, 4⟩
  else .malformed

/-- Reads a byte between two characters: what is known after it, and the character begun. -/
def start (b : UInt8) : List (Option Char) × Option Partial :=
  match opening b with
  | .complete c => ([some c], none)
  | .incomplete p => ([], some p)
  | .malformed => ([none], none)

/-- Reads a byte. One that does not go on with the character begun is looked at on its own. -/
def step : Option Partial → UInt8 → List (Option Char) × Option Partial
  | none, b => start b
  | some p, b =>
    if p.least ≤ b.toNat ∧ b.toNat ≤ p.greatest then
      let bits := 0x40 * p.bits + (b.toNat - 0x80)
      if p.missing ≤ 1 then ([some (Char.ofNat bits)], none)
      else ([], some ⟨p.missing - 1, 0x80, 0xBF, bits⟩)
    else
      let (known, begun) := start b
      (none :: known, begun)

/-- The characters that bytes spell, with `none` for each malformed piece. -/
def decodeFrom : Option Partial → List UInt8 → List (Option Char)
  | none, [] => []
  | some _, [] => [none]
  | begun, b :: bs =>
    let (known, begun) := step begun b
    known ++ decodeFrom begun bs

def decode (bytes : List UInt8) : List (Option Char) :=
  decodeFrom none bytes

def replacement : Char := '\ufffd'

/-- The text with malformed pieces replaced. -/
def lossy (bytes : List UInt8) : String :=
  String.ofList ((decode bytes).map (·.getD replacement))

/-- The text if no piece of it is malformed. -/
def strict? (bytes : List UInt8) : Option String :=
  ((decode bytes).mapM id).map String.ofList

def encode (s : String) : List UInt8 :=
  s.toList.flatMap String.utf8EncodeChar

end ShutdownLint.Text.Utf8

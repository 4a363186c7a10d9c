import ShutdownLint.Decimal.Digits
import ShutdownLint.Finding
/-!
Findings as lines for a terminal.

Each line has a sign for the severity, the rule, the place and the message. That there is nothing to
say takes a line, too.
-/

set_option autoImplicit false

namespace ShutdownLint

/-- A cross, a warning sign or an information sign. -/
def Severity.icon : Severity → String
  | error => "\u274c"
  | warning => "\u26a0\ufe0f"
  | info => "\u2139\ufe0f"

namespace Finding

/-- The file, and the line behind a colon. -/
def place (f : Finding) : String :=
  f.file ++ f.line.elim "" fun n ↦ ":" ++ Decimal.text n.toNat

/-- The finding as a line, without its end. -/
def terminalLine (f : Finding) : String :=
  f.severity.icon ++ "  [" ++ f.rule ++ "] " ++ f.place ++ ": " ++ f.message

end Finding

namespace Report

def noFindingsText : String := "\u2705 All DrainGuard checks passed!\n"

def renderText (fs : List Finding) : String :=
  if fs.isEmpty then noFindingsText
  else String.join (fs.map fun f ↦ f.terminalLine ++ "\n")

end Report

end ShutdownLint

import ShutdownLint.Rule.Basic
/-!
Findings, and what a list of them amounts to: its verdict and its counts.
-/

set_option autoImplicit false

namespace ShutdownLint

structure Finding where
  rule : String
  severity : Severity
  message : String
  /-- The file as it was named by whoever asked for the analysis. -/
  file : String
  /-- Counted from one; absent for findings that concern a whole document. -/
  line : Option UInt32
  deriving DecidableEq, Inhabited, Repr

namespace Rule

/-- The rule's finding on a line. -/
def atLine (r : Rule) (file : String) (line : UInt32) : Finding :=
  ⟨r.id, r.severity, r.template, file, some line⟩

/-- The rule's finding on a document. -/
def atDocument (r : Rule) (file : String) : Finding :=
  ⟨r.id, r.severity, r.template, file, none⟩

/-- The rule's finding on a container. -/
def forContainer (r : Rule) (file container : String) : Finding :=
  ⟨r.id, r.severity, r.messageFor container, file, none⟩

end Rule

inductive Verdict where
  | pass
  | warn
  | fail
  deriving DecidableEq, Inhabited, Repr

namespace Verdict

def name : Verdict → String
  | pass => "pass"
  | warn => "warn"
  | fail => "fail"

def ofName? : String → Option Verdict
  | "pass" => some pass
  | "warn" => some warn
  | "fail" => some fail
  | _ => none

theorem ofName?_name (v : Verdict) : ofName? v.name = some v := by
  cases v <;> rfl

/-- Errors fail, and anything else is a warning. -/
def ofFindings (fs : List Finding) : Verdict :=
  if fs.any (·.severity == .error) then fail
  else if fs.isEmpty then pass
  else warn

/-- The exit status of a run with this verdict. -/
def exitCode : Verdict → UInt32
  | fail => 1
  | _ => 0

end Verdict

/-- How many findings there are of each severity. -/
structure Counts where
  info : UInt32
  warning : UInt32
  error : UInt32
  deriving DecidableEq, Inhabited, Repr

namespace Counts

def ofFindings (fs : List Finding) : Counts :=
  let count (s : Severity) : UInt32 := UInt32.ofNat (fs.countP (·.severity == s))
  ⟨count .info, count .warning, count .error⟩

end Counts

end ShutdownLint

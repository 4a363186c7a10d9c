import ShutdownLint.Finding
import ShutdownLint.Timestamp
/-!
Reports: the findings of a run, when it took place and what they add up to.
-/

set_option autoImplicit false

namespace ShutdownLint

/-- The program that made a report. -/
structure Tool where
  name : String
  version : String
  deriving DecidableEq, Inhabited, Repr

/-- This program. -/
def Tool.this : Tool :=
  ⟨"drainguard", "0.1.0"⟩

/-- How much was looked at and what was found. -/
structure Summary where
  artifactsScanned : UInt32
  findingsTotal : UInt32
  counts : Counts
  deriving DecidableEq, Inhabited, Repr

structure Report where
  /-- Identifies the shape of the report. -/
  schema : String
  tool : Tool
  startedAt : Timestamp
  finishedAt : Timestamp
  verdict : Verdict
  findings : List Finding
  summary : Summary
  deriving DecidableEq, Inhabited

namespace Report

def currentSchema : String := "drainguard.report.v1"

/-- The report on a number of artifacts with their findings. -/
def ofFindings (startedAt finishedAt : Timestamp) (artifacts : Nat) (findings : List Finding) :
    Report where
  schema := currentSchema
  tool := .this
  startedAt := startedAt
  finishedAt := finishedAt
  verdict := .ofFindings findings
  findings := findings
  summary := ⟨.ofNat artifacts, .ofNat findings.length, .ofFindings findings⟩

end Report

end ShutdownLint

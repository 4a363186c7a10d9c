import ShutdownLint.Report.Sarif
import ShutdownLint.Report.Text
/-!
The formats of reports.

Text is for people to read, and the others are also written to a file, for which they have a default
path. Text, JUnit and SARIF show the findings of a report only; JSON is the whole report.
-/

set_option autoImplicit false

namespace ShutdownLint

inductive ReportFormat where
  | text
  | junit
  | sarif
  | json
  deriving DecidableEq, Inhabited, Repr

/-- There is no format of this name. -/
structure UnknownFormat where
  name : String
  deriving DecidableEq, Inhabited, Repr

def UnknownFormat.message (e : UnknownFormat) : String :=
  "unknown format: " ++ e.name ++ " (expected text|junit|sarif|json)"

namespace ReportFormat

def name : ReportFormat → String
  | text => "text"
  | junit => "junit"
  | sarif => "sarif"
  | json => "json"

def all : List ReportFormat :=
  [text, junit, sarif, json]

/-- The format that is meant by what somebody typed. -/
def ofSpelling (s : String) : Except UnknownFormat ReportFormat :=
  let wanted := Text.lower (Text.trim s)
  match all.find? (·.name == wanted) with
  | some f => .ok f
  | none => .error ⟨wanted⟩

/-- Where a report in this format is written if nothing else is said. -/
def defaultPath? : ReportFormat → Option String
  | text => none
  | junit => some "drainguard-report.xml"
  | sarif => some "drainguard-report.sarif.json"
  | json => some "drainguard-report.json"

end ReportFormat

def Report.render (r : Report) : ReportFormat → String
  | .text => renderText r.findings
  | .junit => renderJunit r.findings
  | .sarif => renderSarif r.tool r.findings
  | .json => r.toJson.pretty

end ShutdownLint

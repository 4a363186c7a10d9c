import ShutdownLint.Json.Printer
import ShutdownLint.Report.Encoding
import ShutdownLint.Report.Junit
import ShutdownLint.Rule.Explanation
/-!
Findings as a SARIF log with a single run.

The log lists the identifiers of all rules with their titles. A finding is a result of the level
`error` or `warning` and has a location if it has a line.
-/

set_option autoImplicit false

namespace ShutdownLint.Report

namespace Sarif

def schema : String := "https://schemastore.azurewebsites.net/schemas/json/sarif-2.1.0.json"

def version : String := "2.1.0"

/-- A text in the form that the format wants for messages. -/
def message (s : String) : Json :=
  .object [("text", .string s)]

def level (s : Severity) : String :=
  if s = .error then "error" else "warning"

/-- The title of a rule; an identifier without an explanation has none. -/
def title (id : String) : String :=
  (Explanation.ofSpelling? id).elim "" Explanation.title

def rule (id : String) : Json :=
  .object [("id", .string id), ("shortDescription", message (title id))]

def location (file : String) (line : UInt32) : Json :=
  .object [("physicalLocation", .object [
    ("artifactLocation", .object [("uri", .string file)]),
    ("region", .object [("startLine", .ofUInt32 line)])])]

def result (f : Finding) : Json :=
  .object [("ruleId", .string f.rule), ("level", .string (level f.severity)),
    ("message", message f.message), ("locations", .array (f.line.map (location f.file)).toList)]

def log (tool : Tool) (fs : List Finding) : Json :=
  .object [("$schema", .string schema), ("version", .string version), ("runs", .array [
    .object [
      ("tool", .object [("driver", .object [("name", .string displayName),
        ("version", .string tool.version), ("rules", .array (Rule.allIds.map rule))])]),
      ("results", .array (fs.map result))]])]

end Sarif

def renderSarif (tool : Tool) (fs : List Finding) : String :=
  (Sarif.log tool fs).pretty

end ShutdownLint.Report

import ShutdownLint.Json.Parser
import ShutdownLint.Report.Basic
/-!
Reports as JSON values.

Records are written as objects with their fields in order, and the line of a finding is left out if
it has none. They are read from arrays of their fields as well, additional members do not count, and
a null stands for a missing line. Counters are whole numbers of 32 bits, written in digits only. A
name of a fixed list is read from a string or from an object that has it as the only name, for null.
-/

set_option autoImplicit false

namespace ShutdownLint

namespace Json

def ofUInt32 (n : UInt32) : Json :=
  number (Decimal.text n.toNat)

def asUInt32? : Json → Option UInt32
  | number text =>
    let n := Decimal.value text.toList
    if text.toList.all Decimal.isDigit ∧ n < UInt32.size then some (.ofNat n) else none
  | _ => none

/-- The name of one out of a fixed list. -/
def asChoice? : Json → Option String
  | string s => some s
  | object [(name, null)] => some name
  | _ => none

end Json

/-! ### Findings -/

namespace Finding

def toJson (f : Finding) : Json :=
  .object ([("rule", .string f.rule), ("severity", .string f.severity.name),
    ("message", .string f.message), ("file", .string f.file)] ++
    (f.line.map fun n ↦ ("line", Json.ofUInt32 n)).toList)

/-- A line that is missing or null is absent. -/
def readLine? : Option Json → Option (Option UInt32)
  | none => some none
  | some .null => some none
  | some v => v.asUInt32?.map some

def ofJson? (v : Json) : Option Finding := do
  match ← v.fields? ["rule", "severity", "message", "file", "line"] with
  | [some rule, some severity, some message, some file, line] =>
    let rule ← rule.asString?
    let severity ← severity.asChoice?.bind Severity.ofName?
    let message ← message.asString?
    let file ← file.asString?
    let line ← readLine? line
    return { rule, severity, message, file, line }
  | _ => none

def listToJson (fs : List Finding) : Json :=
  .array (fs.map toJson)

def listOfJson? (v : Json) : Option (List Finding) :=
  v.asArray?.bind fun items ↦ items.mapM ofJson?

end Finding

/-! ### Reports -/

namespace Tool

def toJson (t : Tool) : Json :=
  .object [("name", .string t.name), ("version", .string t.version)]

def ofJson? (v : Json) : Option Tool := do
  match ← v.fields? ["name", "version"] with
  | [some name, some version] => return ⟨← name.asString?, ← version.asString?⟩
  | _ => none

end Tool

namespace Counts

def toJson (c : Counts) : Json :=
  .object [("info", .ofUInt32 c.info), ("warning", .ofUInt32 c.warning),
    ("error", .ofUInt32 c.error)]

def ofJson? (v : Json) : Option Counts := do
  match ← v.fields? ["info", "warning", "error"] with
  | [some info, some warning, some error] =>
    return ⟨← info.asUInt32?, ← warning.asUInt32?, ← error.asUInt32?⟩
  | _ => none

end Counts

namespace Summary

def toJson (s : Summary) : Json :=
  .object [("artifacts_scanned", .ofUInt32 s.artifactsScanned),
    ("findings_total", .ofUInt32 s.findingsTotal), ("counts", s.counts.toJson)]

def ofJson? (v : Json) : Option Summary := do
  match ← v.fields? ["artifacts_scanned", "findings_total", "counts"] with
  | [some artifacts, some findings, some counts] =>
    return ⟨← artifacts.asUInt32?, ← findings.asUInt32?, ← Counts.ofJson? counts⟩
  | _ => none

end Summary

namespace Report

def toJson (r : Report) : Json :=
  .object [("schema", .string r.schema), ("tool", r.tool.toJson),
    ("started_at", .string r.startedAt.text), ("finished_at", .string r.finishedAt.text),
    ("verdict", .string r.verdict.name), ("findings", Finding.listToJson r.findings),
    ("data", r.summary.toJson)]

def ofJson? (v : Json) : Option Report := do
  match ← v.fields?
    ["schema", "tool", "started_at", "finished_at", "verdict", "findings", "data"] with
  | [some schema, some tool, some startedAt, some finishedAt, some verdict, some findings,
      some summary] =>
    let schema ← schema.asString?
    let tool ← Tool.ofJson? tool
    let startedAt ← startedAt.asString?.bind Timestamp.read?
    let finishedAt ← finishedAt.asString?.bind Timestamp.read?
    let verdict ← verdict.asChoice?.bind Verdict.ofName?
    let findings ← Finding.listOfJson? findings
    let summary ← Summary.ofJson? summary
    return { schema, tool, startedAt, finishedAt, verdict, findings, summary }
  | _ => none

/-- The report that a text spells. -/
def parse? (text : String) : Option Report :=
  (Json.parse? text).bind ofJson?

end Report

end ShutdownLint

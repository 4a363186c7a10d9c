import ShutdownLint.Proofs.Check.Composition
import ShutdownLint.Proofs.Report.JunitTags
import ShutdownLint.Proofs.Report.SarifReadBack
import ShutdownLint.Report.Format
/-!
The outputs of a report agree.

The findings of a report are counted in several places: by severity and in total in its summary, in
the header of the suite, in the test cases and failures of the suite, and in the results of the log.
All findings and all errors are the same number everywhere, and the verdict and the exit status
depend on these numbers only.
-/

set_option autoImplicit false

namespace ShutdownLint

namespace Report

/-! ### What is read from the outputs -/

namespace Junit

/-- The numbers of tests and of failures in the header of a suite. -/
def counters? (text : String) : Option (Nat × Nat) := do
  let cs ← skip? "<?xml version=\"1.0\"?>\n<testsuites>\n  <testsuite" text.toList
  let (_, cs) ← readAttr? "name" cs
  let (tests, cs) ← readAttr? "tests" cs
  let (failures, _) ← readAttr? "failures" cs
  return (← readNumber? tests, ← readNumber? failures)

theorem counters?_renderJunit (fs : List Finding) :
    counters? (renderJunit fs) = some (fs.length, fs.countP (·.severity == .error)) := by
  rw [counters?, toList_renderJunit, skip?_append]
  simp only [Option.bind_eq_bind, Option.bind_some, readAttr?_attr, readNumber?_text,
    Option.pure_def]

end Junit

namespace Sarif

/-- The results of a log with a single run. -/
def results? (text : String) : Option (List Json) := do
  let log ← Json.parse? text
  let .array [run] ← log.at? ["runs"] | none
  let .array results ← run.at? ["results"] | none
  return results

/-- A result is of the level `error`. -/
def hasErrorLevel (r : Json) : Bool :=
  match r.at? ["level"] with
  | some (.string level) => level == "error"
  | _ => false

theorem results?_renderSarif (tool : Tool) (fs : List Finding) :
    results? (renderSarif tool fs) = some (fs.map result) := by
  rw [results?, renderSarif, Json.parse?_pretty (legible_log tool fs)]
  rfl

theorem hasErrorLevel_result (f : Finding) :
    hasErrorLevel (result f) = (f.severity == .error) := by
  rw [hasErrorLevel, (tells_result f).level]
  cases f.severity <;> decide

end Sarif

end Report

/-! ### Counters -/

/-- Every finding has one of the three severities. -/
theorem countP_severities (fs : List Finding) :
    fs.countP (·.severity == .info) + fs.countP (·.severity == .warning) +
      fs.countP (·.severity == .error) = fs.length := by
  induction fs with
  | nil => rfl
  | cons f fs ih =>
    simp only [List.countP_cons, List.length_cons, ← ih]
    cases f.severity <;> simp +decide <;> omega

namespace Report

/-! ### The law -/

/-- The outputs of a report tell the same: all findings are as many as the tests of its suite, all
errors are as many as the failures, and verdict and exit status follow from these numbers. What the
identifiers of rules themselves add to the tags of the suite is counted apart. -/
structure Agrees (r : Report) (tests failures : Nat) (results : List Json) : Prop where
  severities : r.summary.counts.info.toNat + r.summary.counts.warning.toNat +
    r.summary.counts.error.toNat = tests
  findingsTotal : r.summary.findingsTotal.toNat = tests
  findings : r.findings.length = tests
  resultCount : results.length = tests
  testCaseTags : Junit.openings "testcase" (r.render .junit).toList =
    tests + Junit.openingsOfRules "testcase" r.findings
  errors : r.summary.counts.error.toNat = failures
  errorLevels : results.countP Sarif.hasErrorLevel = failures
  failureTags : Junit.openings "failure" (r.render .junit).toList =
    failures + Junit.openingsOfRules "failure" r.findings
  knownRules : (∀ f ∈ r.findings, f.rule ∈ Rule.allIds) →
    ∀ tag, Junit.openingsOfRules tag r.findings = 0
  fail : r.verdict = .fail ↔ 0 < failures
  pass : r.verdict = .pass ↔ r.findings = []
  warn : r.verdict = .warn ↔ r.findings ≠ [] ∧ failures = 0
  exitCode : r.verdict.exitCode = 1 ↔ 0 < failures

/-- Whatever the findings are, the outputs of a report on them agree as long as the counters do not
run over. -/
theorem agrees_ofFindings (startedAt finishedAt : Timestamp) (artifacts : Nat) (fs : List Finding)
    (h : fs.length < 2 ^ 32) : ∃ tests failures results,
      Junit.counters? ((ofFindings startedAt finishedAt artifacts fs).render .junit) =
        some (tests, failures) ∧
      Sarif.results? ((ofFindings startedAt finishedAt artifacts fs).render .sarif) =
        some results ∧
      Agrees (ofFindings startedAt finishedAt artifacts fs) tests failures results := by
  refine ⟨_, _, _, Junit.counters?_renderJunit fs, Sarif.results?_renderSarif .this fs, ?_⟩
  have hcount (s : Severity) := toNat_ofNat_countP h (·.severity == s)
  have hwarn : Verdict.ofFindings fs = .warn ↔
      fs ≠ [] ∧ fs.countP (·.severity == .error) = 0 := by
    rw [ne_eq, ← Verdict.ofFindings_eq_pass_iff, ← Nat.le_zero, ← Nat.not_lt,
      ← Verdict.ofFindings_eq_fail_iff_countP]
    cases Verdict.ofFindings fs <;> decide
  constructor
  case severities =>
    show (UInt32.ofNat _).toNat + (UInt32.ofNat _).toNat + (UInt32.ofNat _).toNat = fs.length
    rw [hcount, hcount, hcount, countP_severities]
  case findingsTotal => exact UInt32.toNat_ofNat_of_lt' h
  case findings => rfl
  case resultCount => exact List.length_map ..
  case testCaseTags => exact Junit.openings_testcase_renderJunit fs
  case errors => exact hcount .error
  case errorLevels =>
    rw [List.countP_map]
    exact List.countP_congr fun f _ ↦ by rw [Function.comp_apply, Sarif.hasErrorLevel_result]
  case failureTags => exact Junit.openings_failure_renderJunit fs
  case knownRules => exact fun hrules tag ↦ Junit.openingsOfRules_eq_zero hrules
  case fail => exact Verdict.ofFindings_eq_fail_iff_countP
  case pass => exact Verdict.ofFindings_eq_pass_iff
  case warn => exact hwarn
  case exitCode => exact Verdict.exitCode_eq_one_iff.trans Verdict.ofFindings_eq_fail_iff_countP

/-- A finding of each severity, with tags in their texts and in the identifier of one rule. -/
def mixed : List Finding :=
  [⟨"DG001", .info, "<failure", "<testcase", none⟩, ⟨"<testcase", .error, "\"", "", some 0⟩,
    ⟨"DG102", .warning, "</testcase><failure", "&", some 7⟩]

theorem agrees_ofFindings_mixed : mixed.length < 2 ^ 32 ∧ ∃ results,
    Sarif.results? ((ofFindings default default 1 mixed).render .sarif) = some results ∧
      Agrees (ofFindings default default 1 mixed) 3 1 results := by
  have hlength : mixed.length < 2 ^ 32 := by decide
  obtain ⟨tests, failures, results, hcounters, hresults, hagrees⟩ :=
    agrees_ofFindings default default 1 mixed hlength
  have hread : Junit.counters? ((ofFindings default default 1 mixed).render .junit) =
      some (3, 1) := Junit.counters?_renderJunit mixed
  obtain ⟨rfl, rfl⟩ := Prod.mk.inj (Option.some.inj (hcounters.symm.trans hread))
  exact ⟨hlength, results, hresults, hagrees⟩

end Report

end ShutdownLint

import Mathlib.Order.MinMax
import ShutdownLint.Proofs.Check.Composition
import ShutdownLint.Proofs.Check.Severity
import ShutdownLint.Proofs.Settings.Overrides
/-!
Runs with one more override.

An override that spells a rule takes the findings under this rule out of the result and leaves the
others where they are. All findings under a rule have its severity, so only one counter is lowered,
by as many as the total, and the verdict gets no worse. An override that spells no rule makes any
run fail.
-/

set_option autoImplicit false

namespace ShutdownLint

/-! ### Lists of findings without those under a rule -/

namespace Verdict

/-- Some of several findings are at most as bad as all of them. -/
theorem ofFindings_le_of_sublist {fs gs : List Finding} (h : fs.Sublist gs) :
    ofFindings fs ≤ ofFindings gs := by
  have hcons (f : Finding) (fs : List Finding) :
      ofFindings (f :: fs) = max (ofFindings [f]) (ofFindings fs) := ofFindings_append [f] fs
  induction h with
  | slnil => exact le_refl _
  | cons f _ ih =>
    rw [hcons f]
    exact le_max_of_le_right ih
  | @cons_cons fs gs f _ ih =>
    rw [hcons f fs, hcons f gs]
    exact max_le_max_left _ ih

theorem exitCode_mono {v w : Verdict} (h : v ≤ w) : v.exitCode ≤ w.exitCode := by
  revert h
  cases v <;> cases w <;> decide

end Verdict

/-- Each finding is under some rule. -/
def AreUnderRules (fs : List Finding) : Prop :=
  ∀ f ∈ fs, ∃ q : Rule, f.IsUnder q

/-- The counter of a severity. -/
def Counts.count (c : Counts) : Severity → UInt32
  | .info => c.info
  | .warning => c.warning
  | .error => c.error

theorem Counts.count_ofFindings (fs : List Finding) (s : Severity) :
    (ofFindings fs).count s = UInt32.ofNat (fs.countP (·.severity == s)) := by
  cases s <;> rfl

namespace Rule

variable (r : Rule) (fs : List Finding)

/-- The findings that are not under a rule. -/
def withoutFindings : List Finding :=
  fs.filter (·.rule != r.id)

/-- How many findings are under a rule. -/
def findingCount : Nat :=
  fs.countP (·.rule == r.id)

theorem length_withoutFindings :
    (r.withoutFindings fs).length + r.findingCount fs = fs.length := by
  rw [withoutFindings, findingCount, List.countP_eq_length_filter, Nat.add_comm]
  exact (List.length_eq_length_filter_add _).symm

variable {r fs}

theorem severity_of_rule_eq (hfs : AreUnderRules fs) {f : Finding} (hf : f ∈ fs)
    (h : f.rule = r.id) : f.severity = r.severity := by
  obtain ⟨q, hrule, hseverity⟩ := hfs f hf
  rw [hseverity, id_injective (hrule.symm.trans h)]

/-- Only findings of the rule's severity go. -/
theorem countP_withoutFindings_of_ne (hfs : AreUnderRules fs) {s : Severity} (hs : s ≠ r.severity) :
    (r.withoutFindings fs).countP (·.severity == s) = fs.countP (·.severity == s) := by
  rw [withoutFindings, List.countP_filter]
  refine List.countP_congr fun f hf ↦ ?_
  have hother (h : f.severity = s) : f.rule ≠ r.id := fun hrule ↦
    hs (h.symm.trans (severity_of_rule_eq hfs hf hrule))
  simpa using hother

/-- The rule's severity loses as many findings as go. -/
theorem countP_withoutFindings (hfs : AreUnderRules fs) :
    (r.withoutFindings fs).countP (·.severity == r.severity) + r.findingCount fs =
      fs.countP (·.severity == r.severity) := by
  have hgone : (fs.filter (·.rule == r.id)).countP (·.severity == r.severity) =
      r.findingCount fs := by
    rw [findingCount, List.countP_filter]
    refine List.countP_congr fun f hf ↦ ?_
    simpa using severity_of_rule_eq hfs hf
  rw [← hgone, withoutFindings, add_comm]
  exact (List.countP_eq_countP_filter_add fs (·.severity == r.severity) (·.rule == r.id)).symm

end Rule

theorem ofNat_sub_of_add_eq {k l n : Nat} (h : k + l = n) :
    UInt32.ofNat k = UInt32.ofNat n - UInt32.ofNat l := by
  rw [← h, UInt32.ofNat_add, UInt32.add_sub_cancel]

namespace Check

/-! ### Results without the findings under a rule -/

/-- A result that is another one without the findings under a rule. Counters are lowered by the
number of these, and where they have not run over they do not run below zero. -/
structure IsWithout (q : Rule) (r r' : CheckResult) : Prop where
  findings : r'.report.findings = r.report.findings.filter (·.rule != q.id)
  artifactsScanned : r'.report.summary.artifactsScanned = r.report.summary.artifactsScanned
  findingsTotal : r'.report.summary.findingsTotal =
    r.report.summary.findingsTotal - .ofNat (q.findingCount r.report.findings)
  ownCount : r'.report.summary.counts.count q.severity =
    r.report.summary.counts.count q.severity - .ofNat (q.findingCount r.report.findings)
  otherCounts : ∀ s ≠ q.severity,
    r'.report.summary.counts.count s = r.report.summary.counts.count s
  inRange : r.report.findings.length < 2 ^ 32 →
    q.findingCount r.report.findings ≤ r.report.summary.findingsTotal.toNat ∧
      q.findingCount r.report.findings ≤ (r.report.summary.counts.count q.severity).toNat
  verdict : r'.report.verdict ≤ r.report.verdict
  exitCode : r'.report.verdict.exitCode ≤ r.report.verdict.exitCode

theorem isWithout_ofFindings {q : Rule} {fs : List Finding} (hfs : AreUnderRules fs)
    (period period' : Period) (n : Nat) (s s' : Selection) :
    IsWithout q ⟨.ofFindings period.startedAt period.finishedAt n fs, s⟩
      ⟨.ofFindings period'.startedAt period'.finishedAt n (q.withoutFindings fs), s'⟩ where
  findings := rfl
  artifactsScanned := rfl
  findingsTotal := ofNat_sub_of_add_eq (q.length_withoutFindings fs)
  ownCount := by
    simp only [Report.ofFindings, Counts.count_ofFindings]
    exact ofNat_sub_of_add_eq (Rule.countP_withoutFindings hfs)
  otherCounts t ht := by
    simp only [Report.ofFindings, Counts.count_ofFindings]
    rw [Rule.countP_withoutFindings_of_ne hfs ht]
  inRange h := by
    have hlength : fs.length < 2 ^ 32 := h
    have hsum := q.length_withoutFindings fs
    have hsum' := Rule.countP_withoutFindings (r := q) hfs
    simp only [Report.ofFindings, Counts.count_ofFindings]
    rw [toNat_ofNat_countP hlength, UInt32.toNat_ofNat_of_lt' hlength]
    exact ⟨by omega, by omega⟩
  verdict := Verdict.ofFindings_le_of_sublist List.filter_sublist
  exitCode := Verdict.exitCode_mono (Verdict.ofFindings_le_of_sublist List.filter_sublist)

/-! ### The law -/

theorem areUnderRules_of_analyzeAll {fs : FileSystem} {as : List Artifact} {found : List Finding}
    (h : analyzeAll fs as = .ok found) : AreUnderRules found := by
  intro f hf
  obtain ⟨a, -, block, hblock, hmem⟩ := (mem_analyzeAll_iff h).mp hf
  obtain ⟨bytes, -, rfl⟩ := analyze_eq_ok_iff.mp hblock
  obtain ⟨q, -, hq⟩ := ArtifactKind.exists_rule_of_mem hmem
  exact ⟨q, hq⟩

variable (fs : FileSystem) (period period' : Period) (paths : List Path) (settings : String)

/-- One more override that spells a rule, wherever it stands among the others, makes no run fail
and takes the findings under this rule out of its result. One that spells no rule makes any run
fail. -/
theorem run_insert_override (before after : List String) (spelling : String) :
    (∀ (q : Rule) (r : CheckResult), q.Spells spelling →
      run fs period ⟨paths, settings, before ++ after⟩ = .ok r →
      ∃ r', run fs period' ⟨paths, settings, before ++ spelling :: after⟩ = .ok r' ∧
        IsWithout q r r') ∧
    ((∀ q : Rule, ¬q.Spells spelling) →
      ∃ e, run fs period' ⟨paths, settings, before ++ spelling :: after⟩ = .error e) := by
  constructor
  · intro q r hq hr
    obtain ⟨s, artifacts, found, hs, hartifacts, hfound, rfl⟩ := run_eq_ok_iff.mp hr
    obtain ⟨parsed, hparsed, hofSettings⟩ := selectionOf_eq_ok_iff.mp hs
    obtain ⟨s', hs', henabled⟩ := Selection.ofSettings_insert hq hofSettings
    have hselect : select s' found = q.withoutFindings (select s found) := by
      rw [Rule.withoutFindings, select, select, List.filter_filter]
      exact List.filter_congr fun f _ ↦ (henabled f.rule).trans (Bool.and_comm ..)
    refine ⟨_, run_eq_ok_iff.mpr ⟨s', artifacts, found,
      selectionOf_eq_ok_iff.mpr ⟨parsed, hparsed, hs'⟩, hartifacts, hfound, rfl⟩, ?_⟩
    rw [hselect]
    refine isWithout_ofFindings (fun f hf ↦ ?_) period period' artifacts.length s s'
    exact areUnderRules_of_analyzeAll hfound f (List.mem_of_mem_filter hf)
  · intro hunknown
    cases hrun : run fs period' ⟨paths, settings, before ++ spelling :: after⟩ with
    | error e => exact ⟨e, rfl⟩
    | ok r =>
      obtain ⟨s, -, -, hs, -⟩ := run_eq_ok_iff.mp hrun
      obtain ⟨parsed, -, hofSettings⟩ := selectionOf_eq_ok_iff.mp hs
      obtain ⟨-, hknown⟩ := Selection.exists_ofSettings_eq_ok_iff.mp ⟨s, hofSettings⟩
      have hmem : spelling ∈ before ++ spelling :: after := by simp
      exact absurd (Rule.ofSpelling?_eq_none_iff.mpr hunknown) (hknown spelling hmem)

/-- Without the error a warning remains, although the settings ask for the rule. -/
theorem run_insert_override_shellEntrypoint :
    let paths := [Path.ofText "Dockerfile", .ofText "pod.yaml"]
    let settings := "[rules.DG001]\nenabled = true\n"
    Rule.shellEntrypoint.Spells "\u3000dG001\t" ∧ (∀ q : Rule, ¬q.Spells "DG01") ∧
      ∃ r r', run podAndBuildFile default ⟨paths, settings, ["dg101 "]⟩ = .ok r ∧
        run podAndBuildFile default ⟨paths, settings, ["\u3000dG001\t", "dg101 "]⟩ = .ok r' ∧
        IsWithout .shellEntrypoint r r' ∧ r.report.verdict = .fail ∧ r'.report.verdict = .warn ∧
        ∃ e, run podAndBuildFile default ⟨paths, settings, ["dg101 ", "DG01"]⟩ = .error e := by
  intro paths settings
  have hspells : Rule.shellEntrypoint.Spells "\u3000dG001\t" :=
    Rule.ofSpelling?_eq_some_iff.mp (by decide)
  have hunknown : ∀ q : Rule, ¬q.Spells "DG01" := Rule.ofSpelling?_eq_none_iff.mp (by decide)
  have hr : ∃ r, run podAndBuildFile default ⟨paths, settings, ["dg101 "]⟩ = .ok r ∧
      r.report.verdict = .fail := by decide +kernel
  have hr' : ∃ r', run podAndBuildFile default
      ⟨paths, settings, ["\u3000dG001\t", "dg101 "]⟩ = .ok r' ∧
        r'.report.verdict = .warn := by decide +kernel
  obtain ⟨r, hr, hfail⟩ := hr
  obtain ⟨r', hr', hwarn⟩ := hr'
  obtain ⟨r'', hr'', hwithout⟩ := (run_insert_override podAndBuildFile default default paths
    settings [] ["dg101 "] "\u3000dG001\t").1 .shellEntrypoint r hspells hr
  obtain rfl := Except.ok.inj (hr'.symm.trans hr'')
  have herror := (run_insert_override podAndBuildFile default default paths settings
    ["dg101 "] [] "DG01").2 hunknown
  exact ⟨hspells, hunknown, r, r', hr, hr', hwithout, hfail, hwarn, herror⟩

end Check

end ShutdownLint

import Mathlib.Order.Lattice
import ShutdownLint.Proofs.BuildFile.LineFindings
import ShutdownLint.Proofs.Check.Stages
import ShutdownLint.Proofs.Pointwise
/-!
Runs over several paths. A run over two lists of paths, one behind the other, succeeds exactly if
the runs over either list do, and its result is the sum of theirs: the findings of the first one
come in front of those of the second one, counters are added, and of the two verdicts the worse one
counts. Within the findings of a run each artifact has a block of its own.
-/

set_option autoImplicit false

namespace ShutdownLint

/-! ### Verdicts and counters -/

namespace Verdict

/-- How bad a verdict is. -/
def rank : Verdict → Nat
  | pass => 0
  | warn => 1
  | fail => 2

theorem rank_injective : Function.Injective rank := by
  intro v w h
  cases v <;> cases w <;> first | rfl | cases h

/-- Of two verdicts the worse one is greater. -/
instance : LinearOrder Verdict :=
  LinearOrder.lift' rank rank_injective

theorem pass_le (v : Verdict) : pass ≤ v := by
  cases v <;> decide

/-- Findings are as bad as the worse part of them. -/
theorem ofFindings_append (fs gs : List Finding) :
    ofFindings (fs ++ gs) = max (ofFindings fs) (ofFindings gs) := by
  cases fs with
  | nil => exact (max_eq_right (pass_le _)).symm
  | cons f fs =>
    cases gs with
    | nil =>
      rw [List.append_nil]
      exact (max_eq_left (pass_le _)).symm
    | cons g gs =>
      unfold ofFindings
      rw [List.any_append]
      cases (f :: fs).any (·.severity == .error) <;>
        cases (g :: gs).any (·.severity == .error) <;> rfl

end Verdict

theorem toNat_ofNat_countP {fs : List Finding} (h : fs.length < 2 ^ 32) (p : Finding → Bool) :
    (UInt32.ofNat (fs.countP p)).toNat = fs.countP p :=
  UInt32.toNat_ofNat_of_lt' (Nat.lt_of_le_of_lt List.countP_le_length h)

/-! ### The file of a finding -/

theorem Container.file_of_mem {c : Container} {file : String} {f : Finding}
    (h : f ∈ c.findings file) : f.file = file := by
  rcases List.mem_append.mp h with h | h
  · split_ifs at h
    · cases h
    · rw [List.mem_singleton.mp h]
      rfl
  · split_ifs at h
    · cases h
    · rw [List.mem_singleton.mp h]
      rfl

theorem PodSpec.file_of_mem {p : PodSpec} {file : String} {f : Finding}
    (h : f ∈ p.findings file) : f.file = file := by
  rcases List.mem_append.mp h with h | h
  · split_ifs at h
    · cases h
    · rw [List.mem_singleton.mp h]
      rfl
  · obtain ⟨c, -, hc⟩ := List.mem_flatMap.mp h
    exact Container.file_of_mem hc

theorem Workload.file_of_mem {content file : String} {f : Finding}
    (h : f ∈ Workload.findings content file) : f.file = file := by
  unfold Workload.findings at h
  split at h
  · obtain ⟨d, -, hd⟩ := List.mem_flatMap.mp h
    unfold Workload.documentFindings at hd
    split at hd
    · exact PodSpec.file_of_mem hd
    · cases hd
  · cases h

theorem BuildFile.file_of_mem {content file : String} {f : Finding}
    (h : f ∈ BuildFile.findings content file) : f.file = file := by
  obtain ⟨k, line, r, -, -, rfl⟩ := BuildFile.mem_findings_iff.mp h
  rfl

/-- Findings on a file carry its name as it was given. -/
theorem ArtifactKind.file_of_mem {kind : ArtifactKind} {content file : String} {f : Finding}
    (h : f ∈ kind.findings content file) : f.file = file := by
  cases kind with
  | buildFile => exact BuildFile.file_of_mem h
  | manifest => exact Workload.file_of_mem h

/-! ### Results -/

namespace Check

/-- The findings on one artifact under the rules that are in force, in the order in which they are
found. -/
def IsBlock (fs : FileSystem) (s : Selection) (a : Artifact) (block : List Finding) : Prop :=
  (∃ bytes, fs.read a.path = .ok bytes ∧
    (a.kind.findings (Text.Utf8.lossy bytes) a.path.text).filter (s.isEnabled ·.rule) = block) ∧
  ∀ f ∈ block, f.file = a.path.text

theorem isBlock_select {fs : FileSystem} {s : Selection} {a : Artifact} {block : List Finding}
    (h : analyze fs a = .ok block) : IsBlock fs s a (select s block) := by
  obtain ⟨bytes, hbytes, rfl⟩ := analyze_eq_ok_iff.mp h
  refine ⟨⟨bytes, hbytes, rfl⟩, fun f hf ↦ ?_⟩
  exact ArtifactKind.file_of_mem (List.mem_filter.mp hf).1

/-- The findings of a result are the blocks of the artifacts that the paths stand for, one after
another. -/
def GroupedByArtifact (fs : FileSystem) (paths : List Path) (r : CheckResult) : Prop :=
  ∃ artifacts blocks, Artifact.ofArguments fs paths = .ok artifacts ∧
    List.Forall₂ (IsBlock fs r.selection) artifacts blocks ∧ r.report.findings = blocks.flatten

theorem groupedByArtifact_of_run {fs : FileSystem} {period : Period} {request : CheckRequest}
    {r : CheckResult} (h : run fs period request = .ok r) :
    GroupedByArtifact fs request.paths r := by
  obtain ⟨selection, artifacts, found, -, hartifacts, hfound, rfl⟩ := run_eq_ok_iff.mp h
  obtain ⟨blocks, hblocks, rfl⟩ := analyzeAll_eq_ok_iff.mp hfound
  refine ⟨artifacts, blocks.map (select selection), hartifacts, ?_, ?_⟩
  · rw [List.forall₂_map_right_iff]
    exact hblocks.imp fun a block ↦ isBlock_select
  · show select selection blocks.flatten = _
    rw [select, List.filter_flatten]
    rfl

/-- A result that puts two others together. -/
structure IsSum (r first second : CheckResult) : Prop where
  findings : r.report.findings = first.report.findings ++ second.report.findings
  verdict : r.report.verdict = max first.report.verdict second.report.verdict
  artifactsScanned : r.report.summary.artifactsScanned.toNat =
    first.report.summary.artifactsScanned.toNat + second.report.summary.artifactsScanned.toNat
  findingsTotal : r.report.summary.findingsTotal.toNat =
    first.report.summary.findingsTotal.toNat + second.report.summary.findingsTotal.toNat
  info : r.report.summary.counts.info.toNat =
    first.report.summary.counts.info.toNat + second.report.summary.counts.info.toNat
  warning : r.report.summary.counts.warning.toNat =
    first.report.summary.counts.warning.toNat + second.report.summary.counts.warning.toNat
  error : r.report.summary.counts.error.toNat =
    first.report.summary.counts.error.toNat + second.report.summary.counts.error.toNat

theorem isSum_ofFindings {s : Selection} {period periodP periodQ : Period} {n m : Nat}
    {fs gs : List Finding} (hn : n + m < 2 ^ 32) (hfs : (fs ++ gs).length < 2 ^ 32) :
    IsSum ⟨.ofFindings period.startedAt period.finishedAt (n + m) (fs ++ gs), s⟩
      ⟨.ofFindings periodP.startedAt periodP.finishedAt n fs, s⟩
      ⟨.ofFindings periodQ.startedAt periodQ.finishedAt m gs, s⟩ := by
  rw [List.length_append] at hfs
  have hcount (severity : Severity) :
      (UInt32.ofNat ((fs ++ gs).countP (·.severity == severity))).toNat =
        (UInt32.ofNat (fs.countP (·.severity == severity))).toNat +
          (UInt32.ofNat (gs.countP (·.severity == severity))).toNat := by
    rw [toNat_ofNat_countP (by rwa [List.length_append]), toNat_ofNat_countP (by omega),
      toNat_ofNat_countP (by omega), List.countP_append]
  have hsize {k l : Nat} (h : k + l < UInt32.size) :
      (UInt32.ofNat (k + l)).toNat = (UInt32.ofNat k).toNat + (UInt32.ofNat l).toNat := by
    rw [UInt32.toNat_ofNat_of_lt' h, UInt32.toNat_ofNat_of_lt' (by omega),
      UInt32.toNat_ofNat_of_lt' (by omega)]
  have htotal : (UInt32.ofNat (fs ++ gs).length).toNat =
      (UInt32.ofNat fs.length).toNat + (UInt32.ofNat gs.length).toNat := by
    rw [List.length_append, hsize hfs]
  exact ⟨rfl, Verdict.ofFindings_append fs gs, hsize hn, htotal, hcount .info, hcount .warning,
    hcount .error⟩

/-! ### The law -/

theorem select_append (s : Selection) (fs gs : List Finding) :
    select s (fs ++ gs) = select s fs ++ select s gs :=
  List.filter_append ..

theorem run_append_eq_ok_iff {fs : FileSystem} {settings : String} {overrides : List String}
    {period : Period} {p q : List Path} {r : CheckResult} :
    run fs period ⟨p ++ q, settings, overrides⟩ = .ok r ↔ ∃ s as bs found others,
      selectionOf ⟨p ++ q, settings, overrides⟩ = .ok s ∧
      Artifact.ofArguments fs p = .ok as ∧ analyzeAll fs as = .ok found ∧
      Artifact.ofArguments fs q = .ok bs ∧ analyzeAll fs bs = .ok others ∧
      ⟨Report.ofFindings period.startedAt period.finishedAt (as.length + bs.length)
        (select s found ++ select s others), s⟩ = r := by
  rw [run_eq_ok_iff]
  constructor
  · rintro ⟨s, _, _, hs, hall, hanalyze, rfl⟩
    obtain ⟨as, bs, has, hbs, rfl⟩ := Artifact.ofArguments_append_eq_ok_iff.mp hall
    obtain ⟨found, others, hfound, hothers, rfl⟩ := analyzeAll_append_eq_ok_iff.mp hanalyze
    refine ⟨s, as, bs, found, others, hs, has, hfound, hbs, hothers, ?_⟩
    rw [List.length_append, select_append]
  · rintro ⟨s, as, bs, found, others, hs, has, hfound, hbs, hothers, rfl⟩
    refine ⟨s, as ++ bs, found ++ others, hs,
      Artifact.ofArguments_append_eq_ok_iff.mpr ⟨as, bs, has, hbs, rfl⟩,
      analyzeAll_append_eq_ok_iff.mpr ⟨found, others, hfound, hothers, rfl⟩, ?_⟩
    rw [List.length_append, select_append]

/-- A run over two lists of paths is the sum of the runs over each of them, whenever these take
place, as long as the counters do not run over. -/
theorem run_append (fs : FileSystem) (settings : String) (overrides : List String)
    (period periodP periodQ : Period) (p q : List Path)
    (hartifacts : ∀ artifacts, Artifact.ofArguments fs (p ++ q) = .ok artifacts →
      artifacts.length < 2 ^ 32)
    (hfindings : ∀ r, run fs period ⟨p ++ q, settings, overrides⟩ = .ok r →
      r.report.findings.length < 2 ^ 32) :
    ((∃ r, run fs period ⟨p ++ q, settings, overrides⟩ = .ok r) ↔
      (∃ r, run fs periodP ⟨p, settings, overrides⟩ = .ok r) ∧
        ∃ r, run fs periodQ ⟨q, settings, overrides⟩ = .ok r) ∧
    ∀ r first second, run fs period ⟨p ++ q, settings, overrides⟩ = .ok r →
      run fs periodP ⟨p, settings, overrides⟩ = .ok first →
      run fs periodQ ⟨q, settings, overrides⟩ = .ok second →
      IsSum r first second ∧ GroupedByArtifact fs (p ++ q) r := by
  refine ⟨⟨?_, ?_⟩, ?_⟩
  · rintro ⟨r, hr⟩
    obtain ⟨s, as, bs, found, others, hs, has, hfound, hbs, hothers, -⟩ :=
      run_append_eq_ok_iff.mp hr
    exact ⟨⟨_, run_eq_ok_iff.mpr ⟨s, as, found, hs, has, hfound, rfl⟩⟩,
      _, run_eq_ok_iff.mpr ⟨s, bs, others, hs, hbs, hothers, rfl⟩⟩
  · rintro ⟨⟨first, hfirst⟩, second, hsecond⟩
    obtain ⟨s, as, found, hs, has, hfound, -⟩ := run_eq_ok_iff.mp hfirst
    obtain ⟨-, bs, others, -, hbs, hothers, -⟩ := run_eq_ok_iff.mp hsecond
    exact ⟨_, run_append_eq_ok_iff.mpr
      ⟨s, as, bs, found, others, hs, has, hfound, hbs, hothers, rfl⟩⟩
  · intro r first second hr hfirst hsecond
    refine ⟨?_, groupedByArtifact_of_run hr⟩
    have hlength := hfindings r hr
    obtain ⟨s, as, bs, found, others, hs, has, hfound, hbs, hothers, rfl⟩ :=
      run_append_eq_ok_iff.mp hr
    -- The runs over the parts come upon what the run over the whole came upon.
    have hfirst' : run fs periodP ⟨p, settings, overrides⟩ = .ok _ :=
      run_eq_ok_iff.mpr ⟨s, as, found, hs, has, hfound, rfl⟩
    have hsecond' : run fs periodQ ⟨q, settings, overrides⟩ = .ok _ :=
      run_eq_ok_iff.mpr ⟨s, bs, others, hs, hbs, hothers, rfl⟩
    obtain rfl := Except.ok.inj (hfirst.symm.trans hfirst')
    obtain rfl := Except.ok.inj (hsecond.symm.trans hsecond')
    have hall := hartifacts _ (Artifact.ofArguments_append_eq_ok_iff.mpr ⟨as, bs, has, hbs, rfl⟩)
    rw [List.length_append] at hall
    exact isSum_ofFindings hall hlength

/-- A build file with a line against either rule, and a pod without containers. -/
def podAndBuildFile : FileSystem where
  root := .directory [("pod.yaml", .file (Text.Utf8.encode "spec: \x7b\x7d\n")),
    ("Dockerfile", .file (Text.Utf8.encode "CMD run\nENTRYPOINT run\n"))]
  workingDirectory := []

/-- The pod alone passes, and the build file fails each time it is named. -/
theorem run_append_podAndBuildFile :
    let p := [Path.ofText "pod.yaml"]
    let q := [Path.ofText "Dockerfile", .ofText "pod.yaml", .ofText "./Dockerfile"]
    (∀ artifacts, Artifact.ofArguments podAndBuildFile (p ++ q) = .ok artifacts →
        artifacts.length < 2 ^ 32) ∧
      (∀ r, run podAndBuildFile default ⟨p ++ q, "", ["dg101 "]⟩ = .ok r →
        r.report.findings.length < 2 ^ 32) ∧
      ∃ r first second, run podAndBuildFile default ⟨p ++ q, "", ["dg101 "]⟩ = .ok r ∧
        IsSum r first second ∧ GroupedByArtifact podAndBuildFile (p ++ q) r ∧
        first.report.verdict = .pass ∧ r.report.verdict = .fail := by
  intro p q
  have hartifacts : ∃ artifacts, Artifact.ofArguments podAndBuildFile (p ++ q) = .ok artifacts ∧
      artifacts.length < 2 ^ 32 := by decide +kernel
  have hr : ∃ r, run podAndBuildFile default ⟨p ++ q, "", ["dg101 "]⟩ = .ok r ∧
      r.report.findings.length < 2 ^ 32 ∧ r.report.verdict = .fail := by decide +kernel
  have hfirst : ∃ r, run podAndBuildFile default ⟨p, "", ["dg101 "]⟩ = .ok r ∧
      r.report.verdict = .pass := by decide +kernel
  obtain ⟨artifacts, hartifacts, hlength⟩ := hartifacts
  obtain ⟨r, hr, htotal, hfail⟩ := hr
  obtain ⟨first, hfirst, hpass⟩ := hfirst
  have hall (artifacts' : List Artifact)
      (h : Artifact.ofArguments podAndBuildFile (p ++ q) = .ok artifacts') :
      artifacts'.length < 2 ^ 32 := by
    rwa [Except.ok.inj (h.symm.trans hartifacts)]
  have hfindings (r' : CheckResult)
      (h : run podAndBuildFile default ⟨p ++ q, "", ["dg101 "]⟩ = .ok r') :
      r'.report.findings.length < 2 ^ 32 := by
    rwa [Except.ok.inj (h.symm.trans hr)]
  obtain ⟨hiff, hsum⟩ :=
    run_append podAndBuildFile "" ["dg101 "] default default default p q hall hfindings
  obtain ⟨-, second, hsecond⟩ := hiff.mp ⟨r, hr⟩
  obtain ⟨hsum, hblocks⟩ := hsum r first second hr hfirst hsecond
  exact ⟨hall, hfindings, r, first, second, hr, hsum, hblocks, hpass, hfail⟩

end Check

end ShutdownLint

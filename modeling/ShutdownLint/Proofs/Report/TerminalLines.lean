import Mathlib.Algebra.GroupWithZero.Nat
import Mathlib.Data.List.Forall2
import ShutdownLint.Proofs.Check.Composition
import ShutdownLint.Proofs.Check.Severity
import ShutdownLint.Proofs.Decimal.Digits
import ShutdownLint.Proofs.Rule.Wording
import ShutdownLint.Proofs.Workload.FindingSources
import ShutdownLint.Report.Text
/-!
The lines of a report for a terminal.

A finding is written with its texts as they are, so it takes one line exactly if none of them has a
line feed. Of the texts of a finding only the name of a container comes out of the file that is
analyzed. Where such a name has a line feed, the report has more lines than findings, and what
stands behind the line feed looks like a line of its own.
-/

set_option autoImplicit false

namespace ShutdownLint.Report

open Text Workload

/-! ### Lines -/

/-- A text is made of lines, each of them ended by a line feed. -/
structure IsMadeOf (text : String) (lines : List String) : Prop where
  text : text = String.join (lines.map (· ++ "\n"))
  unbroken : ∀ l ∈ lines, '\n' ∉ l.toList

theorem count_join (lines : List String) :
    (String.join (lines.map (· ++ "\n"))).toList.count '\n' =
      lines.length + (lines.map (·.toList.count '\n')).sum := by
  induction lines with
  | nil => rfl
  | cons l lines ih =>
    have hend : "\n".toList.count '\n' = 1 := by decide
    rw [List.map_cons, String.join_cons, String.toList_append, String.toList_append,
      List.count_append, List.count_append, hend, ih, List.map_cons, List.sum_cons,
      List.length_cons]
    omega

theorem sum_count_eq_zero_iff {lines : List String} :
    (lines.map (·.toList.count '\n')).sum = 0 ↔ ∀ l ∈ lines, '\n' ∉ l.toList := by
  rw [List.sum_eq_zero_iff_forall_eq_nat, List.forall_mem_map]
  simp only [List.count_eq_zero]

/-- Line feeds are counted by lines. -/
theorem IsMadeOf.count_eq {text : String} {lines : List String} (h : IsMadeOf text lines) :
    text.toList.count '\n' = lines.length := by
  rw [h.text, count_join, sum_count_eq_zero_iff.mpr h.unbroken, Nat.add_zero]

/-! ### Findings -/

/-- A line shows a finding: it begins with the sign for the severity and the rule, and it ends with
the message. -/
structure Shows (f : Finding) (line : String) : Prop where
  begins : (f.severity.icon ++ "  [" ++ f.rule ++ "]").toList <+: line.toList
  ends : f.message.toList <:+ line.toList

/-- A text has a line for each finding, in their order, or a single line if there is none. -/
def LineByLine (fs : List Finding) (text : String) : Prop :=
  ∃ lines, IsMadeOf text lines ∧ lines.length = max 1 fs.length ∧
    (fs ≠ [] → List.Forall₂ Shows fs lines)

theorem LineByLine.count_eq {fs : List Finding} {text : String} (h : LineByLine fs text) :
    text.toList.count '\n' = max 1 fs.length := by
  obtain ⟨lines, hlines, hlength, -⟩ := h
  rw [hlines.count_eq, hlength]

theorem shows_terminalLine (f : Finding) : Shows f f.terminalLine where
  begins := by
    rw [Finding.terminalLine]
    simp [List.append_assoc]
  ends := by
    rw [Finding.terminalLine, String.toList_append]
    exact List.suffix_append ..

/-- What is written line by line, unless a text breaks a line. -/
def written (fs : List Finding) : List String :=
  if fs.isEmpty then ["\u2705 All DrainGuard checks passed!"] else fs.map Finding.terminalLine

theorem renderText_eq (fs : List Finding) :
    renderText fs = String.join ((written fs).map (· ++ "\n")) := by
  unfold renderText written
  cases fs with
  | nil => decide
  | cons f fs =>
    simp only [List.isEmpty_cons, Bool.false_eq_true, if_false, List.map_map]
    rfl

theorem length_written (fs : List Finding) : (written fs).length = max 1 fs.length := by
  unfold written
  cases fs <;> simp

theorem forall_mem_written_iff {fs : List Finding} :
    (∀ l ∈ written fs, '\n' ∉ l.toList) ↔ ∀ f ∈ fs, '\n' ∉ f.terminalLine.toList := by
  unfold written
  cases fs with
  | nil => simp
  | cons f fs =>
    rw [List.isEmpty_cons, if_neg Bool.false_ne_true, List.forall_mem_map]

/-- A report has as many lines as findings exactly if none of these breaks its line. -/
theorem count_renderText_eq_iff {fs : List Finding} :
    (renderText fs).toList.count '\n' = max 1 fs.length ↔
      ∀ f ∈ fs, '\n' ∉ f.terminalLine.toList := by
  rw [renderText_eq, count_join, length_written, Nat.add_eq_left, sum_count_eq_zero_iff,
    forall_mem_written_iff]

/-- A report has a line for each finding exactly if none of these breaks its line. -/
theorem lineByLine_renderText_iff {fs : List Finding} :
    LineByLine fs (renderText fs) ↔ ∀ f ∈ fs, '\n' ∉ f.terminalLine.toList := by
  refine ⟨fun h ↦ count_renderText_eq_iff.mp h.count_eq, fun h ↦ ?_⟩
  refine ⟨written fs, ⟨renderText_eq fs, forall_mem_written_iff.mpr h⟩, length_written fs, ?_⟩
  intro hne
  rw [written, if_neg (mt List.isEmpty_iff.mp hne), List.forall₂_map_right_iff]
  exact List.forall₂_same.mpr fun f _ ↦ shows_terminalLine f

/-- A finding takes one line if its texts do. -/
theorem lineFeed_notMem_terminalLine_iff {f : Finding} : '\n' ∉ f.terminalLine.toList ↔
    '\n' ∉ f.rule.toList ∧ '\n' ∉ f.file.toList ∧ '\n' ∉ f.message.toList := by
  have hicon : '\n' ∉ f.severity.icon.toList := by cases f.severity <;> decide
  have hline : '\n' ∉ (f.line.elim "" fun n ↦ ":" ++ Decimal.text n.toNat).toList := by
    cases f.line with
    | none => decide
    | some n =>
      have hdigits : '\n' ∉ Decimal.digits n.toNat := fun h ↦
        absurd (Decimal.isDigit_of_mem_digits h) (by decide)
      simpa [Decimal.text] using hdigits
  unfold Finding.terminalLine Finding.place
  simp [hicon, hline]

/-! ### The findings on a file -/

theorem lineFeed_notMem_id (r : Rule) : '\n' ∉ r.id.toList := by
  cases r <;> decide

theorem lineFeed_notMem_template (r : Rule) : '\n' ∉ r.template.toList :=
  fun h ↦ absurd (Rule.isPlain_of_mem_template h) (by decide)

/-- The message for a container takes one line exactly if the name of the container does. -/
theorem lineFeed_notMem_around_iff {message name after : String}
    (hmessage : message = "Container \"" ++ name ++ after) (hafter : '\n' ∉ after.toList) :
    '\n' ∉ message.toList ↔ '\n' ∉ name.toList := by
  have hbefore : '\n' ∉ "Container \"".toList := by decide
  rw [hmessage, String.toList_append, String.toList_append, List.mem_append, List.mem_append]
  simp only [hbefore, hafter, false_or, or_false]

theorem lineFeed_notMem_messageFor_iff {r : Rule}
    (h : r = .missingPreStop ∨ r = .missingReadinessProbe) (name : String) :
    '\n' ∉ (r.messageFor name).toList ↔ '\n' ∉ name.toList := by
  obtain ⟨after, hframes⟩ := Rule.exists_frames h
  exact lineFeed_notMem_around_iff (Rule.messageFor_eq hframes name)
    (mt hframes.mem_template (lineFeed_notMem_template r))

/-- No container on which something is found has a line feed in its name. -/
def HasUnbrokenNames (content file : String) : Prop :=
  ∀ documents, Yaml.Stream.parse content = .ok documents → ∀ d ∈ documents, ∀ c,
    HasContainer d c → Container.findings ⟨c⟩ file ≠ [] → '\n' ∉ (Container.name ⟨c⟩).toList

theorem lineFeed_notMem_workload_iff {file : String} (hfile : '\n' ∉ file.toList)
    (content : String) :
    (∀ f ∈ Workload.findings content file, '\n' ∉ f.terminalLine.toList) ↔
      HasUnbrokenNames content file := by
  simp only [lineFeed_notMem_terminalLine_iff]
  constructor
  · intro h documents hdocuments d hd c hc hne
    obtain ⟨f, hf⟩ := List.exists_mem_of_ne_nil _ hne
    have hmessage := (h f (mem_workload_findings_of_container hdocuments hd hc hf)).2.2
    rcases mem_container_findings_iff.mp hf with ⟨-, rfl⟩ | ⟨-, rfl⟩
    · exact (lineFeed_notMem_messageFor_iff (Or.inl rfl) _).mp hmessage
    · exact (lineFeed_notMem_messageFor_iff (Or.inr rfl) _).mp hmessage
  · intro h f hf
    obtain ⟨r, -, hrule, -⟩ := Workload.exists_rule_of_mem hf
    refine ⟨hrule ▸ lineFeed_notMem_id r, Workload.file_of_mem hf ▸ hfile, ?_⟩
    rcases mem_workload_findings hf with rfl | ⟨documents, hdocuments, d, hd, c, hc, hf⟩
    · exact lineFeed_notMem_template _
    · have hname := h documents hdocuments d hd c hc (List.ne_nil_of_mem hf)
      rcases mem_container_findings_iff.mp hf with ⟨-, rfl⟩ | ⟨-, rfl⟩
      · exact (lineFeed_notMem_messageFor_iff (Or.inl rfl) _).mpr hname
      · exact (lineFeed_notMem_messageFor_iff (Or.inr rfl) _).mpr hname

theorem lineFeed_notMem_buildFile {file : String} (hfile : '\n' ∉ file.toList) {content : String}
    {f : Finding} (hf : f ∈ BuildFile.findings content file) : '\n' ∉ f.terminalLine.toList := by
  rw [lineFeed_notMem_terminalLine_iff]
  obtain ⟨k, line, r, -, -, rfl⟩ := BuildFile.mem_findings_iff.mp hf
  exact ⟨lineFeed_notMem_id r, hfile, lineFeed_notMem_template r⟩

theorem lineFeed_notMem_findings_iff {file : String} (hfile : '\n' ∉ file.toList)
    (kind : ArtifactKind) (content : String) :
    (∀ f ∈ kind.findings content file, '\n' ∉ f.terminalLine.toList) ↔
      (kind = .manifest → HasUnbrokenNames content file) := by
  cases kind with
  | buildFile => exact iff_of_true (fun f hf ↦ lineFeed_notMem_buildFile hfile hf) nofun
  | manifest =>
    rw [forall_prop_of_true rfl]
    exact lineFeed_notMem_workload_iff hfile content

/-- The report on a file without a line feed in its name has a line for each finding exactly if no
container on which something is found has a line feed in its name. Otherwise it has not even as many
lines as it should. -/
theorem lineByLine_renderText_findings {file : String} (hfile : '\n' ∉ file.toList)
    (kind : ArtifactKind) (content : String) :
    (LineByLine (kind.findings content file) (renderText (kind.findings content file)) ↔
      (kind = .manifest → HasUnbrokenNames content file)) ∧
    ((renderText (kind.findings content file)).toList.count '\n' =
        max 1 (kind.findings content file).length ↔
      (kind = .manifest → HasUnbrokenNames content file)) := by
  rw [lineByLine_renderText_iff, count_renderText_eq_iff]
  have hiff := lineFeed_notMem_findings_iff hfile kind content
  exact ⟨hiff, hiff⟩

/-- A container with a line feed in its name, on which nothing is found, and one on which something
is found. -/
def quietName : String :=
  "spec:\n  containers:\n  - name: \"a\\nb\"\n    readinessProbe: 1\n" ++
    "    lifecycle: \x7bpreStop: 1\x7d\n  - name: c\n"

theorem lineByLine_renderText_findings_quietName : '\n' ∉ "pod.yaml".toList ∧
    LineByLine (ArtifactKind.manifest.findings quietName "pod.yaml")
      (renderText (ArtifactKind.manifest.findings quietName "pod.yaml")) := by
  have hfile : '\n' ∉ "pod.yaml".toList := by decide
  obtain ⟨found, hfound, htest⟩ : ∃ found, Yaml.Stream.parse quietName = .ok found ∧
      ∀ d ∈ found, (PodSpec.ofDocument? d).all fun p ↦ p.containers.all fun c ↦
        (c.findings "pod.yaml").isEmpty || !c.name.toList.contains '\n' := by decide +kernel
  refine ⟨hfile, (lineByLine_renderText_findings hfile .manifest quietName).1.mpr ?_⟩
  rintro - documents hdocuments d hd c hc hne
  obtain rfl := Except.ok.inj (hfound.symm.trans hdocuments)
  have hone := of_all_containers (htest d hd) hc
  rw [List.isEmpty_eq_false_iff.mpr hne] at hone
  simpa using hone

/-- A container whose name has a line feed and then what looks like a line of a report. -/
def forgedLine : String :=
  "spec:\n  containers:\n  - name: \"a\\n\u274c  [DG001] b\"\n"

theorem not_hasUnbrokenNames_forgedLine : ¬HasUnbrokenNames forgedLine "pod.yaml" := by
  intro h
  obtain ⟨documents, hparse, d, hd, htest⟩ : ∃ documents,
      Yaml.Stream.parse forgedLine = .ok documents ∧ ∃ d ∈ documents,
        (PodSpec.ofDocument? d).any fun p ↦ p.containers.any fun c ↦
          c.name == "a\n\u274c  [DG001] b" && !(c.findings "pod.yaml").isEmpty := by
    decide +kernel
  obtain ⟨c, hc, hboth⟩ := exists_of_any_containers htest
  obtain ⟨hname, hfound⟩ := Bool.and_eq_true_iff.mp hboth
  have hunbroken := h documents hparse d hd c hc (by simpa using hfound)
  rw [beq_iff_eq.mp hname] at hunbroken
  revert hunbroken
  decide

/-- Its findings take more lines than there are findings. -/
theorem not_lineByLine_forgedLine : '\n' ∉ "pod.yaml".toList ∧
    (renderText (ArtifactKind.manifest.findings forgedLine "pod.yaml")).toList.count '\n' ≠
      max 1 (ArtifactKind.manifest.findings forgedLine "pod.yaml").length ∧
    ¬LineByLine (ArtifactKind.manifest.findings forgedLine "pod.yaml")
      (renderText (ArtifactKind.manifest.findings forgedLine "pod.yaml")) := by
  have hfile : '\n' ∉ "pod.yaml".toList := by decide
  have hbroken := mt ((lineFeed_notMem_findings_iff hfile .manifest forgedLine).mp · rfl)
    not_hasUnbrokenNames_forgedLine
  exact ⟨hfile, mt count_renderText_eq_iff.mp hbroken, mt lineByLine_renderText_iff.mp hbroken⟩

end ShutdownLint.Report

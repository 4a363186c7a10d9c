import ShutdownLint.Proofs.Check.Composition
import ShutdownLint.Proofs.Report.JunitReadBack
import ShutdownLint.Proofs.Report.LegalCharacters
import ShutdownLint.Proofs.Rule.Wording
import ShutdownLint.Proofs.Workload.FindingSources
import ShutdownLint.Proofs.Yaml.AlphabetValue
/-!
The characters of a JUnit suite. Escaping gives four characters another spelling and leaves all
others as they are, control characters among them, so that a suite is XML exactly if the texts that
it shows are. Of what a suite shows, only the file and the names of containers come from outside,
and a name has a character that XML forbids only if an escape in the manifest spells it.
-/

set_option autoImplicit false

namespace ShutdownLint.Report.Junit

open Workload PodSpec Fields

variable {file : String} {c : Fields}

/-! ### Escaping -/

theorem allLegal_escapeChar {c : Char} : AllLegal (escapeChar c) ↔ isLegal c = true := by
  unfold escapeChar
  split
  · exact iff_of_true (by decide) (by decide)
  · exact iff_of_true (by decide) (by decide)
  · exact iff_of_true (by decide) (by decide)
  · exact iff_of_true (by decide) (by decide)
  · exact List.forall_mem_singleton

theorem allLegal_escape {s : String} : AllLegal (escape s).toList ↔ AllLegal s.toList := by
  rw [toList_escape, allLegal_flatMap]
  simp only [allLegal_escapeChar]
  exact Iff.rfl

theorem allLegal_attr {name value : String} (hname : AllLegal name.toList) :
    AllLegal (attr name value).toList ↔ AllLegal value.toList := by
  have hspace : AllLegal " ".toList := by decide
  have hequals : AllLegal "=\"".toList := by decide
  have hquote : AllLegal "\"".toList := by decide
  simp only [attr, String.toList_append, allLegal_append, hspace, hname, hequals, hquote, true_and,
    and_true]

/-! ### Suites -/

theorem allLegal_failure {f : Finding} : AllLegal (failure f).toList ↔
    (f.severity = .error → AllLegal f.message.toList) := by
  have hopen : AllLegal "<failure".toList := by decide
  have hclose : AllLegal "/>".toList := by decide
  have hname : AllLegal "message".toList := by decide
  unfold failure
  by_cases herror : f.severity = .error
  · simp only [herror, if_true, String.toList_append, allLegal_append, allLegal_attr hname,
      allLegal_escape, hopen, hclose, true_and, and_true, forall_const]
  · rw [if_neg herror]
    exact iff_of_true (by decide) fun h ↦ absurd h herror

/-- The test case of a finding shows four of its texts. -/
theorem allLegal_testCase {f : Finding} : AllLegal (testCase f).toList ↔
    AllLegal f.rule.toList ∧ AllLegal (f.message.toList.take 60) ∧ AllLegal f.file.toList ∧
      (f.severity = .error → AllLegal f.message.toList) := by
  have hopen : AllLegal "    <testcase".toList := by decide
  have hname : AllLegal "name".toList := by decide
  have hcolon : AllLegal ": ".toList := by decide
  have hclass : AllLegal "classname".toList := by decide
  have hangle : AllLegal ">".toList := by decide
  have hclose : AllLegal "</testcase>\n".toList := by decide
  have hshorten : (shorten f.message).toList = f.message.toList.take 60 := String.toList_ofList
  unfold testCase
  simp only [String.toList_append, allLegal_append, allLegal_attr hname, allLegal_attr hclass,
    allLegal_escape, allLegal_failure, hshorten, hopen, hcolon, hangle, hclose, true_and, and_true,
    and_assoc]

/-- A suite is XML exactly if all texts are that it shows. -/
theorem allLegal_renderJunit {fs : List Finding} : AllLegal (renderJunit fs).toList ↔
    ∀ f ∈ fs, AllLegal f.rule.toList ∧ AllLegal (f.message.toList.take 60) ∧
      AllLegal f.file.toList ∧ (f.severity = .error → AllLegal f.message.toList) := by
  have hopen : AllLegal "<?xml version=\"1.0\"?>\n<testsuites>\n  <testsuite".toList := by decide
  have hname : AllLegal "name".toList := by decide
  have htests : AllLegal "tests".toList := by decide
  have hfailures : AllLegal "failures".toList := by decide
  have hdisplay : AllLegal displayName.toList := by decide
  have hangle : AllLegal ">\n".toList := by decide
  have hfooter : AllLegal footer.toList := by decide
  simp only [toList_renderJunit, allLegal_append, allLegal_attr hname, allLegal_attr htests,
    allLegal_attr hfailures, allLegal_escape, allLegal_text, allLegal_flatMap, allLegal_testCase,
    hopen, hdisplay, hangle, hfooter, true_and, and_true]

/-! ### Findings -/

theorem allLegal_id (r : Rule) : AllLegal r.id.toList := by
  cases r <;> decide

theorem allLegal_template (r : Rule) : AllLegal r.template.toList := by
  intro c hc
  have hplain := Rule.isPlain_of_mem_template hc
  simp only [Rule.isPlain, Bool.and_eq_true, decide_eq_true_eq] at hplain
  exact isLegal_iff.mpr ⟨(0x20, 0xD7FF), by decide, hplain.1, by omega⟩

/-- Of the name of a container a test case shows at most 49 characters. -/
theorem allLegal_take_around {message name after : String}
    (hmessage : message = "Container \"" ++ name ++ after) (hafter : AllLegal after.toList) :
    AllLegal (message.toList.take 60) ↔ AllLegal (name.toList.take 49) := by
  have hbefore : AllLegal ("Container \"".toList.take 60) := by decide
  have hlength : "Container \"".toList.length = 11 := rfl
  have hrest : AllLegal (after.toList.take (49 - name.toList.length)) := fun c hc ↦
    hafter c (List.mem_of_mem_take hc)
  rw [hmessage, String.toList_append, String.toList_append, List.append_assoc, List.take_append,
    List.take_append, hlength, allLegal_append, allLegal_append]
  exact ⟨fun h ↦ h.2.1, fun h ↦ ⟨hbefore, h, hrest⟩⟩

theorem allLegal_forContainer {r : Rule} (h : r = .missingPreStop ∨ r = .missingReadinessProbe)
    (name : String) : AllLegal ((r.forContainer file name).message.toList.take 60) ↔
      AllLegal (name.toList.take 49) := by
  obtain ⟨after, hframes⟩ := Rule.exists_frames h
  exact allLegal_take_around (Rule.messageFor_eq hframes name) fun c hc ↦
    allLegal_template r c (hframes.mem_template hc)

/-- A container of a document that is reported since it has no hook or no probe. -/
def IsReported (document : Yaml.Value) (c : Fields) : Prop :=
  HasContainer document c ∧ (¬HasPreStop c ∨ ¬Defined "readinessProbe" c)

theorem allLegal_renderJunit_manifest {file : String} (hfile : AllLegal file.toList)
    (content : String) : AllLegal (renderJunit (Workload.findings content file)).toList ↔
      ∀ documents, Yaml.Stream.parse content = .ok documents → ∀ d ∈ documents, ∀ c,
        IsReported d c → AllLegal ((Container.name ⟨c⟩).toList.take 49) := by
  rw [allLegal_renderJunit]
  constructor
  · rintro h documents hdocuments d hd c ⟨hc, hmissing⟩
    rcases hmissing with hmissing | hmissing
    · have hf : Rule.missingPreStop.forContainer file (Container.name ⟨c⟩) ∈
          Container.findings ⟨c⟩ file := mem_container_findings_iff.mpr (Or.inl ⟨hmissing, rfl⟩)
      exact (allLegal_forContainer (Or.inl rfl) _).mp
        (h _ (mem_workload_findings_of_container hdocuments hd hc hf)).2.1
    · have hf : Rule.missingReadinessProbe.forContainer file (Container.name ⟨c⟩) ∈
          Container.findings ⟨c⟩ file := mem_container_findings_iff.mpr (Or.inr ⟨hmissing, rfl⟩)
      exact (allLegal_forContainer (Or.inr rfl) _).mp
        (h _ (mem_workload_findings_of_container hdocuments hd hc hf)).2.1
  · intro h f hf
    have hmessage : AllLegal (f.message.toList.take 60) := by
      rcases mem_workload_findings hf with rfl | ⟨documents, hdocuments, d, hd, c, hc, hf⟩
      · exact (allLegal_template _).take 60
      · rcases mem_container_findings_iff.mp hf with ⟨hmissing, rfl⟩ | ⟨hmissing, rfl⟩
        · exact (allLegal_forContainer (Or.inl rfl) _).mpr
            (h documents hdocuments d hd c ⟨hc, Or.inl hmissing⟩)
        · exact (allLegal_forContainer (Or.inr rfl) _).mpr
            (h documents hdocuments d hd c ⟨hc, Or.inr hmissing⟩)
    obtain ⟨r, hr, hrule, hseverity⟩ := Workload.exists_rule_of_mem hf
    refine ⟨hrule ▸ allLegal_id r, hmessage, Workload.file_of_mem hf ▸ hfile, fun herror ↦ ?_⟩
    obtain rfl := Rule.severity_eq_error_iff.mp (hseverity.symm.trans herror)
    cases hr

theorem allLegal_renderJunit_buildFile {file : String} (hfile : AllLegal file.toList)
    (content : String) : AllLegal (renderJunit (BuildFile.findings content file)).toList := by
  refine allLegal_renderJunit.mpr fun f hf ↦ ?_
  obtain ⟨k, line, r, -, -, rfl⟩ := BuildFile.mem_findings_iff.mp hf
  have htemplate := allLegal_template r
  exact ⟨allLegal_id r, htemplate.take 60, hfile, fun _ ↦ htemplate⟩

/-! ### Texts without escapes -/

/-- The characters that a YAML stream holds, without the one that begins an escape. -/
def Unescaped (c : Char) : Prop :=
  Yaml.isPrintable c = true ∧ c ≠ '\\'

theorem escapeFree_unescaped : Yaml.EscapeFree Unescaped where
  space := ⟨rfl, by decide⟩
  lineFeed := ⟨rfl, by decide⟩
  backslash h := h.2 rfl

theorem allLegal_of_over {cs : List Char} (h : Yaml.Over Unescaped cs) : AllLegal cs :=
  fun c hc ↦ isLegal_of_isPrintable (h c hc).1

/-- A name is a string in the manifest, or a text of the tool's own. -/
theorem allLegal_name (h : ∀ s, Yaml.Value.lookup "name" c = some (.string s) →
    AllLegal s.toList) : AllLegal (Container.name ⟨c⟩).toList := by
  have hunnamed : AllLegal Container.unnamed.toList := by decide
  unfold Container.name
  dsimp only
  split_ifs with hempty
  · exact hunnamed
  · split
    · rename_i s hs
      exact h s hs
    · exact allLegal_numberText _
    · split
      · decide
      · decide
    · decide

/-- No character of a name comes from an escape if there is none in the manifest. -/
theorem allLegal_name_of_not_mem {content : String} (hescape : '\\' ∉ content.toList)
    {documents : List Yaml.Value} (hdocuments : Yaml.Stream.parse content = .ok documents)
    {d : Yaml.Value} (hd : d ∈ documents) (hc : HasContainer d c) :
    AllLegal (Container.name ⟨c⟩).toList := by
  have hcontent : Yaml.Over Unescaped content.toList := fun x hx ↦
    ⟨List.all_eq_true.mp (Yaml.all_isPrintable_of_parse hdocuments) x hx,
      fun heq ↦ hescape (heq ▸ hx)⟩
  have hover : d.Over Unescaped := Yaml.over_parse escapeFree_unescaped hcontent hdocuments hd
  refine allLegal_name fun s hs ↦ allLegal_of_over ?_
  exact hover.fields c hc.reaches _ (Yaml.Value.mem_of_lookup_eq_some hs) s rfl

/-- The suite of the findings on a file with a legal name is XML exactly if, as far as the name of a
container that is reported is shown, all its characters are legal. Only an escape in the manifest
can bring in one that is not. -/
theorem allLegal_renderJunit_findings {file : String} (hfile : AllLegal file.toList)
    (kind : ArtifactKind) (content : String) :
    (AllLegal (renderJunit (kind.findings content file)).toList ↔
      (kind = .manifest → ∀ documents, Yaml.Stream.parse content = .ok documents →
        ∀ d ∈ documents, ∀ c, IsReported d c →
          AllLegal ((Container.name ⟨c⟩).toList.take 49))) ∧
      ('\\' ∉ content.toList → AllLegal (renderJunit (kind.findings content file)).toList) := by
  cases kind with
  | buildFile =>
    have hlegal := allLegal_renderJunit_buildFile hfile content
    exact ⟨iff_of_true hlegal nofun, fun _ ↦ hlegal⟩
  | manifest =>
    have hiff := allLegal_renderJunit_manifest hfile content
    refine ⟨by rwa [forall_prop_of_true rfl], fun hescape ↦ hiff.mpr ?_⟩
    intro documents hdocuments d hd c hc
    exact (allLegal_name_of_not_mem hescape hdocuments hd hc.1).take 49

/-- A container in whose name a control character comes too late to be shown. -/
def lateControl : String :=
  "spec:\n  containers:\n    - name: \"" ++ String.ofList (List.replicate 49 'x') ++ "\\x01\"\n"

theorem allLegal_renderJunit_findings_lateControl : AllLegal "pod.yaml".toList ∧
    AllLegal (renderJunit (ArtifactKind.manifest.findings lateControl "pod.yaml")).toList := by
  have hfile : AllLegal "pod.yaml".toList := by decide
  obtain ⟨found, hfound, htest⟩ : ∃ found, Yaml.Stream.parse lateControl = .ok found ∧
      ∀ d ∈ found, (PodSpec.ofDocument? d).all fun p ↦
        p.containers.all fun c ↦ decide (AllLegal (c.name.toList.take 49)) := by decide +kernel
  refine ⟨hfile, (allLegal_renderJunit_findings hfile .manifest lateControl).1.mpr ?_⟩
  rintro - documents hdocuments d hd c ⟨hc, -⟩
  obtain rfl := Except.ok.inj (hfound.symm.trans hdocuments)
  obtain ⟨p, hp, hmem⟩ := hasContainer_iff.mp hc
  have hall := htest d hd
  rw [hp, Option.all_some] at hall
  exact of_decide_eq_true (List.all_eq_true.mp hall ⟨c⟩ hmem)

/-- A container whose name has an escaped control character. -/
def escapedName : String :=
  "spec:\n  containers:\n    - name: \"a\\x01b\"\n"

theorem not_allLegal_escapedName : AllLegal "pod.yaml".toList ∧
    ¬AllLegal (renderJunit (ArtifactKind.manifest.findings escapedName "pod.yaml")).toList := by
  have hfile : AllLegal "pod.yaml".toList := by decide
  refine ⟨hfile, fun h ↦ ?_⟩
  obtain ⟨documents, hparse, d, hd, htest⟩ : ∃ documents,
      Yaml.Stream.parse escapedName = .ok documents ∧ ∃ d ∈ documents,
        (PodSpec.ofDocument? d).any fun p ↦
          p.containers.any fun c ↦ c.name == "a\x01b" && !c.hasPreStop := by decide +kernel
  obtain ⟨p, hp, hcontainers⟩ := (Option.any_eq_true _ _).mp htest
  obtain ⟨⟨c⟩, hc, hboth⟩ := List.any_eq_true.mp hcontainers
  obtain ⟨hname, hhook⟩ := Bool.and_eq_true_iff.mp hboth
  have hmissing : ¬HasPreStop c := by
    rw [← Container.hasPreStop_iff (c := ⟨c⟩)]
    simpa using hhook
  have hlegal := (allLegal_renderJunit_manifest hfile escapedName).mp h documents hparse d hd c
    ⟨hasContainer_iff.mpr ⟨p, hp, hc⟩, Or.inl hmissing⟩
  rw [beq_iff_eq.mp hname] at hlegal
  revert hlegal
  decide

end ShutdownLint.Report.Junit

import Mathlib.Data.List.Basic
import ShutdownLint.Finding
import ShutdownLint.Proofs.Text.Replace
/-!
The wordings of the rules on containers. Each has one place for a name, and the name of a container
stands there as it is, also if it looks like such a place itself. So the message of a finding tells
the names of containers apart.
-/

set_option autoImplicit false

namespace ShutdownLint.Rule

open Text

/-- The wording of a rule consists of these two texts with a place for a name between them. -/
structure Frames (r : Rule) (before after : String) : Prop where
  template : r.template = before ++ placeholder ++ after
  before : '\x7b' ∉ before.toList
  after : '\x7b' ∉ after.toList

theorem frames_missingPreStop : missingPreStop.Frames "Container \""
    ("\": no preStop hook. Add \"sleep 5\" to let " ++
      "kube-proxy propagate iptables rule removal before SIGTERM.") where
  template := by decide +kernel
  before := by decide
  after := notMem_of_all
    (all_toList_append (all_toList_ofList (by decide)) (all_toList_ofList (by decide)))

theorem frames_missingReadinessProbe : missingReadinessProbe.Frames "Container \""
    ("\": no readinessProbe. Without it, the " ++
      "endpoint won't be removed from Service during shutdown.") where
  template := by decide +kernel
  before := by decide
  after := notMem_of_all
    (all_toList_append (all_toList_ofList (by decide)) (all_toList_ofList (by decide)))

variable {r : Rule} {before after : String} {c : Char}

theorem exists_frames (h : r = missingPreStop ∨ r = missingReadinessProbe) :
    ∃ after, r.Frames "Container \"" after := by
  rcases h with rfl | rfl
  · exact ⟨_, frames_missingPreStop⟩
  · exact ⟨_, frames_missingReadinessProbe⟩

theorem Frames.mem_template (h : r.Frames before after) (hc : c ∈ after.toList) :
    c ∈ r.template.toList := by
  rw [h.template, String.toList_append]
  exact List.mem_append_right _ hc

/-- A letter, a digit, a mark of punctuation or a space. -/
def isPlain (c : Char) : Bool :=
  0x20 ≤ c.toNat && c.toNat ≤ 0x7E

/-- A wording is one line of such characters. -/
theorem isPlain_of_mem_template (hc : c ∈ r.template.toList) : isPlain c = true := by
  have hplaceholder : placeholder.toList.all isPlain = true := by decide
  have hall : r.template.toList.all isPlain = true := by
    cases r with
    | shellEntrypoint | shellCommand | unsetGracePeriod =>
      exact all_toList_append (all_toList_ofList (by decide)) (all_toList_ofList (by decide))
    | missingPreStop | missingReadinessProbe =>
      exact all_toList_append (all_toList_append
        (all_toList_append (all_toList_ofList (by decide)) hplaceholder)
        (all_toList_ofList (by decide))) (all_toList_ofList (by decide))
  exact List.all_eq_true.mp hall c hc

theorem toList_placeholder : placeholder.toList = '\x7b' :: "container\x7d".toList := rfl

theorem placeholder_ne_nil : placeholder.toList ≠ [] := by decide

/-- In a wording one place is found for the name. -/
theorem Frames.substitution (h : r.Frames before after) (container : String) :
    Substitution placeholder.toList container.toList 1 r.template.toList
      (before ++ container ++ after).toList := by
  simp only [h.template, String.toList_append, List.append_assoc, toList_placeholder]
  exact .around h.before h.after

/-- The name of a container stands in its finding as it is. -/
theorem messageFor_eq (h : r.Frames before after) (container : String) :
    r.messageFor container = before ++ container ++ after := by
  rw [messageFor, (h.substitution container).eq_replace placeholder_ne_nil, String.ofList_toList]

theorem messageFor_missingPreStop (container : String) :
    missingPreStop.messageFor container = "Container \"" ++ container ++
      ("\": no preStop hook. Add \"sleep 5\" to let " ++
        "kube-proxy propagate iptables rule removal before SIGTERM.") :=
  messageFor_eq frames_missingPreStop container

theorem messageFor_missingReadinessProbe (container : String) :
    missingReadinessProbe.messageFor container = "Container \"" ++ container ++
      ("\": no readinessProbe. Without it, the " ++
        "endpoint won't be removed from Service during shutdown.") :=
  messageFor_eq frames_missingReadinessProbe container

/-- There is no other place for a name in a wording. -/
theorem Frames.template_eq_iff (h : r.Frames before after) (front back : String) :
    r.template = front ++ placeholder ++ back ↔ front = before ∧ back = after := by
  rw [h.template, ← String.toList_inj, ← String.toList_inj, ← String.toList_inj]
  simp only [String.toList_append, List.append_assoc, toList_placeholder, List.cons_append]
  have hbehind : '\x7b' ∉ "container\x7d".toList ++ after.toList :=
    List.not_mem_append (by decide) h.after
  rw [List.append_cons_inj_of_notMem h.before hbehind, List.append_cancel_left_eq]
  exact ⟨fun ⟨hfront, _, hback⟩ ↦ ⟨hfront.symm, hback.symm⟩,
    fun ⟨hfront, hback⟩ ↦ ⟨hfront.symm, rfl, hback.symm⟩⟩

/-- Different names give different messages. -/
theorem Frames.messageFor_injective (h : r.Frames before after) :
    Function.Injective r.messageFor := by
  intro container container' hmessage
  rw [messageFor_eq h, messageFor_eq h, String.append_left_inj, String.append_right_inj] at hmessage
  exact hmessage

/-- The wording of a rule on containers consists of a text, the place for a name and another text,
and in no other way. In the message for a container exactly one substitution has been made, by which
its name stands between these two texts as it is, whatever it contains, and no other name has the
same message. -/
theorem message_forContainer_law {r : Rule} (h : r = missingPreStop ∨ r = missingReadinessProbe) :
    ∃ before after : String,
      (∀ front back : String, r.template = front ++ placeholder ++ back ↔
        front = before ∧ back = after) ∧
      ∀ file container : String,
        (r.forContainer file container).message = before ++ container ++ after ∧
        (∀ n text, Substitution placeholder.toList container.toList n r.template.toList text ↔
          n = 1 ∧ text = (r.forContainer file container).message.toList) ∧
        ∀ file' container' : String,
          (r.forContainer file' container').message = (r.forContainer file container).message →
            container' = container := by
  obtain ⟨after, hframes⟩ := exists_frames h
  refine ⟨_, after, hframes.template_eq_iff, fun file container ↦ ?_⟩
  have hmessage : (r.forContainer file container).message = "Container \"" ++ container ++ after :=
    messageFor_eq hframes container
  have hsubstitution := hframes.substitution container
  refine ⟨hmessage, fun n text ↦ ?_, fun _ _ hsame ↦ hframes.messageFor_injective hsame⟩
  rw [hmessage]
  constructor
  · exact fun hother ↦ hother.unique placeholder_ne_nil hsubstitution
  · rintro ⟨rfl, rfl⟩
    exact hsubstitution

/-- A container that is called like the place for its name has the wording itself as its message,
and a name with such a place inside stays as it is. -/
theorem message_forContainer_law_placeholders :
    (missingPreStop = missingPreStop ∨ missingPreStop = missingReadinessProbe) ∧
      (missingPreStop.forContainer "pod.yaml" placeholder).message = missingPreStop.template ∧
      ∃ before after : String, missingPreStop.template = before ++ placeholder ++ after ∧
        (missingPreStop.forContainer "pod.yaml" "\x7bcon\x7bcontainer\x7d\"\n").message =
          before ++ "\x7bcon\x7bcontainer\x7d\"\n" ++ after := by
  have hrule : missingPreStop = missingPreStop ∨ missingPreStop = missingReadinessProbe :=
    Or.inl rfl
  obtain ⟨before, after, hplace, hmessage⟩ := message_forContainer_law hrule
  have htemplate := (hplace before after).mpr ⟨rfl, rfl⟩
  exact ⟨hrule, (hmessage "pod.yaml" placeholder).1.trans htemplate.symm, before, after, htemplate,
    (hmessage "pod.yaml" _).1⟩

end ShutdownLint.Rule

import ShutdownLint.Proofs.Workload.PodShape
import ShutdownLint.Proofs.Yaml.WithoutTags
/-!
Tags in a document, and the findings on it.

A pod spec is located, its containers are listed and their fields are tested under any tags, so two
documents that differ in tags only lack the same things in the same places. Only the name of a
container is read as it stands: under a tag it counts as none.
-/

set_option autoImplicit false

namespace ShutdownLint

open Yaml Yaml.Value

/-! ### Fields -/

namespace Fields

theorem mappingAt?_entriesWithoutTags (fields : Fields) (key : String) :
    mappingAt? (entriesWithoutTags fields) key =
      (fields.mappingAt? key).map entriesWithoutTags := by
  rw [mappingAt?, mappingAt?, lookup_entriesWithoutTags]
  cases lookup key fields with
  | none => rfl
  | some v => exact asMapping?_withoutTags v

theorem isDefined_entriesWithoutTags (fields : Fields) (key : String) :
    isDefined (entriesWithoutTags fields) key = fields.isDefined key := by
  rw [isDefined, isDefined, lookup_entriesWithoutTags, Option.any_map]
  simp only [isNull_withoutTags]

end Fields

/-! ### Containers -/

namespace Container

def withoutTags (c : Container) : Container :=
  ⟨entriesWithoutTags c.fields⟩

theorem hasPreStop_withoutTags (c : Container) : c.withoutTags.hasPreStop = c.hasPreStop := by
  rw [hasPreStop, hasPreStop, withoutTags, Fields.mappingAt?_entriesWithoutTags, Option.any_map]
  simp only [Fields.isDefined_entriesWithoutTags]

theorem violated_withoutTags (c : Container) : c.withoutTags.violated = c.violated := by
  have hprobe : c.withoutTags.hasReadinessProbe = c.hasReadinessProbe :=
    Fields.isDefined_entriesWithoutTags c.fields "readinessProbe"
  rw [violated, violated, hasPreStop_withoutTags, hprobe]

def hasTaggedName (c : Container) : Bool :=
  match lookup "name" c.fields with
  | some (.tagged _ _) => true
  | _ => false

theorem name_of_hasTaggedName {c : Container} (h : c.hasTaggedName) : c.name = unnamed := by
  unfold hasTaggedName at h
  unfold name
  split at h
  · next hname => rw [hname]; rfl
  · cases h

theorem name_withoutTags {c : Container} (h : c.hasTaggedName = false) :
    c.withoutTags.name = c.name := by
  unfold hasTaggedName at h
  unfold name withoutTags
  rw [lookup_entriesWithoutTags]
  cases hname : lookup "name" c.fields with
  | none => rfl
  | some v =>
    cases v with
    | tagged tag v => simp [hname] at h
    | _ => simp [Value.withoutTags]

variable {c c' : Container} {cs cs' : List Container} {file : String}

theorem violated_eq (h : c.withoutTags = c'.withoutTags) : c'.violated = c.violated := by
  rw [← violated_withoutTags c', ← h, violated_withoutTags]

theorem name_eq (h : c.withoutTags = c'.withoutTags) (hname : c.hasTaggedName = c'.hasTaggedName) :
    c'.name = c.name := by
  cases hc : c.hasTaggedName with
  | true => rw [name_of_hasTaggedName hc, name_of_hasTaggedName (hname ▸ hc)]
  | false => rw [← name_withoutTags hc, h, name_withoutTags (hname ▸ hc)]

theorem flatMap_findings_eq (h : cs.map withoutTags = cs'.map withoutTags)
    (hnames : cs.map hasTaggedName = cs'.map hasTaggedName) :
    cs'.flatMap (·.findings file) = cs.flatMap (·.findings file) := by
  induction cs generalizing cs' with
  | nil => rw [List.map_eq_nil_iff.mp h.symm]
  | cons c cs ih =>
    obtain ⟨c', cs', rfl, hc, hcs⟩ := List.map_eq_cons_iff.mp h.symm
    rw [List.map_cons, List.map_cons, List.cons.injEq] at hnames
    rw [List.flatMap_cons, List.flatMap_cons, ih hcs.symm hnames.2, findings_eq_map_violated,
      findings_eq_map_violated, violated_eq hc.symm, name_eq hc.symm hnames.1]

end Container

/-! ### Documents -/

namespace PodSpec

def withoutTags (p : PodSpec) : PodSpec :=
  ⟨entriesWithoutTags p.fields⟩

theorem ofDocument?_withoutTags (d : Value) :
    ofDocument? d.withoutTags = (ofDocument? d).map withoutTags := by
  simp only [ofDocument?, Option.bind_eq_bind, Option.pure_def, asMapping?_withoutTags]
  cases d.asMapping? with
  | none => rfl
  | some root =>
    simp only [Option.map_some, Option.bind_some, Fields.mappingAt?_entriesWithoutTags]
    cases Fields.mappingAt? root "spec" with
    | none => rfl
    | some spec =>
      simp only [Option.map_some, Option.bind_some, Fields.mappingAt?_entriesWithoutTags]
      cases Fields.mappingAt? spec "template" with
      | none => rfl
      | some template =>
        simp only [Option.map_some, Option.bind_some, Fields.mappingAt?_entriesWithoutTags]
        cases Fields.mappingAt? template "spec" <;> rfl

theorem hasGracePeriod_withoutTags (p : PodSpec) :
    p.withoutTags.hasGracePeriod = p.hasGracePeriod := by
  rw [hasGracePeriod, hasGracePeriod, withoutTags, lookup_entriesWithoutTags, Option.isSome_map]

theorem containers_withoutTags (p : PodSpec) :
    p.withoutTags.containers = p.containers.map Container.withoutTags := by
  rw [containers, containers, withoutTags, lookup_entriesWithoutTags]
  cases lookup "containers" p.fields with
  | none => rfl
  | some v =>
    simp only [Option.map_some, Option.bind_some, asSequence?_withoutTags]
    cases v.asSequence? with
    | none => rfl
    | some items =>
      simp only [Option.map_some, Option.getD_some, List.filterMap_map, List.map_filterMap,
        Function.comp_def, asMapping?_withoutTags, Option.map_map]
      rfl

end PodSpec

namespace Workload

variable {file : String} {d d' : Value}

/-- The containers of the pod spec of a document, of which there are none without a pod spec. -/
def containersOf (d : Value) : List Container :=
  (PodSpec.ofDocument? d).elim [] PodSpec.containers

/-- The findings on a document that are not on one of its containers. -/
def podFindings (file : String) (d : Value) : List Finding :=
  if (PodSpec.ofDocument? d).all PodSpec.hasGracePeriod then []
  else [Rule.unsetGracePeriod.atDocument file]

theorem documentFindings_eq (file : String) (d : Value) :
    documentFindings file d =
      podFindings file d ++ (containersOf d).flatMap (·.findings file) := by
  unfold documentFindings podFindings containersOf
  cases PodSpec.ofDocument? d <;> rfl

theorem containersOf_withoutTags (d : Value) :
    containersOf d.withoutTags = (containersOf d).map Container.withoutTags := by
  rw [containersOf, containersOf, PodSpec.ofDocument?_withoutTags]
  cases PodSpec.ofDocument? d with
  | none => rfl
  | some p => exact PodSpec.containers_withoutTags p

theorem podFindings_withoutTags (file : String) (d : Value) :
    podFindings file d.withoutTags = podFindings file d := by
  rw [podFindings, podFindings, PodSpec.ofDocument?_withoutTags, Option.all_map]
  simp only [PodSpec.hasGracePeriod_withoutTags]

/-- Documents that differ in tags only have the same findings, as long as the same containers have
a tag on their name. A tag on the name of one more container takes that name out of the findings on
that container, and changes nothing else. -/
theorem documentFindings_localTags_law (file : String) (h : Relation.EqvGen PutsTag d d') :
    ((containersOf d).map Container.hasTaggedName = (containersOf d').map Container.hasTaggedName →
      documentFindings file d' = documentFindings file d) ∧
    ∀ before c after before' c' after', containersOf d = before ++ c :: after →
      containersOf d' = before' ++ c' :: after' →
      before.map Container.hasTaggedName = before'.map Container.hasTaggedName →
      after.map Container.hasTaggedName = after'.map Container.hasTaggedName →
      c.hasTaggedName = false → c'.hasTaggedName →
      ∃ front back,
        documentFindings file d =
          front ++ c.violated.map (fun r ↦ r.forContainer file c.name) ++ back ∧
        documentFindings file d' =
          front ++ c.violated.map (fun r ↦ r.forContainer file Container.unnamed) ++ back := by
  have hd := eqvGen_putsTag_iff.mp h
  have hpod : podFindings file d' = podFindings file d := by
    rw [← podFindings_withoutTags, ← hd, podFindings_withoutTags]
  have hcs : (containersOf d).map Container.withoutTags =
      (containersOf d').map Container.withoutTags := by
    rw [← containersOf_withoutTags, ← containersOf_withoutTags, hd]
  constructor
  · intro hnames
    rw [documentFindings_eq, documentFindings_eq, hpod, Container.flatMap_findings_eq hcs hnames]
  · intro before c after before' c' after' hsplit hsplit' hbefore hafter hc hc'
    have hlength : before.length = before'.length := by simpa using congrArg List.length hbefore
    rw [hsplit, hsplit', List.map_append, List.map_append, List.map_cons, List.map_cons] at hcs
    obtain ⟨hfront, hrest⟩ := List.append_inj hcs (by simpa using hlength)
    obtain ⟨hmid, hback⟩ := List.cons.inj hrest
    refine ⟨podFindings file d ++ before.flatMap (·.findings file),
      after.flatMap (·.findings file), ?_, ?_⟩
    · rw [documentFindings_eq, hsplit, List.flatMap_append, List.flatMap_cons,
        Container.findings_eq_map_violated c]
      simp only [List.append_assoc]
    · rw [documentFindings_eq, hsplit', hpod, List.flatMap_append, List.flatMap_cons,
        Container.flatMap_findings_eq hfront hbefore, Container.flatMap_findings_eq hback hafter,
        Container.findings_eq_map_violated c', Container.violated_eq hmid,
        Container.name_of_hasTaggedName hc']
      simp only [List.append_assoc]

/-- A document with one container, under `f` wherever a value stands, but with its name under
`name`. -/
def oneContainer (f name : Value → Value) : Value :=
  f (.mapping [(.string "spec", f (.mapping [(.string "containers", f (.sequence [f (.mapping
    [(.string "name", name (.string "web")), (.string "lifecycle", f (.mapping
      [(.string "preStop", f .null)])), (.string "readinessProbe", f (.bool true))])]))]))])

theorem documentFindings_localTags_law_oneContainer :
    let plain := oneContainer id id
    let tagged := oneContainer (.tagged "x") id
    let named := oneContainer (.tagged "x") (.tagged "y")
    Relation.EqvGen PutsTag plain tagged ∧ Relation.EqvGen PutsTag plain named ∧
      (containersOf plain).map Container.hasTaggedName = [false] ∧
      (containersOf tagged).map Container.hasTaggedName = [false] ∧
      (containersOf named).map Container.hasTaggedName = [true] ∧
      documentFindings "pod.yaml" tagged = documentFindings "pod.yaml" plain ∧
      ∃ front back,
        documentFindings "pod.yaml" plain =
          front ++ [Rule.missingPreStop.forContainer "pod.yaml" "web"] ++ back ∧
        documentFindings "pod.yaml" named =
          front ++ [Rule.missingPreStop.forContainer "pod.yaml" Container.unnamed] ++ back := by
  intro plain tagged named
  have htagged : Relation.EqvGen PutsTag plain tagged := eqvGen_putsTag_iff.mpr rfl
  have hnamed : Relation.EqvGen PutsTag plain named := eqvGen_putsTag_iff.mpr rfl
  refine ⟨htagged, hnamed, rfl, rfl, rfl, ?_, ?_⟩
  · exact (documentFindings_localTags_law "pod.yaml" htagged).1 rfl
  · exact (documentFindings_localTags_law "pod.yaml" hnamed).2 [] _ [] [] _ [] rfl rfl rfl rfl rfl
      rfl

end Workload

end ShutdownLint

import Mathlib.Logic.Relation
import ShutdownLint.Proofs.Workload.DocumentBlocks
import ShutdownLint.Proofs.Yaml.EntryEdits
/-!
What the findings on a document depend on.

Findings are put together on each level from what is seen of a few fields on the level below, from
the `lifecycle` of a container up to the root. So on each level there is one lemma: mappings whose
inspected fields look the same have the same findings. An edit of anything else leaves these fields
looking the same on the level where it is made, and hence the findings on all levels above.
-/

set_option autoImplicit false

namespace ShutdownLint

open Yaml Yaml.Value

variable {es fs : Fields} {v w d d' : Value} {key file : String}

/-! ### Fields that look the same -/

theorem Fields.isDefined_congr (h : AgreeAt key isNull es fs) :
    es.isDefined key = fs.isDefined key := by
  have hany := congrArg (Option.any fun null ↦ !null) h
  rwa [Option.any_map, Option.any_map] at hany

/-! ### What is seen on each level -/

namespace Container

/-- The text of the name of a container. -/
def writtenName : Value → String
  | .string s => s
  | .number n => n.text
  | .bool b => if b then "true" else "false"
  | _ => ""

theorem name_eq_of_lookup (c : Container) : c.name =
    let written := ((lookup "name" c.fields).map writtenName).getD ""
    if written.isEmpty then unnamed else written := by
  unfold name
  cases lookup "name" c.fields with
  | none => rfl
  | some v => cases v <;> rfl

theorem findings_congr (hname : AgreeAt "name" writtenName es fs)
    (hhook : AgreeAt "lifecycle" (·.asMapping?.map (Fields.isDefined · "preStop")) es fs)
    (hprobe : AgreeAt "readinessProbe" isNull es fs) :
    findings ⟨es⟩ file = findings ⟨fs⟩ file := by
  have hsameName : name ⟨es⟩ = name ⟨fs⟩ := by
    rw [name_eq_of_lookup, name_eq_of_lookup, hname]
  have hsameHook : hasPreStop ⟨es⟩ = hasPreStop ⟨fs⟩ := by
    have hany := congrArg (Option.any id) hhook.map_bind_eq
    rwa [Option.any_map, Option.any_map] at hany
  have hsameProbe : hasReadinessProbe ⟨es⟩ = hasReadinessProbe ⟨fs⟩ := Fields.isDefined_congr hprobe
  rw [findings, findings, hsameName, hsameHook, hsameProbe]

end Container

theorem PodSpec.flatMap_findings_eq (pod : Fields) :
    (containers ⟨pod⟩).flatMap (·.findings file) = (((lookup "containers" pod).bind asSequence?).map
      (·.flatMap (Workload.itemFindings file))).getD [] := by
  rw [Workload.flatMap_findings_containers]
  cases (lookup "containers" pod).bind asSequence? with
  | none => rfl
  | some items => exact List.flatMap_def.symm

theorem PodSpec.findings_congr
    (hgrace : AgreeAt "terminationGracePeriodSeconds" (fun _ ↦ ()) es fs)
    (hcontainers : AgreeAt "containers"
      (·.asSequence?.map (·.flatMap (Workload.itemFindings file))) es fs) :
    findings ⟨es⟩ file = findings ⟨fs⟩ file := by
  have hsameGrace : hasGracePeriod ⟨es⟩ = hasGracePeriod ⟨fs⟩ := by
    have hsome := congrArg Option.isSome hgrace
    rwa [Option.isSome_map, Option.isSome_map] at hsome
  have hsameBlocks := congrArg (Option.getD · []) hcontainers.map_bind_eq
  rw [findings, findings, hsameGrace, flatMap_findings_eq, flatMap_findings_eq]
  exact congrArg _ hsameBlocks

namespace Workload

/-- The findings on the pods of a template, if it has a pod spec. -/
def templateFindings (file : String) (template : Fields) : Option (List Finding) :=
  (template.mappingAt? "spec").map fun pod ↦ PodSpec.findings ⟨pod⟩ file

/-- The findings on the pods that the `spec` of a document describes. -/
def specFindings (file : String) (spec : Fields) : List Finding :=
  ((spec.mappingAt? "template").bind (templateFindings file)).getD (PodSpec.findings ⟨spec⟩ file)

def rootFindings (file : String) (root : Fields) : Option (List Finding) :=
  (root.mappingAt? "spec").map (specFindings file)

theorem documentFindings_eq_rootFindings (file : String) (d : Value) :
    documentFindings file d = (d.asMapping?.bind (rootFindings file)).getD [] := by
  unfold documentFindings PodSpec.ofDocument? rootFindings
  cases d.asMapping? with
  | none => rfl
  | some root =>
    simp only [Option.bind_eq_bind, Option.pure_def, Option.bind_some]
    cases Fields.mappingAt? root "spec" with
    | none => rfl
    | some spec =>
      simp only [Option.bind_some, Option.map_some, Option.getD_some, specFindings]
      cases Fields.mappingAt? spec "template" with
      | none => rfl
      | some template =>
        rw [Option.bind_some, Option.bind_some, templateFindings]
        cases Fields.mappingAt? template "spec" <;> rfl

theorem templateFindings_congr
    (h : AgreeAt "spec" (·.asMapping?.map fun pod ↦ PodSpec.findings ⟨pod⟩ file) es fs) :
    templateFindings file es = templateFindings file fs :=
  h.map_bind_eq

theorem specFindings_congr
    (htemplate : AgreeAt "template" (·.asMapping?.map (templateFindings file)) es fs)
    (hpod : PodSpec.findings ⟨es⟩ file = PodSpec.findings ⟨fs⟩ file) :
    specFindings file es = specFindings file fs := by
  have hnested := bind_eq_of_map_eq htemplate.map_bind_eq
  rw [specFindings, specFindings, hpod]
  exact congrArg (Option.getD · _) hnested

theorem rootFindings_congr (h : AgreeAt "spec" (·.asMapping?.map (specFindings file)) es fs) :
    rootFindings file es = rootFindings file fs :=
  h.map_bind_eq

theorem documentFindings_congr
    (h : d.asMapping?.map (rootFindings file) = d'.asMapping?.map (rootFindings file)) :
    documentFindings file d = documentFindings file d' := by
  rw [documentFindings_eq_rootFindings, documentFindings_eq_rootFindings, bind_eq_of_map_eq h]

/-! ### Edits -/

/-- A value that is not null is put in the place of another one. -/
def StaysDefined (v w : Value) : Prop :=
  v.untagged ≠ .null ∧ w.untagged ≠ .null

inductive EditsLifecycle (es fs : Fields) : Prop
  | other (h : ReplacesOthers ["preStop"] es fs)
  | preStop (h : ChangesAt "preStop" StaysDefined es fs)

inductive EditsContainer (es fs : Fields) : Prop
  | other (h : ReplacesOthers ["name", "lifecycle", "readinessProbe"] es fs)
  | lifecycle (h : ChangesAt "lifecycle" (InMapping EditsLifecycle) es fs)
  | readinessProbe (h : ChangesAt "readinessProbe" StaysDefined es fs)

/-- Items that are no mappings are put in the place of others, or one container is edited. -/
inductive EditsContainers : List Value → List Value → Prop
  | other (before old new after : List Value)
      (h : ∀ item ∈ old ++ new, ∀ es, item.untagged ≠ .mapping es) :
      EditsContainers (before ++ old ++ after) (before ++ new ++ after)
  | container (before after : List Value) {v w : Value} (h : InMapping EditsContainer v w) :
      EditsContainers (before ++ v :: after) (before ++ w :: after)

/-- An edit of a pod spec that leaves some more keys alone. -/
inductive EditsPod (keys : List String) (es fs : Fields) : Prop
  | other (h : ReplacesOthers ("terminationGracePeriodSeconds" :: "containers" :: keys) es fs)
  | gracePeriod (h : ChangesAt "terminationGracePeriodSeconds" (fun _ _ ↦ True) es fs)
  | containers (h : ChangesAt "containers" (InSequence EditsContainers) es fs)

inductive EditsTemplate (es fs : Fields) : Prop
  | other (h : ReplacesOthers ["spec"] es fs)
  | pod (h : ChangesAt "spec" (InMapping (EditsPod [])) es fs)

/-- Where the template has a pod spec nothing else in `spec` matters. -/
inductive EditsSpec (es fs : Fields) : Prop
  | nested {template pod : Fields} (htemplate : Fields.MappingAt "template" es template)
      (hpod : Fields.MappingAt "spec" template pod) (h : ReplacesOthers ["template"] es fs)
  | pod (h : EditsPod ["template"] es fs)
  | template (h : ChangesAt "template" (InMapping EditsTemplate) es fs)

inductive EditsRoot (es fs : Fields) : Prop
  | other (h : ReplacesOthers ["spec"] es fs)
  | spec (h : ChangesAt "spec" (InMapping EditsSpec) es fs)

/-- An edit of something in a document that the analysis does not look at. -/
inductive Edits (d d' : Value) : Prop
  | fields (h : InMapping EditsRoot d d')
  | order (h : Reorders d d')

theorem StaysDefined.isNull_eq (h : StaysDefined v w) : v.isNull = w.isNull := by
  have hv : v.isNull = false := Bool.eq_false_iff.mpr fun hnull ↦ h.1 (isNull_iff.mp hnull)
  have hw : w.isNull = false := Bool.eq_false_iff.mpr fun hnull ↦ h.2 (isNull_iff.mp hnull)
  rw [hv, hw]

theorem EditsLifecycle.isDefined_eq (h : EditsLifecycle es fs) :
    Fields.isDefined es "preStop" = Fields.isDefined fs "preStop" := by
  refine Fields.isDefined_congr ?_
  cases h with
  | other h => exact h.agreeAt List.mem_cons_self
  | preStop h => exact h.agreeAt fun _ _ ↦ StaysDefined.isNull_eq

theorem EditsContainer.findings_eq (h : EditsContainer es fs) :
    Container.findings ⟨es⟩ file = Container.findings ⟨fs⟩ file := by
  cases h with
  | other h =>
    exact Container.findings_congr (h.agreeAt (by decide)) (h.agreeAt (by decide))
      (h.agreeAt (by decide))
  | lifecycle h =>
    exact Container.findings_congr (h.agreeAt_of_ne (by decide))
      (h.agreeAt fun _ _ hin ↦ hin.map_asMapping?_eq fun _ _ ↦ EditsLifecycle.isDefined_eq)
      (h.agreeAt_of_ne (by decide))
  | readinessProbe h =>
    exact Container.findings_congr (h.agreeAt_of_ne (by decide)) (h.agreeAt_of_ne (by decide))
      (h.agreeAt fun _ _ ↦ StaysDefined.isNull_eq)

theorem itemFindings_congr (h : v.asMapping?.map (fun c ↦ Container.findings ⟨c⟩ file) =
    w.asMapping?.map fun c ↦ Container.findings ⟨c⟩ file) :
    itemFindings file v = itemFindings file w := by
  have helim := congrArg (Option.elim · [] id) h
  rwa [Option.elim_map, Option.elim_map] at helim

theorem flatMap_itemFindings_eq_nil {items : List Value}
    (h : ∀ item ∈ items, ∀ es, item.untagged ≠ .mapping es) :
    items.flatMap (itemFindings file) = [] := by
  refine List.flatMap_eq_nil_iff.mpr fun item hitem ↦ ?_
  exact itemFindings_iff.mp (.skipped (h item hitem))

theorem EditsContainers.flatMap_eq {vs ws : List Value} (h : EditsContainers vs ws) :
    vs.flatMap (itemFindings file) = ws.flatMap (itemFindings file) := by
  cases h with
  | other before old new after h =>
    obtain ⟨hold, hnew⟩ := List.forall_mem_append.mp h
    simp only [List.flatMap_append, flatMap_itemFindings_eq_nil hold,
      flatMap_itemFindings_eq_nil hnew]
  | container before after h =>
    have hsame : itemFindings file _ = itemFindings file _ :=
      itemFindings_congr (h.map_asMapping?_eq fun _ _ ↦ EditsContainer.findings_eq)
    simp only [List.flatMap_append, List.flatMap_cons, hsame]

theorem EditsPod.findings_eq {keys : List String} (h : EditsPod keys es fs) :
    PodSpec.findings ⟨es⟩ file = PodSpec.findings ⟨fs⟩ file := by
  cases h with
  | other h => exact PodSpec.findings_congr (h.agreeAt (by simp)) (h.agreeAt (by simp))
  | gracePeriod h =>
    exact PodSpec.findings_congr (h.agreeAt fun _ _ _ ↦ rfl) (h.agreeAt_of_ne (by decide))
  | containers h =>
    exact PodSpec.findings_congr (h.agreeAt_of_ne (by decide))
      (h.agreeAt fun _ _ hin ↦ hin.map_asSequence?_eq fun _ _ ↦ EditsContainers.flatMap_eq)

theorem EditsTemplate.findings_eq (h : EditsTemplate es fs) :
    templateFindings file es = templateFindings file fs := by
  refine templateFindings_congr ?_
  cases h with
  | other h => exact h.agreeAt List.mem_cons_self
  | pod h => exact h.agreeAt fun _ _ hin ↦ hin.map_asMapping?_eq fun _ _ ↦ EditsPod.findings_eq

theorem EditsPod.agreeAt_template {β : Type} {g : Value → β} (h : EditsPod ["template"] es fs) :
    AgreeAt "template" g es fs := by
  cases h with
  | other h => exact h.agreeAt (by decide)
  | gracePeriod h => exact h.agreeAt_of_ne (by decide)
  | containers h => exact h.agreeAt_of_ne (by decide)

theorem specFindings_of_nested {template pod : Fields}
    (htemplate : es.mappingAt? "template" = some template)
    (hpod : template.mappingAt? "spec" = some pod) :
    specFindings file es = PodSpec.findings ⟨pod⟩ file := by
  rw [specFindings, htemplate, Option.bind_some, templateFindings, hpod, Option.map_some,
    Option.getD_some]

theorem EditsSpec.findings_eq (h : EditsSpec es fs) :
    specFindings file es = specFindings file fs := by
  cases h with
  | nested htemplate hpod h =>
    have hes := Fields.mappingAt?_eq_some_iff.mpr htemplate
    have hpods := Fields.mappingAt?_eq_some_iff.mpr hpod
    have hsame : es.mappingAt? "template" = fs.mappingAt? "template" :=
      bind_eq_of_map_eq (h.agreeAt List.mem_cons_self)
    rw [specFindings_of_nested hes hpods, specFindings_of_nested (hsame ▸ hes) hpods]
  | pod h => exact specFindings_congr h.agreeAt_template h.findings_eq
  | template h =>
    refine specFindings_congr
      (h.agreeAt fun _ _ hin ↦ hin.map_asMapping?_eq fun _ _ ↦ EditsTemplate.findings_eq) ?_
    exact PodSpec.findings_congr (h.agreeAt_of_ne (by decide)) (h.agreeAt_of_ne (by decide))

theorem EditsRoot.findings_eq (h : EditsRoot es fs) :
    rootFindings file es = rootFindings file fs := by
  refine rootFindings_congr ?_
  cases h with
  | other h => exact h.agreeAt List.mem_cons_self
  | spec h => exact h.agreeAt fun _ _ hin ↦ hin.map_asMapping?_eq fun _ _ ↦ EditsSpec.findings_eq

/-! ### The order of entries -/

theorem writtenName_of_reorders (h : Reorders v w) :
    Container.writtenName v = Container.writtenName w := by
  cases h <;> rfl

theorem isDefined_of_reorders (h : Reorders (.mapping es) (.mapping fs)) :
    Fields.isDefined es key = Fields.isDefined fs key :=
  Fields.isDefined_congr (h.agreeAt fun _ _ ↦ Reorders.isNull_eq)

theorem findings_container_of_reorders (h : Reorders (.mapping es) (.mapping fs)) :
    Container.findings ⟨es⟩ file = Container.findings ⟨fs⟩ file :=
  Container.findings_congr (h.agreeAt fun _ _ ↦ writtenName_of_reorders)
    (h.agreeAt fun _ _ hin ↦ hin.map_asMapping?_eq fun _ _ ↦ isDefined_of_reorders)
    (h.agreeAt fun _ _ ↦ Reorders.isNull_eq)

theorem itemFindings_of_reorders (h : Reorders v w) :
    itemFindings file v = itemFindings file w :=
  itemFindings_congr (h.map_asMapping?_eq fun _ _ ↦ findings_container_of_reorders)

theorem findings_pod_of_reorders (h : Reorders (.mapping es) (.mapping fs)) :
    PodSpec.findings ⟨es⟩ file = PodSpec.findings ⟨fs⟩ file := by
  refine PodSpec.findings_congr (h.agreeAt fun _ _ _ ↦ rfl) (h.agreeAt fun _ _ hin ↦ ?_)
  refine hin.map_asSequence?_eq fun before after v w hitem ↦ ?_
  simp only [List.flatMap_append, List.flatMap_cons, itemFindings_of_reorders hitem]

theorem templateFindings_of_reorders (h : Reorders (.mapping es) (.mapping fs)) :
    templateFindings file es = templateFindings file fs :=
  templateFindings_congr (h.agreeAt fun _ _ hin ↦
    hin.map_asMapping?_eq fun _ _ ↦ findings_pod_of_reorders)

theorem specFindings_of_reorders (h : Reorders (.mapping es) (.mapping fs)) :
    specFindings file es = specFindings file fs :=
  specFindings_congr
    (h.agreeAt fun _ _ hin ↦ hin.map_asMapping?_eq fun _ _ ↦ templateFindings_of_reorders)
    (findings_pod_of_reorders h)

theorem rootFindings_of_reorders (h : Reorders (.mapping es) (.mapping fs)) :
    rootFindings file es = rootFindings file fs :=
  rootFindings_congr (h.agreeAt fun _ _ hin ↦
    hin.map_asMapping?_eq fun _ _ ↦ specFindings_of_reorders)

/-! ### The law -/

theorem Edits.documentFindings_eq (h : Edits d d') :
    documentFindings file d = documentFindings file d' := by
  refine documentFindings_congr ?_
  cases h with
  | fields h => exact h.map_asMapping?_eq fun _ _ ↦ EditsRoot.findings_eq
  | order h => exact h.map_asMapping?_eq fun _ _ ↦ rootFindings_of_reorders

/-- Nothing but the inspected fields matters. Whatever edits lead from one document to another, as
long as each of them changes something that the analysis does not look at, the findings are the
same. So `kind`, `apiVersion` and `metadata` do not matter. -/
theorem documentFindings_inspectedFields_law (file : String) (h : Relation.EqvGen Edits d d') :
    documentFindings file d = documentFindings file d' := by
  induction h with
  | rel _ _ h => exact h.documentFindings_eq
  | refl => rfl
  | symm _ _ _ ih => exact ih.symm
  | trans _ _ _ _ _ hfirst hsecond => exact hfirst.trans hsecond

/-- A document with a kind and a `spec`. -/
def documentOfKind (kind : String) (spec : Fields) : Value :=
  .mapping [(.string "kind", .string kind), (.string "spec", .mapping spec)]

/-- A template whose pod spec has nothing but a list of containers. -/
def templateOf (items : List Value) : Value × Value :=
  (.string "template",
    .mapping [(.string "spec", .mapping [(.string "containers", .sequence items)])])

/-- Another kind, an empty list of containers beside the template, an empty item in the one that
counts, and then the template behind the other list. -/
theorem documentFindings_inspectedFields_law_fourEdits :
    let web := Value.mapping [(.string "name", .string "web")]
    let others : Value × Value := (.string "containers", .sequence [])
    let d := documentOfKind "Deployment" [templateOf [web]]
    let d' := documentOfKind "Pod" [others, templateOf [.null, web]]
    Relation.EqvGen Edits d d' ∧
      documentFindings "web.yaml" d = documentFindings "web.yaml" d' ∧
      documentFindings "web.yaml" d ≠ [] := by
  intro web others d d'
  have hkind : Edits d (documentOfKind "Pod" [templateOf [web]]) :=
    .fields ⟨_, _, rfl, rfl, .other (.mk [] [_] [_] [_] (by simp))⟩
  have hothers : Edits (documentOfKind "Pod" [templateOf [web]])
      (documentOfKind "Pod" [templateOf [web], others]) :=
    .fields ⟨_, _, rfl, rfl, .spec (.mk [_] [] ⟨_, _, rfl, rfl,
      .nested (Fields.mappingAt?_eq_some_iff.mp rfl) (Fields.mappingAt?_eq_some_iff.mp rfl)
        (.mk [_] [] [_] [] (by simp [others]))⟩)⟩
  have hitem : Edits (documentOfKind "Pod" [templateOf [web], others])
      (documentOfKind "Pod" [templateOf [.null, web], others]) :=
    .fields ⟨_, _, rfl, rfl, .spec (.mk [_] [] ⟨_, _, rfl, rfl, .template (.mk [] [_] ⟨_, _, rfl,
      rfl, .pod (.mk [] [] ⟨_, _, rfl, rfl, .containers (.mk [] [] ⟨_, _, rfl, rfl,
        .other [] [] [.null] [web] (by simp [untagged])⟩)⟩)⟩)⟩)⟩
  have horder : Edits (documentOfKind "Pod" [templateOf [.null, web], others]) d' :=
    .order (.entry [_] [] _ (.here (List.pairwise_pair.mpr rfl) (.swap _ _ [])))
  have hedits : Relation.EqvGen Edits d d' :=
    .trans _ _ _ (.rel _ _ hkind) (.trans _ _ _ (.rel _ _ hothers)
      (.trans _ _ _ (.rel _ _ hitem) (.rel _ _ horder)))
  exact ⟨hedits, documentFindings_inspectedFields_law "web.yaml" hedits, by decide⟩

end Workload

end ShutdownLint

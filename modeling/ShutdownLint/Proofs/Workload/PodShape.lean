import ShutdownLint.Proofs.Yaml.Shape
import ShutdownLint.Workload
/-!
The accessors of pod specs and containers, each by the shape of the value that it looks for.
-/

set_option autoImplicit false

namespace ShutdownLint

open Yaml.Value (Field)

namespace Fields

/-- The mapping at a key, under any tags, has these fields. -/
def MappingAt (key : String) (fields inner : Fields) : Prop :=
  ∃ v, Field key fields v ∧ v.untagged = .mapping inner

theorem mappingAt?_eq_some_iff {fields inner : Fields} {key : String} :
    fields.mappingAt? key = some inner ↔ MappingAt key fields inner := by
  simp only [mappingAt?, Option.bind_eq_some_iff, Yaml.Value.lookup_eq_some_iff,
    Yaml.Value.asMapping?_eq_some_iff, MappingAt]

/-- There is a value at a key, and it is not null. -/
def Defined (key : String) (fields : Fields) : Prop :=
  ∃ v, Field key fields v ∧ v.untagged ≠ .null

theorem isDefined_iff {fields : Fields} {key : String} :
    fields.isDefined key ↔ Defined key fields := by
  simp only [isDefined, Option.any_eq_true, Yaml.Value.lookup_eq_some_iff, Bool.not_eq_true',
    ← Bool.not_eq_true, Yaml.Value.isNull_iff, Defined, ne_eq]

/-- A container has a hook when its `lifecycle` is a mapping that defines `preStop`. -/
def HasPreStop (container : Fields) : Prop :=
  ∃ lifecycle, MappingAt "lifecycle" container lifecycle ∧ Defined "preStop" lifecycle

end Fields

open Fields

namespace Container

theorem hasPreStop_iff {c : Container} : c.hasPreStop ↔ HasPreStop c.fields := by
  simp only [hasPreStop, Option.any_eq_true, mappingAt?_eq_some_iff, isDefined_iff, HasPreStop]

theorem hasReadinessProbe_iff {c : Container} :
    c.hasReadinessProbe ↔ Defined "readinessProbe" c.fields :=
  isDefined_iff

/-- The rules that a container violates. -/
def violated (c : Container) : List Rule :=
  (if c.hasPreStop then [] else [.missingPreStop]) ++
    if c.hasReadinessProbe then [] else [.missingReadinessProbe]

theorem findings_eq_map_violated (c : Container) (file : String) :
    c.findings file = c.violated.map fun r ↦ r.forContainer file c.name := by
  rw [findings, violated]
  cases c.hasPreStop <;> cases c.hasReadinessProbe <;> rfl

theorem mem_violated_iff {c : Container} {r : Rule} : r ∈ c.violated ↔
    r = .missingPreStop ∧ ¬HasPreStop c.fields ∨
      r = .missingReadinessProbe ∧ ¬Defined "readinessProbe" c.fields := by
  rw [← hasPreStop_iff, ← hasReadinessProbe_iff, violated]
  cases c.hasPreStop <;> cases c.hasReadinessProbe <;> simp

end Container

namespace PodSpec

/-- The fields of the pods that a document describes. They stand at `spec.template.spec` if all
three are mappings, and else at `spec`. -/
inductive Describes (document : Yaml.Value) : Fields → Prop
  | nested {root spec template pod : Fields} (hroot : document.untagged = .mapping root)
      (hspec : MappingAt "spec" root spec) (htemplate : MappingAt "template" spec template)
      (hpod : MappingAt "spec" template pod) : Describes document pod
  | direct {root spec : Fields} (hroot : document.untagged = .mapping root)
      (hspec : MappingAt "spec" root spec)
      (hnested : ∀ template pod, MappingAt "template" spec template →
        ¬MappingAt "spec" template pod) :
      Describes document spec

theorem nested?_eq_some_iff {spec pod : Fields} :
    ((spec.mappingAt? "template").bind fun template ↦ template.mappingAt? "spec") = some pod ↔
      ∃ template, MappingAt "template" spec template ∧ MappingAt "spec" template pod := by
  simp only [Option.bind_eq_some_iff, mappingAt?_eq_some_iff]

theorem ofDocument?_eq_some_iff {document : Yaml.Value} {pod : Fields} :
    ofDocument? document = some ⟨pod⟩ ↔ Describes document pod := by
  simp only [ofDocument?, Option.bind_eq_bind, Option.pure_def, Option.bind_eq_some_iff,
    Option.some.injEq, PodSpec.mk.injEq, Yaml.Value.asMapping?_eq_some_iff, mappingAt?_eq_some_iff]
  constructor
  · rintro ⟨root, hroot, spec, hspec, rfl⟩
    cases hn : (spec.mappingAt? "template").bind fun template ↦ template.mappingAt? "spec" with
    | some pod =>
      obtain ⟨template, htemplate, hpod⟩ := nested?_eq_some_iff.mp hn
      exact .nested hroot hspec htemplate hpod
    | none =>
      refine .direct hroot hspec fun template pod htemplate hpod ↦ ?_
      have := nested?_eq_some_iff.mpr ⟨template, htemplate, hpod⟩
      simp [hn] at this
  · rintro (⟨hroot, hspec, htemplate, hpod⟩ | ⟨hroot, hspec, hnested⟩)
    · refine ⟨_, hroot, _, hspec, ?_⟩
      rw [nested?_eq_some_iff.mpr ⟨_, htemplate, hpod⟩, Option.getD_some]
    · refine ⟨_, hroot, _, hspec, ?_⟩
      rw [Option.getD_eq_iff]
      refine Or.inr ⟨?_, rfl⟩
      refine Option.eq_none_iff_forall_not_mem.mpr fun pod hmem ↦ ?_
      obtain ⟨template, htemplate, hpod⟩ := nested?_eq_some_iff.mp hmem
      exact hnested template pod htemplate hpod

/-- A document describes no pods unless it is a mapping whose `spec` is one. -/
theorem ofDocument?_eq_none_iff {document : Yaml.Value} :
    ofDocument? document = none ↔
      ¬∃ root spec, document.untagged = .mapping root ∧ MappingAt "spec" root spec := by
  simp only [ofDocument?, Option.bind_eq_bind, Option.pure_def, Option.bind_eq_none_iff,
    reduceCtorEq, imp_false, Yaml.Value.asMapping?_eq_some_iff, mappingAt?_eq_some_iff, not_exists,
    not_and]
  exact ⟨fun h root spec hroot ↦ h root hroot spec, fun h root hroot spec ↦ h root spec hroot⟩

theorem hasGracePeriod_iff {p : PodSpec} :
    p.hasGracePeriod ↔ ∃ v, Field "terminationGracePeriodSeconds" p.fields v :=
  Yaml.Value.isSome_lookup_iff

end PodSpec

end ShutdownLint

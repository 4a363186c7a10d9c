import ShutdownLint.BuildFile
import ShutdownLint.Yaml.Stream
/-!
Workload manifests.

A document has a pod spec at `spec.template.spec`, or else at `spec`. Every accessor answers for
every value: an unexpected shape counts as absent. A pod spec should set its grace period, and each
of its containers should have a `preStop` hook and a readiness probe, where null counts as absent.
-/

set_option autoImplicit false

namespace ShutdownLint

open Yaml (Value)

/-- The entries of a YAML mapping. -/
abbrev Fields := List (Value × Value)

namespace Fields

/-- The mapping at a key. -/
def mappingAt? (fields : Fields) (key : String) : Option Fields :=
  (Value.lookup key fields).bind Value.asMapping?

/-- Whether there is a value at a key that is not null. -/
def isDefined (fields : Fields) (key : String) : Bool :=
  (Value.lookup key fields).any fun v ↦ !v.isNull

end Fields

structure Container where
  fields : Fields
  deriving Inhabited

namespace Container

/-- The name of a container that has none. -/
def unnamed : String := "unnamed"

/-- The name of a container; numbers and booleans stand for their text. -/
def name (c : Container) : String :=
  let written :=
    match Value.lookup "name" c.fields with
    | some (.string s) => s
    | some (.number n) => n.text
    | some (.bool b) => if b then "true" else "false"
    | _ => ""
  if written.isEmpty then unnamed else written

def hasPreStop (c : Container) : Bool :=
  (Fields.mappingAt? c.fields "lifecycle").any fun lifecycle ↦ Fields.isDefined lifecycle "preStop"

def hasReadinessProbe (c : Container) : Bool :=
  Fields.isDefined c.fields "readinessProbe"

/-- The findings on a container. -/
def findings (c : Container) (file : String) : List Finding :=
  (if c.hasPreStop then [] else [Rule.missingPreStop.forContainer file c.name]) ++
    if c.hasReadinessProbe then [] else [Rule.missingReadinessProbe.forContainer file c.name]

end Container

structure PodSpec where
  fields : Fields
  deriving Inhabited

namespace PodSpec

/-- The pod spec of a document. -/
def ofDocument? (document : Value) : Option PodSpec := do
  let root ← document.asMapping?
  let spec ← Fields.mappingAt? root "spec"
  let nested := do
    let template ← Fields.mappingAt? spec "template"
    Fields.mappingAt? template "spec"
  return ⟨nested.getD spec⟩

/-- The key alone decides: null and zero are values. -/
def hasGracePeriod (p : PodSpec) : Bool :=
  (Value.lookup "terminationGracePeriodSeconds" p.fields).isSome

/-- The containers, in order; what is no mapping is skipped. -/
def containers (p : PodSpec) : List Container :=
  let items := ((Value.lookup "containers" p.fields).bind Value.asSequence?).getD []
  (items.filterMap Value.asMapping?).map Container.mk

/-- The findings on a pod spec: the one on itself, then those on its containers. -/
def findings (p : PodSpec) (file : String) : List Finding :=
  (if p.hasGracePeriod then [] else [Rule.unsetGracePeriod.atDocument file]) ++
    p.containers.flatMap (·.findings file)

end PodSpec

namespace Workload

/-- The findings on one document, of which there are none if it has no pod spec. -/
def documentFindings (file : String) (document : Value) : List Finding :=
  match PodSpec.ofDocument? document with
  | some p => p.findings file
  | none => []

/-- The findings on a manifest. One that is not YAML as a whole is left to other tools. -/
def findings (content file : String) : List Finding :=
  match Yaml.Stream.parse content with
  | .ok documents => documents.flatMap (documentFindings file)
  | .error _ => []

end Workload

/-- The findings on a file. -/
def ArtifactKind.findings (kind : ArtifactKind) (content file : String) : List Finding :=
  match kind with
  | buildFile => BuildFile.findings content file
  | manifest => Workload.findings content file

end ShutdownLint

import ShutdownLint.Proofs.Success
import ShutdownLint.Proofs.Yaml.JoinedStreams
import ShutdownLint.Workload
/-!
Two manifests in one file.

The findings on a manifest are those on its documents, one after another, and an empty document has
none. So the findings on two manifests with a mark between them are those on the first and then
those on the second one, whatever documents the seam adds or leaves out.
-/

set_option autoImplicit false

namespace ShutdownLint.Workload

open Yaml

theorem findings_of_parse_eq_ok {content : String} {ds : List Value}
    (h : Stream.parse content = .ok ds) (file : String) :
    findings content file = ds.flatMap (documentFindings file) := by
  rw [findings, h]

theorem documentFindings_null (file : String) : documentFindings file .null = [] :=
  rfl

/-- Where two manifests are accepted, they also are with a mark between them. The findings are then
those on the first and then those on the second one. -/
theorem findings_join {a b : String} {ds es : List Value}
    (hend : a.toList.getLast? = some '\n') (ha : Stream.parse a = .ok ds)
    (hb : Stream.parse b = .ok es) :
    (∃ front back, Stream.parse (a ++ "---\n" ++ b) = .ok (front ++ back) ∧
      (front = ds ∨ front = [] ∧ ds = [.null]) ∧ (back = es ∨ back = .null :: es)) ∧
    ∀ file, findings (a ++ "---\n" ++ b) file = findings a file ++ findings b file := by
  obtain ⟨front, back, hparse, hfront, hback⟩ := Stream.parse_join hend ha hb
  refine ⟨⟨front, back, hparse, hfront, hback⟩, fun file ↦ ?_⟩
  have hfront' : front.flatMap (documentFindings file) = findings a file := by
    rw [findings_of_parse_eq_ok ha]
    rcases hfront with rfl | ⟨rfl, rfl⟩
    · rfl
    · simp [documentFindings_null]
  have hback' : back.flatMap (documentFindings file) = findings b file := by
    rw [findings_of_parse_eq_ok hb]
    rcases hback with rfl | rfl
    · rfl
    · simp [documentFindings_null]
  rw [findings_of_parse_eq_ok hparse, List.flatMap_append, hfront', hback']

/-- Ends in a block scalar that keeps its line feeds, below a sequence in a mapping. -/
def openEnded : String :=
  "base: &b\n  readinessProbe: 1\nspec:\n  containers:\n  - <<: *b\n    name: |+\n      a # b\n\n"

/-- Begins with a comment and a mark of its own and has the same anchor for something else. -/
def marked : String :=
  "# c\n--- # d\nbase: &b\n  lifecycle: {preStop: 1}\nspec:\n  containers: [{<<: *b, name: b}]\n"

theorem findings_join_openEnded_marked :
    openEnded.toList.getLast? = some '\n' ∧
      (∃ ds, Stream.parse openEnded = .ok ds ∧ ∃ es, Stream.parse marked = .ok es ∧
        ∃ ds', Stream.parse (openEnded ++ "---\n" ++ marked) = .ok ds') ∧
      findings openEnded "pod.yaml" ≠ [] ∧ findings marked "pod.yaml" ≠ [] ∧
        findings (openEnded ++ "---\n" ++ marked) "pod.yaml" =
          findings openEnded "pod.yaml" ++ findings marked "pod.yaml" := by
  have hend : openEnded.toList.getLast? = some '\n' := by decide
  have ha : ∃ ds, Stream.parse openEnded = .ok ds ∧ ds.length = 1 := by decide +kernel
  have hb : ∃ es, Stream.parse marked = .ok es ∧ es.length = 1 := by decide +kernel
  obtain ⟨ds, hds, -⟩ := ha
  obtain ⟨es, hes, -⟩ := hb
  obtain ⟨⟨front, back, hjoin, -⟩, hfindings⟩ := findings_join hend hds hes
  exact ⟨hend, ⟨ds, hds, es, hes, _, hjoin⟩, by decide +kernel, by decide +kernel,
    hfindings "pod.yaml"⟩

end ShutdownLint.Workload

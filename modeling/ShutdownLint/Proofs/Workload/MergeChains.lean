import ShutdownLint.Proofs.Workload.DocumentBlocks
import ShutdownLint.Proofs.Yaml.StreamMerges
/-!
What a container inherits through its merge keys.

The findings on a container are about the fields that it has when the merge keys have been followed.
Those that it inherits over one merge are among them. Those over a chain of two or more are not, and
then the merge key that would lead on is still in the container.
-/

set_option autoImplicit false

namespace ShutdownLint.Workload

open Fields PodSpec Yaml Yaml.Value

variable {file key : String} {es c : Fields}

/-! ### Fields -/

/-- A field that is inherited is defined in the end exactly when it is over at most one merge. -/
theorem defined_merged_iff (hkeys : DistinctKeys es)
    (h : (Value.mapping es).merged = .ok (.mapping c)) (hkey : key ≠ mergeKey) {n : Nat} {v : Value}
    (hv : Inherits key n es v) (hnull : v.untagged ≠ .null) : Defined key c ↔ n ≤ 1 := by
  constructor
  · rintro ⟨w, hw, -⟩
    obtain ⟨m, hm, u, hu, -⟩ := (lookup_merged_iff hkeys h hkey).mp (lookup_eq_some_iff.mpr hw)
    rw [(hv.unique hu).1]
    exact hm
  · intro hn
    obtain ⟨w, hw, hmerged⟩ := exists_lookup_merged hkeys h hkey hn hv
    refine ⟨w, lookup_eq_some_iff.mp hw, ?_⟩
    rwa [ne_eq, untagged_eq_null_iff_of_merged hmerged]

/-- The same for a mapping: it is the merged one. -/
theorem mappingAt_merged_iff (hkeys : DistinctKeys es)
    (h : (Value.mapping es).merged = .ok (.mapping c)) (hkey : key ≠ mergeKey) {n : Nat} {v : Value}
    (hv : Inherits key n es v) {fs gs : Fields} (hfs : v.untagged = .mapping fs) :
    MappingAt key c gs ↔ n ≤ 1 ∧ (Value.mapping fs).merged = .ok (.mapping gs) := by
  constructor
  · rintro ⟨w, hw, hgs⟩
    obtain ⟨m, hm, u, hu, hmerged⟩ :=
      (lookup_merged_iff hkeys h hkey).mp (lookup_eq_some_iff.mpr hw)
    obtain ⟨rfl, rfl⟩ := hv.unique hu
    obtain ⟨fs', hfs', hmapping⟩ := (untagged_eq_mapping_iff_of_merged hmerged).mp hgs
    rw [hfs] at hfs'
    cases hfs'
    exact ⟨hm, hmapping⟩
  · rintro ⟨hn, hmapping⟩
    obtain ⟨w, hw, hmerged⟩ := exists_lookup_merged hkeys h hkey hn hv
    exact ⟨w, lookup_eq_some_iff.mp hw,
      (untagged_eq_mapping_iff_of_merged hmerged).mpr ⟨fs, hfs, hmapping⟩⟩

theorem hasPreStop_merged_iff (hkeys : Keyed (.mapping es))
    (h : (Value.mapping es).merged = .ok (.mapping c)) {n k : Nat} {l p : Value} {ls : Fields}
    (hl : Inherits "lifecycle" n es l) (hls : l.untagged = .mapping ls)
    (hp : Inherits "preStop" k ls p) (hnull : p.untagged ≠ .null) :
    HasPreStop c ↔ n ≤ 1 ∧ k ≤ 1 := by
  have hlifecycle : "lifecycle" ≠ mergeKey := by decide
  have hpreStop : "preStop" ≠ mergeKey := by decide
  -- A `lifecycle` from further away is never met, and nothing needs to be known about it.
  have hkeys' : n ≤ 1 → DistinctKeys ls := fun hn ↦
    hkeys ls (hl.visited (hkeys es .here) h hlifecycle hn (visited_of_untagged hls)).reaches
  constructor
  · rintro ⟨gs, hmapping, hdefined⟩
    obtain ⟨hn, hgs⟩ := (mappingAt_merged_iff (hkeys es .here) h hlifecycle hl hls).mp hmapping
    exact ⟨hn, (defined_merged_iff (hkeys' hn) hgs hpreStop hp hnull).mp hdefined⟩
  · rintro ⟨hn, hk⟩
    obtain ⟨w, -, hw⟩ := exists_lookup_merged (hkeys es .here) h hlifecycle hn hl
    obtain ⟨gs, -, -, hgs⟩ := (visited_of_untagged hls).exists_reaches hw
    exact ⟨gs, (mappingAt_merged_iff (hkeys es .here) h hlifecycle hl hls).mpr ⟨hn, hgs⟩,
      (defined_merged_iff (hkeys' hn) hgs hpreStop hp hnull).mpr hk⟩

/-! ### Findings -/

theorem missingReadinessProbe_mem_findings_iff :
    Rule.missingReadinessProbe.forContainer file (Container.name ⟨c⟩) ∈
      Container.findings ⟨c⟩ file ↔ ¬Defined "readinessProbe" c := by
  rw [← Container.hasReadinessProbe_iff (c := ⟨c⟩), Container.findings]
  cases Container.hasReadinessProbe ⟨c⟩ <;> cases Container.hasPreStop ⟨c⟩ <;>
    simp [Rule.forContainer, Rule.id]

theorem missingPreStop_mem_findings_iff :
    Rule.missingPreStop.forContainer file (Container.name ⟨c⟩) ∈
      Container.findings ⟨c⟩ file ↔ ¬HasPreStop c := by
  rw [← Container.hasPreStop_iff (c := ⟨c⟩), Container.findings]
  cases Container.hasReadinessProbe ⟨c⟩ <;> cases Container.hasPreStop ⟨c⟩ <;>
    simp [Rule.forContainer, Rule.id]

/-- A container of a document has these fields. -/
def HasContainer (document : Value) (c : Fields) : Prop :=
  ∃ pod items item, Describes document pod ∧ Items pod items ∧ item ∈ items ∧
    item.untagged = .mapping c

theorem reaches_of_mappingAt {fields inner : Fields} (h : MappingAt key fields inner) :
    Reaches (.mapping fields) inner := by
  obtain ⟨v, hv, hinner⟩ := h
  refine .entry (mem_of_lookup_eq_some (lookup_eq_some_iff.mpr hv)) ?_
  rw [← reaches_untagged_iff, hinner]
  exact .here

theorem reaches_of_describes {document : Value} {pod : Fields} (h : Describes document pod) :
    Reaches document pod := by
  rw [← reaches_untagged_iff]
  cases h with
  | nested hroot hspec htemplate hpod =>
    rw [hroot]
    exact ((reaches_of_mappingAt hspec).trans (reaches_of_mappingAt htemplate)).trans
      (reaches_of_mappingAt hpod)
  | direct hroot hspec =>
    rw [hroot]
    exact reaches_of_mappingAt hspec

theorem HasContainer.reaches {document : Value} (h : HasContainer document c) :
    Reaches document c := by
  obtain ⟨pod, items, item, hpod, hitems, hmem, hc⟩ := h
  exact (reaches_of_describes hpod).trans (hitems.reaches hmem hc)

/-! ### The law -/

/-- A manifest whose merge keys all offer mappings is accepted. Its documents are without merge keys
in the end exactly when none stands in a mapping that is merged on the walk. Their containers are
mappings that were written, and what one of these inherits counts exactly over at most one merge. -/
theorem mergeKeys_law (content file : String) (h : ∀ r ∈ documents content, WellMerged r) :
    ∃ ds, Stream.parse content = .ok ds ∧
      ((∀ d ∈ ds, FreeOfMergeKeys d) ↔
        ∀ v, .ok v ∈ documents content → ∀ es, Visited v es → ∀ s ∈ sources es, ¬HasMergeKey s) ∧
      (∀ d ∈ ds, ∀ c, HasContainer d c →
        ∃ v es, .ok v ∈ documents content ∧ ComesOut v es c) ∧
      ∀ v es c, .ok v ∈ documents content → ComesOut v es c →
        (∀ n p, Inherits "readinessProbe" n es p → p.untagged ≠ .null →
          (Rule.missingReadinessProbe.forContainer file (Container.name ⟨c⟩) ∈
            Container.findings ⟨c⟩ file ↔ 2 ≤ n)) ∧
        ∀ n k l ls p, Inherits "lifecycle" n es l → l.untagged = .mapping ls →
          Inherits "preStop" k ls p → p.untagged ≠ .null →
            (Rule.missingPreStop.forContainer file (Container.name ⟨c⟩) ∈
              Container.findings ⟨c⟩ file ↔ 2 ≤ n ∨ 2 ≤ k) := by
  obtain ⟨ds, hparse⟩ := exists_parse_of_wellMerged h
  refine ⟨ds, hparse, forall_freeOfMergeKeys_iff hparse,
    fun d hd c hc ↦ exists_comesOut_of_reaches hparse hd hc.reaches, ?_⟩
  rintro v es c hv ⟨hvisit, hmerged⟩
  have hkeys : Keyed (.mapping es) := fun fs hreach ↦
    keyed_of_mem_documents hv fs (hvisit.reaches.trans hreach)
  constructor
  · intro n p hp hnull
    have hprobe : "readinessProbe" ≠ mergeKey := by decide
    rw [missingReadinessProbe_mem_findings_iff,
      defined_merged_iff (hkeys es .here) hmerged hprobe hp hnull]
    omega
  · intro n k l ls p hl hls hp hnull
    rw [missingPreStop_mem_findings_iff, hasPreStop_merged_iff hkeys hmerged hl hls hp hnull]
    omega

/-- A mapping that merges one without a merge key. -/
def singleMerge : String :=
  "a: &a\n  b: 1\nc:\n  <<: *a\n"

theorem mergeKeys_law_singleMerge :
    (∀ r ∈ documents singleMerge, WellMerged r) ∧
      ∃ ds, Stream.parse singleMerge = .ok ds ∧ ∀ d ∈ ds, FreeOfMergeKeys d := by
  have hwell : ∀ r ∈ documents singleMerge, WellMerged r := by decide +kernel
  have hsources : ∀ r ∈ documents singleMerge, ∃ v, r = .ok v ∧
      v.allMappings fun es ↦ (sources es).all fun s ↦ (lookup mergeKey s).isNone := by
    decide +kernel
  obtain ⟨ds, hds, hfree, -⟩ := mergeKeys_law singleMerge "pod.yaml" hwell
  refine ⟨hwell, ds, hds, hfree.mpr fun v hv es hvisit s hs ↦ ?_⟩
  obtain ⟨_, ⟨⟩, htest⟩ := hsources _ hv
  have hnone := List.all_eq_true.mp (allMappings_iff.mp htest es hvisit.reaches) s hs
  exact not_hasMergeKey_iff.mpr (Option.isNone_iff_eq_none.mp hnone)

/-- A container that merges `b`, which merges `a`, which has both fields. -/
def chainOfTwo : String :=
  "a: &a\n  readinessProbe: 1\n  lifecycle:\n    preStop: 1\nb: &b\n  <<: *a\n" ++
    "spec:\n  terminationGracePeriodSeconds: 1\n  containers:\n  - <<: *b\n"

/-- Neither field arrives, and a merge key stays behind. -/
theorem findings_chainOfTwo :
    (∀ r ∈ documents chainOfTwo, WellMerged r) ∧
      (∃ ds, Stream.parse chainOfTwo = .ok ds ∧ ∃ d ∈ ds, ¬FreeOfMergeKeys d) ∧
        (findings chainOfTwo "pod.yaml").map (·.rule) = ["DG102", "DG103"] := by
  decide +kernel

end ShutdownLint.Workload

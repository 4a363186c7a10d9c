import ShutdownLint.Proofs.Workload.MergeChains
/-!
Where findings on a manifest come from: each is the one on a whole document, or one on a container
of a document that lacks a hook or a probe.
-/

set_option autoImplicit false

namespace ShutdownLint.Workload

open PodSpec Fields

variable {file : String} {c : Fields}

theorem hasContainer_iff {document : Yaml.Value} : HasContainer document c ↔
    ∃ p, PodSpec.ofDocument? document = some p ∧ ⟨c⟩ ∈ p.containers := by
  have hmem (items : List Yaml.Value) :
      Container.mk c ∈ (items.filterMap Yaml.Value.asMapping?).map Container.mk ↔
        ∃ item ∈ items, item.untagged = .mapping c := by
    simp [Yaml.Value.asMapping?_eq_some_iff]
  constructor
  · rintro ⟨pod, items, item, hpod, hitems, hitem, hc⟩
    refine ⟨⟨pod⟩, ofDocument?_eq_some_iff.mpr hpod, ?_⟩
    unfold containers
    rw [items_iff.mp hitems]
    exact (hmem items).mpr ⟨item, hitem, hc⟩
  · rintro ⟨⟨pod⟩, hpod, hcontainer⟩
    obtain ⟨item, hitem, hc⟩ := (hmem _).mp hcontainer
    exact ⟨pod, _, item, ofDocument?_eq_some_iff.mp hpod, items_iff.mpr rfl, hitem, hc⟩

/-- What a test of all containers of a document says about each of them. -/
theorem of_all_containers {document : Yaml.Value} {test : Container → Bool}
    (h : (PodSpec.ofDocument? document).all fun p ↦ p.containers.all test)
    (hc : HasContainer document c) : test ⟨c⟩ = true := by
  obtain ⟨p, hp, hmem⟩ := hasContainer_iff.mp hc
  rw [hp, Option.all_some] at h
  exact List.all_eq_true.mp h ⟨c⟩ hmem

/-- A test that some container of a document passes. -/
theorem exists_of_any_containers {document : Yaml.Value} {test : Container → Bool}
    (h : (PodSpec.ofDocument? document).any fun p ↦ p.containers.any test) :
    ∃ c, HasContainer document c ∧ test ⟨c⟩ = true := by
  obtain ⟨p, hp, hcontainers⟩ := (Option.any_eq_true _ _).mp h
  obtain ⟨⟨c⟩, hc, htest⟩ := List.any_eq_true.mp hcontainers
  exact ⟨c, hasContainer_iff.mpr ⟨p, hp, hc⟩, htest⟩

theorem mem_container_findings_iff {f : Finding} : f ∈ Container.findings ⟨c⟩ file ↔
    ¬HasPreStop c ∧ f = Rule.missingPreStop.forContainer file (Container.name ⟨c⟩) ∨
      ¬Defined "readinessProbe" c ∧
        f = Rule.missingReadinessProbe.forContainer file (Container.name ⟨c⟩) := by
  rw [← Container.hasPreStop_iff (c := ⟨c⟩), ← Container.hasReadinessProbe_iff (c := ⟨c⟩),
    Container.findings]
  cases Container.hasPreStop ⟨c⟩ <;> cases Container.hasReadinessProbe ⟨c⟩ <;> simp

/-- A finding on a manifest is the one on a whole document or one on a container. -/
theorem mem_workload_findings {content : String} {f : Finding}
    (h : f ∈ Workload.findings content file) :
    f = Rule.unsetGracePeriod.atDocument file ∨ ∃ documents,
      Yaml.Stream.parse content = .ok documents ∧ ∃ d ∈ documents, ∃ c, HasContainer d c ∧
        f ∈ Container.findings ⟨c⟩ file := by
  unfold Workload.findings at h
  split at h
  · rename_i documents hdocuments
    obtain ⟨d, hd, hf⟩ := List.mem_flatMap.mp h
    unfold documentFindings at hf
    split at hf
    · rename_i p hp
      rcases List.mem_append.mp hf with hf | hf
      · split_ifs at hf
        · cases hf
        · exact Or.inl (List.mem_singleton.mp hf)
      · obtain ⟨⟨c⟩, hc, hf⟩ := List.mem_flatMap.mp hf
        exact Or.inr ⟨documents, hdocuments, d, hd, c, hasContainer_iff.mpr ⟨p, hp, hc⟩, hf⟩
    · cases hf
  · cases h

theorem mem_workload_findings_of_container {content : String} {documents : List Yaml.Value}
    (hparse : Yaml.Stream.parse content = .ok documents) {d : Yaml.Value} (hd : d ∈ documents)
    (hc : HasContainer d c) {f : Finding} (hf : f ∈ Container.findings ⟨c⟩ file) :
    f ∈ Workload.findings content file := by
  obtain ⟨p, hp, hmem⟩ := hasContainer_iff.mp hc
  unfold Workload.findings
  rw [hparse]
  refine List.mem_flatMap.mpr ⟨d, hd, ?_⟩
  unfold documentFindings
  rw [hp]
  exact List.mem_append_right _ (List.mem_flatMap.mpr ⟨_, hmem, hf⟩)

end ShutdownLint.Workload

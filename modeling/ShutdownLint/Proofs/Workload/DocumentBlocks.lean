import ShutdownLint.Proofs.Pointwise
import ShutdownLint.Proofs.Workload.PodShape
import ShutdownLint.Proofs.Yaml.FirstFailure
import ShutdownLint.Proofs.Yaml.Reaches
/-!
The findings on a manifest, document by document.

`ManifestFindings` says what they are by the shapes of the documents: nothing at all if one document
of the stream fails, and else one block for each document in their order. It holds of exactly one
list, the one that the analysis gives.
-/

set_option autoImplicit false

namespace ShutdownLint.Workload

open Fields PodSpec Yaml.Value

variable {file : String}

/-- A requirement gives no finding if it is met, and this one if it is not. -/
def Requires (met : Prop) (f : Finding) (fs : List Finding) : Prop :=
  met ∧ fs = [] ∨ ¬met ∧ fs = [f]

theorem requires_iff {b : Bool} {met : Prop} {f : Finding} {fs : List Finding} (h : b ↔ met) :
    Requires met f fs ↔ (if b then [] else [f]) = fs := by
  rw [Requires, ← h]
  cases b <;> simp [eq_comm]

/-! ### Containers -/

/-- The findings on an item in a list of containers. -/
inductive ItemFindings (file : String) (item : Yaml.Value) : List Finding → Prop
  | skipped (h : ∀ c, item.untagged ≠ .mapping c) : ItemFindings file item []
  | checked {c : Fields} {hook probe : List Finding} (h : item.untagged = .mapping c)
      (hhook : Requires (HasPreStop c) ⟨"DG102", .warning,
        Rule.missingPreStop.messageFor (Container.name ⟨c⟩), file, none⟩ hook)
      (hprobe : Requires (Defined "readinessProbe" c) ⟨"DG103", .warning,
        Rule.missingReadinessProbe.messageFor (Container.name ⟨c⟩), file, none⟩ probe) :
      ItemFindings file item (hook ++ probe)

theorem findings_container_iff {c : Fields} {fs : List Finding} :
    Container.findings ⟨c⟩ file = fs ↔ ∃ hook probe,
      Requires (HasPreStop c) ⟨"DG102", .warning,
          Rule.missingPreStop.messageFor (Container.name ⟨c⟩), file, none⟩ hook ∧
        Requires (Defined "readinessProbe" c) ⟨"DG103", .warning,
            Rule.missingReadinessProbe.messageFor (Container.name ⟨c⟩), file, none⟩ probe ∧
          hook ++ probe = fs := by
  rw [Container.findings]
  constructor
  · rintro rfl
    exact ⟨_, _, (requires_iff Container.hasPreStop_iff).mpr rfl,
      (requires_iff Container.hasReadinessProbe_iff).mpr rfl, rfl⟩
  · rintro ⟨hook, probe, hhook, hprobe, rfl⟩
    rw [← (requires_iff Container.hasPreStop_iff).mp hhook,
      ← (requires_iff Container.hasReadinessProbe_iff).mp hprobe]
    rfl

/-- The findings that an item of a list of containers gives, be it a container or not. -/
def itemFindings (file : String) (item : Yaml.Value) : List Finding :=
  item.asMapping?.elim [] fun c ↦ Container.findings ⟨c⟩ file

theorem itemFindings_iff {item : Yaml.Value} {fs : List Finding} :
    ItemFindings file item fs ↔ itemFindings file item = fs := by
  unfold itemFindings
  cases hitem : item.asMapping? with
  | none =>
    have hskip : ∀ c, item.untagged ≠ .mapping c := fun c hc ↦ by
      rw [asMapping?_eq_some_iff.mpr hc] at hitem
      cases hitem
    constructor
    · rintro (_ | ⟨h, -, -⟩)
      · rfl
      · exact absurd h (hskip _)
    · rintro rfl
      exact .skipped hskip
  | some c =>
    have hc := asMapping?_eq_some_iff.mp hitem
    rw [Option.elim_some, findings_container_iff]
    constructor
    · rintro (h | ⟨h, hhook, hprobe⟩)
      · exact absurd hc (h c)
      · obtain rfl : c = _ := Yaml.Value.mapping.inj (hc.symm.trans h)
        exact ⟨_, _, hhook, hprobe, rfl⟩
    · rintro ⟨hook, probe, hhook, hprobe, rfl⟩
      exact .checked hc hhook hprobe

theorem forall₂_itemFindings_iff {items : List Yaml.Value} {blocks : List (List Finding)} :
    List.Forall₂ (ItemFindings file) items blocks ↔ items.map (itemFindings file) = blocks :=
  Pointwise.forall₂_iff_map_eq (R := ItemFindings file) fun _ _ ↦ itemFindings_iff

/-! ### Pods -/

/-- The items in the list of containers, of which there are none if there is no list. -/
inductive Items (pod : Fields) : List Yaml.Value → Prop
  | absent (h : ∀ v items, Field "containers" pod v → v.untagged ≠ .sequence items) : Items pod []
  | listed {v : Yaml.Value} {items : List Yaml.Value} (h : Field "containers" pod v)
      (hitems : v.untagged = .sequence items) : Items pod items

theorem items_iff {pod : Fields} {items : List Yaml.Value} :
    Items pod items ↔ ((lookup "containers" pod).bind asSequence?).getD [] = items := by
  rw [Option.getD_eq_iff, Option.bind_eq_some_iff, Option.bind_eq_none_iff]
  simp only [lookup_eq_some_iff, asSequence?_eq_some_iff, Option.eq_none_iff_forall_ne_some, ne_eq]
  constructor
  · rintro (h | ⟨h, hitems⟩)
    · exact Or.inr ⟨fun v hv items ↦ h v items hv, rfl⟩
    · exact Or.inl ⟨_, h, hitems⟩
  · rintro (⟨v, h, hitems⟩ | ⟨h, rfl⟩)
    · exact .listed h hitems
    · exact .absent fun v items hv ↦ h v hv items

theorem Items.reaches {pod c : Fields} {items : List Yaml.Value} {item : Yaml.Value}
    (hitems : Items pod items) (hmem : item ∈ items) (hc : item.untagged = .mapping c) :
    Reaches (.mapping pod) c := by
  cases hitems with
  | absent => cases hmem
  | listed hv hlist =>
    refine .entry (mem_of_lookup_eq_some (lookup_eq_some_iff.mpr hv)) ?_
    rw [← reaches_untagged_iff, hlist]
    refine .item hmem ?_
    rw [← reaches_untagged_iff, hc]
    exact .here

theorem flatMap_findings_containers (pod : Fields) :
    (PodSpec.containers ⟨pod⟩).flatMap (·.findings file) =
      ((((lookup "containers" pod).bind asSequence?).getD []).map (itemFindings file)).flatten := by
  unfold PodSpec.containers
  generalize ((lookup "containers" pod).bind asSequence?).getD [] = items
  induction items with
  | nil => rfl
  | cons item items ih =>
    rw [List.map_cons, List.flatten_cons, ← ih, itemFindings]
    cases hitem : item.asMapping? <;> simp [hitem]

/-- The findings on one document: on its pods as a whole, and then on each of their containers. -/
inductive Block (file : String) (document : Yaml.Value) : List Finding → Prop
  | noSpec (h : ¬∃ root spec, document.untagged = .mapping root ∧ MappingAt "spec" root spec) :
      Block file document []
  | pods {pod : Fields} {items : List Yaml.Value} {grace : List Finding}
      {blocks : List (List Finding)} (hpod : Describes document pod)
      (hgrace : Requires (∃ v, Field "terminationGracePeriodSeconds" pod v)
        ⟨"DG101", .warning, Rule.unsetGracePeriod.template, file, none⟩ grace)
      (hitems : Items pod items) (hblocks : List.Forall₂ (ItemFindings file) items blocks) :
      Block file document (grace ++ blocks.flatten)

theorem block_iff {document : Yaml.Value} {fs : List Finding} :
    Block file document fs ↔ documentFindings file document = fs := by
  unfold documentFindings
  cases hp : ofDocument? document with
  | none =>
    have hnone := ofDocument?_eq_none_iff.mp hp
    constructor
    · rintro (_ | ⟨hpod, -, -, -⟩)
      · rfl
      · rw [ofDocument?_eq_some_iff.mpr hpod] at hp
        cases hp
    · rintro rfl
      exact .noSpec hnone
  | some p =>
    obtain ⟨pod⟩ := p
    have hpod := ofDocument?_eq_some_iff.mp hp
    simp only [PodSpec.findings, flatMap_findings_containers]
    constructor
    · rintro (h | ⟨hpod', hgrace, hitems, hblocks⟩)
      · rw [← ofDocument?_eq_none_iff, hp] at h
        cases h
      · rw [ofDocument?_eq_some_iff.mpr hpod'] at hp
        cases hp
        rw [items_iff.mp hitems, forall₂_itemFindings_iff.mp hblocks,
          ← (requires_iff hasGracePeriod_iff).mp hgrace]
        rfl
    · rintro rfl
      exact .pods hpod ((requires_iff hasGracePeriod_iff).mpr rfl) (items_iff.mpr rfl)
        (forall₂_itemFindings_iff.mpr rfl)

theorem forall₂_block_iff {documents : List Yaml.Value} {blocks : List (List Finding)} :
    List.Forall₂ (Block file) documents blocks ↔
      documents.map (documentFindings file) = blocks :=
  Pointwise.forall₂_iff_map_eq (R := Block file) fun _ _ ↦ block_iff

/-! ### Manifests -/

/-- The findings on a manifest, of which each document either passes, since it parses and has no
merge key in the way that cannot be followed, or spoils the whole. -/
inductive ManifestFindings (content file : String) : List Finding → Prop
  | rejected {r : Except Yaml.Fault Yaml.Value} (hmem : r ∈ Yaml.documents content)
      (h : ¬Yaml.Passes r) : ManifestFindings content file []
  | accepted {documents : List Yaml.Value} {blocks : List (List Finding)}
      (h : Yaml.Stream.parse content = .ok documents)
      (hblocks : List.Forall₂ (Block file) documents blocks) :
      ManifestFindings content file blocks.flatten

/-- The findings on a manifest are nothing if one of its documents fails, also where the documents
in front of that one would have findings, and the blocks of its documents otherwise. -/
theorem findings_document_law (content file : String) (fs : List Finding) :
    findings content file = fs ↔ ManifestFindings content file fs := by
  unfold findings
  cases h : Yaml.Stream.parse content with
  | error e =>
    obtain ⟨r, hmem, hr⟩ := Yaml.Stream.exists_parse_eq_error_iff.mp ⟨e, h⟩
    constructor
    · rintro rfl
      exact .rejected hmem hr
    · rintro (_ | ⟨h', -⟩)
      · rfl
      · rw [h] at h'
        cases h'
  | ok documents =>
    simp only [List.flatMap_def]
    constructor
    · rintro rfl
      exact .accepted h (forall₂_block_iff.mpr rfl)
    · rintro (⟨hmem, hr⟩ | ⟨h', hblocks⟩)
      · obtain ⟨e, he⟩ := Yaml.Stream.exists_parse_eq_error_iff.mpr ⟨_, hmem, hr⟩
        rw [h] at he
        cases he
      · rw [h] at h'
        cases h'
        rw [forall₂_block_iff.mp hblocks]

end ShutdownLint.Workload

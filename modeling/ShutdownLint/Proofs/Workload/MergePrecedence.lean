import ShutdownLint.Proofs.Workload.DocumentBlocks
import ShutdownLint.Proofs.Yaml.Equality
import ShutdownLint.Proofs.Yaml.MergePaths
/-!
Which of the mappings that a container merges decides what.

A container that overlays some mappings takes each field whole from the first that has it. So the
first `lifecycle` decides about the hook, also where it has none, the first `readinessProbe` about
the probe, also where it is null, and the first `name` about the label.
-/

set_option autoImplicit false

namespace ShutdownLint.Workload

open Fields PodSpec Yaml Yaml.Value

variable {c own : Fields} {ms ss : List Fields} {content file : String}

/-! ### Overlays -/

theorem missingReadinessProbe_mem_violated_iff (h : Overlays c ms) :
    Rule.missingReadinessProbe ∈ Container.violated ⟨c⟩ ↔
      ∀ p, ms.findSome? (lookup "readinessProbe") = some p → p.untagged = .null := by
  rw [← h, Container.mem_violated_iff]
  simp only [reduceCtorEq, false_and, true_and, false_or, Defined, ← lookup_eq_some_iff, not_exists,
    not_and, not_not]

theorem missingPreStop_mem_violated_iff (h : Overlays c ms) :
    Rule.missingPreStop ∈ Container.violated ⟨c⟩ ↔
      ∀ l, ms.findSome? (lookup "lifecycle") = some l →
        ¬∃ hooks, l.untagged = .mapping hooks ∧ Defined "preStop" hooks := by
  rw [← h, Container.mem_violated_iff]
  simp only [reduceCtorEq, false_and, true_and, or_false, HasPreStop, MappingAt,
    ← lookup_eq_some_iff, not_exists, not_and]
  constructor
  · intro h l hl hooks hhooks
    exact h hooks ⟨l, hl, hhooks⟩
  · rintro h hooks ⟨l, hl, hhooks⟩
    exact h l hl hooks hhooks

theorem name_eq_of_lookup_eq {c d : Fields} (h : lookup "name" c = lookup "name" d) :
    Container.name ⟨c⟩ = Container.name ⟨d⟩ := by
  simp only [Container.name, h]

theorem name_of_overlays (h : Overlays c ms) :
    Container.name ⟨c⟩ = (ms.find? fun m ↦ (lookup "name" m).isSome).elim Container.unnamed
      fun m ↦ Container.name ⟨m⟩ := by
  have hname := h "name"
  clear h
  induction ms with
  | nil =>
    rw [List.findSome?_nil] at hname
    simp [Container.name, hname]
  | cons m ms ih =>
    rw [List.findSome?_cons] at hname
    rw [List.find?_cons]
    cases hm : lookup "name" m with
    | none =>
      rw [hm] at hname
      exact ih hname
    | some v =>
      rw [hm] at hname
      exact name_eq_of_lookup_eq (hname.trans hm.symm)

/-- What the own entries do not lack is not lacking under an overlay. -/
theorem violated_subset_of_overlays (h : Overlays c (own :: ss)) :
    Container.violated ⟨c⟩ ⊆ Container.violated ⟨own⟩ := by
  have hself : Overlays own [own] := fun key ↦ by
    rw [List.findSome?_cons, List.findSome?_nil]
    cases lookup key own <;> rfl
  have hfirst : ∀ key v, [own].findSome? (lookup key) = some v →
      (own :: ss).findSome? (lookup key) = some v := fun key v hv ↦ by
    rw [← hself] at hv
    rw [List.findSome?_cons, hv]
  intro r hr
  rcases Container.mem_violated_iff.mp hr with ⟨rfl, -⟩ | ⟨rfl, -⟩
  · rw [missingPreStop_mem_violated_iff h] at hr
    rw [missingPreStop_mem_violated_iff hself]
    exact fun l hl ↦ hr l (hfirst _ l hl)
  · rw [missingReadinessProbe_mem_violated_iff h] at hr
    rw [missingReadinessProbe_mem_violated_iff hself]
    exact fun p hp ↦ hr p (hfirst _ p hp)

/-! ### Containers in documents -/

/-- The list of containers of the pod at the end of a path has a container with these fields at a
place. -/
def ContainerAt (P : Fields → Prop) (path : List String) (document : Value) (place : Nat)
    (c : Fields) : Prop :=
  ∃ pod items item, LeadsTo P path document pod ∧ Items pod items ∧ items[place]? = some item ∧
    item.untagged = .mapping c

variable {P : Fields → Prop} {path : List String} {v d : Value} {place : Nat} {es : Fields}
  {ds : List Value}

/-- A container on a path without merge keys is there in the end, and it is merged. -/
theorem ContainerAt.merged (h : ContainerAt (¬HasMergeKey ·) path v place es)
    (hmerged : v.merged = .ok d) : ∃ c, ContainerAt (fun _ ↦ True) path d place c ∧
      (Value.mapping es).merged = .ok (.mapping c) := by
  obtain ⟨pod, items, item, hpod, hitems, hitem, hes⟩ := h
  obtain ⟨pod', hpod', hmerged'⟩ := hpod.merged hmerged
  cases hitems with
  | absent => cases hitem
  | listed hlist hsequence =>
    obtain ⟨list, hfield, hvalue⟩ := exists_field_of_merged hpod.property hmerged' hlist
    obtain ⟨ws, hws, hmerges⟩ := exists_sequence_of_merged hsequence hvalue
    obtain ⟨w, hw, hitem'⟩ := Pointwise.exists_of_getElem?_left hmerges hitem
    obtain ⟨c, hc, hmapping⟩ := exists_mapping_of_merged hes hitem'
    exact ⟨c, ⟨pod', ws, w, hpod', .listed hfield hws, hw, hc⟩, hmapping⟩

theorem ContainerAt.reaches (h : ContainerAt P path v place es) : Reaches v es := by
  obtain ⟨pod, items, item, hpod, hitems, hitem, hes⟩ := h
  exact hpod.reaches.trans (hitems.reaches (List.mem_of_getElem? hitem) hes)

/-- The findings on a container are a part of those on the manifest. -/
theorem ContainerAt.exists_findings (h : ContainerAt P path d place c)
    (hparse : Stream.parse content = .ok ds) (hd : d ∈ ds) {pod : Fields}
    (hpod : Describes d pod) {Q : Fields → Prop} (hpath : LeadsTo Q path d pod) :
    ∃ front back, findings content file =
      front ++ Container.findings ⟨c⟩ file ++ back := by
  obtain ⟨pod', items, item, hpod', hitems, hitem, hc⟩ := h
  obtain rfl := hpod'.unique hpath
  obtain ⟨before, after, rfl⟩ := List.append_of_mem hd
  obtain ⟨front, back, rfl⟩ := List.append_of_mem (List.mem_of_getElem? hitem)
  have hdocument : documentFindings file d = PodSpec.findings ⟨pod'⟩ file := by
    rw [documentFindings, ofDocument?_eq_some_iff.mpr hpod]
  have hcontainer : itemFindings file item = Container.findings ⟨c⟩ file := by
    rw [itemFindings, asMapping?_eq_some_iff.mpr hc, Option.elim_some]
  simp only [findings, hparse, List.flatMap_append, List.flatMap_cons, hdocument, PodSpec.findings,
    flatMap_findings_containers, items_iff.mp hitems, List.map_append, List.map_cons,
    List.flatten_append, List.flatten_cons, hcontainer]
  refine ⟨before.flatMap (documentFindings file) ++
    (if PodSpec.hasGracePeriod ⟨pod'⟩ then [] else [Rule.unsetGracePeriod.atDocument file]) ++
      (front.map (itemFindings file)).flatten,
    (back.map (itemFindings file)).flatten ++ after.flatMap (documentFindings file), ?_⟩
  simp only [List.append_assoc]

/-! ### The law -/

/-- A container that merges mappings without merge keys, and on the path to which there are none
either, overlays them with its own entries. Its findings follow from that, and there is no one among
them that it would not have without the merge. -/
theorem merged_container_law (file : String) (hparse : Stream.parse content = .ok ds) {i : Nat}
    (hv : (documents content)[i]? = some (.ok v)) (hd : ds[i]? = some d) {pod : Fields}
    (hpod : Describes d pod) (hpath : LeadsTo (fun _ ↦ True) path d pod)
    (hcontainer : ContainerAt (¬HasMergeKey ·) path v place es) (hmerge : MergesFrom es own ss)
    (hfree : ∀ m ∈ own :: ss, FreeOfMergeKeys (.mapping m)) :
    ∃ c, ContainerAt (fun _ ↦ True) path d place c ∧
      (∀ key, lookup key c = (own :: ss).findSome? (lookup key)) ∧
      (Rule.missingReadinessProbe ∈ Container.violated ⟨c⟩ ↔
        ∀ p, (own :: ss).findSome? (lookup "readinessProbe") = some p → p.untagged = .null) ∧
      (Rule.missingPreStop ∈ Container.violated ⟨c⟩ ↔
        ∀ l, (own :: ss).findSome? (lookup "lifecycle") = some l →
          ¬∃ hooks, l.untagged = .mapping hooks ∧ Defined "preStop" hooks) ∧
      Container.name ⟨c⟩ = ((own :: ss).find? fun m ↦ (lookup "name" m).isSome).elim
        Container.unnamed (fun m ↦ Container.name ⟨m⟩) ∧
      (Value.mapping own).merged = .ok (.mapping own) ∧
      Container.violated ⟨c⟩ ⊆ Container.violated ⟨own⟩ ∧
      ∃ front back, findings content file =
        front ++ (Container.violated ⟨c⟩).map (fun r ↦ r.forContainer file (Container.name ⟨c⟩)) ++
          back := by
  obtain ⟨_, hd', _, ⟨⟩, hmerged⟩ :=
    Pointwise.exists_of_getElem?_left (Stream.parse_eq_ok_iff.mp hparse) hv
  cases hd.symm.trans hd'
  have hkeys : DistinctKeys es :=
    keyed_of_mem_documents (List.mem_of_getElem? hv) es hcontainer.reaches
  obtain ⟨c, hc, hmapping⟩ := hcontainer.merged hmerged
  have h : Overlays c (own :: ss) := overlays_of_mergesFrom hkeys hmerge hfree hmapping
  refine ⟨c, hc, h, missingReadinessProbe_mem_violated_iff h, missingPreStop_mem_violated_iff h,
    name_of_overlays h, merged_of_freeOfMergeKeys (hfree own List.mem_cons_self),
    violated_subset_of_overlays h, ?_⟩
  rw [← Container.findings_eq_map_violated]
  exact hc.exists_findings hparse (List.mem_of_getElem? hd) hpod hpath

def nullProbe : Fields :=
  [(.string "readinessProbe", .null)]

def namedProbe : Fields :=
  [(.string "readinessProbe", .bool true), (.string "name", .string "web")]

def noHook : Fields :=
  [(.string "lifecycle", .mapping [])]

/-- A document with the two mappings, and with one container. -/
def twoProbesWith (container : Fields) : Value :=
  .mapping [(.string "a", .mapping nullProbe), (.string "b", .mapping namedProbe),
    (.string "spec", .mapping [(.string "containers", .sequence [.mapping container])])]

/-- The container merges the two mappings. -/
def twoProbes : String :=
  "a: &a\n  readinessProbe:\nb: &b\n  readinessProbe: true\n  name: web\n" ++
    "spec:\n  containers:\n  - lifecycle: {}\n    <<: [*a, *b]\n"

theorem merged_container_law_twoProbes :
    let es := noHook ++ [(.string mergeKey, .sequence [.mapping nullProbe, .mapping namedProbe])]
    (documents twoProbes)[0]? = some (.ok (twoProbesWith es)) ∧
      ContainerAt (¬HasMergeKey ·) ["spec"] (twoProbesWith es) 0 es ∧
      MergesFrom es noHook [nullProbe, namedProbe] ∧
      (∀ m ∈ [noHook, nullProbe, namedProbe], FreeOfMergeKeys (.mapping m)) ∧
      ∃ d c pod, Stream.parse twoProbes = .ok [d] ∧ Describes d pod ∧
        LeadsTo (fun _ ↦ True) ["spec"] d pod ∧ ContainerAt (fun _ ↦ True) ["spec"] d 0 c ∧
        Container.name ⟨c⟩ = "web" ∧ Rule.missingReadinessProbe ∈ Container.violated ⟨c⟩ ∧
        Rule.missingPreStop ∈ Container.violated ⟨c⟩ := by
  intro es
  have hv : (documents twoProbes)[0]? = some (.ok (twoProbesWith es)) := by decide +kernel
  have hparse : Stream.parse twoProbes = .ok [twoProbesWith
      (noHook ++ nullProbe ++ [(.string "name", .string "web")])] := by
    decide +kernel
  have hspec : ∀ (container : Fields) (P : Fields → Prop),
      (∀ fields, lookup mergeKey fields = none → P fields) →
        LeadsTo P ["spec"] (twoProbesWith container)
          [(.string "containers", .sequence [.mapping container])] := fun container P hP ↦
    .cons rfl (hP _ rfl) (lookup_eq_some_iff.mp rfl) (.nil rfl (hP _ rfl))
  have hcontainer : ContainerAt (¬HasMergeKey ·) ["spec"] (twoProbesWith es) 0 es :=
    ⟨_, _, _, hspec es _ fun _ ↦ not_hasMergeKey_iff.mpr, .listed (lookup_eq_some_iff.mp rfl) rfl,
      rfl, rfl⟩
  have hmerge : MergesFrom es noHook [nullProbe, namedProbe] :=
    .list noHook [] [nullProbe, namedProbe]
  have hfree : ∀ m ∈ [noHook, nullProbe, namedProbe], FreeOfMergeKeys (.mapping m) := by
    decide
  have hpod : Describes
      (twoProbesWith (noHook ++ nullProbe ++ [(.string "name", .string "web")])) _ :=
    ofDocument?_eq_some_iff.mp rfl
  obtain ⟨c, hc, -, hprobe, hhook, hname, -⟩ := merged_container_law "pod.yaml" hparse hv rfl hpod
    (hspec _ _ fun _ _ ↦ True.intro) hcontainer hmerge hfree
  refine ⟨hv, hcontainer, hmerge, hfree, _, c, _, hparse, hpod, hspec _ _ fun _ _ ↦ True.intro, hc,
    hname, hprobe.mpr ?_, hhook.mpr ?_⟩
  · rintro p ⟨⟩
    rfl
  · rintro l ⟨⟩ ⟨_, ⟨⟩, p, hp, -⟩
    exact nomatch lookup_eq_some_iff.mpr hp

end ShutdownLint.Workload

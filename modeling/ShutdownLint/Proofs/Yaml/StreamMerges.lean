import ShutdownLint.Proofs.Yaml.DistinctKeys
import ShutdownLint.Proofs.Yaml.Inheritance
import ShutdownLint.Proofs.Yaml.StreamValues
/-!
Merge keys in a stream of documents: where all of them offer mappings none of them fails, and the
mappings that come out are those that the walk met in a document.
-/

set_option autoImplicit false

namespace ShutdownLint.Yaml

open Value

theorem keyed_of_mem_documents {text : String} {v : Value} (h : .ok v ∈ documents text) :
    Keyed v := by
  obtain ⟨r, -, hr⟩ := List.mem_map.mp h
  cases r with
  | error e => cases hr
  | ok n => exact Node.keyed_documentValue hr

/-! ### Documents whose merge keys offer mappings -/

/-- Every merge key, at every depth, offers a mapping or a list of mappings. -/
def MergesMappings (v : Value) : Prop :=
  ∀ es, Reaches v es → ∀ source, Field mergeKey es source → Mergeable source

/-- A document that was read and all of whose merge keys offer mappings. -/
def WellMerged (r : Except Fault Value) : Prop :=
  ∃ v, r = .ok v ∧ MergesMappings v

theorem mergeable_iff_isOk {source : Value} : Mergeable source ↔ (mergeSource source).isOk := by
  constructor
  · intro h
    rw [mergeSource_eq_ok_iff.mpr ⟨h, rfl⟩]
    rfl
  · intro h
    cases hs : mergeSource source with
    | error e =>
      rw [hs] at h
      cases h
    | ok gs => exact (mergeSource_eq_ok_iff.mp hs).1

instance (v : Value) : Decidable (MergesMappings v) :=
  decidable_of_iff
    (v.allMappings fun es ↦ (lookup mergeKey es).all fun source ↦ (mergeSource source).isOk) (by
      simp only [MergesMappings, allMappings_iff, Option.all_eq_true, lookup_eq_some_iff,
        mergeable_iff_isOk])

instance (r : Except Fault Value) : Decidable (WellMerged r) :=
  inferInstanceAs (Decidable (∃ v, r = .ok v ∧ MergesMappings v))

theorem exists_resolves_of_wellMerged {r : Except Fault Value} (h : WellMerged r) :
    ∃ d, Resolves r d := by
  obtain ⟨v, rfl, hmerges⟩ := h
  have hsteps : ∀ es, Visited v es → ∃ hs, mergeHere es = .ok hs := fun es hvisit ↦
    exists_mergeHere_eq_ok_iff.mpr fun source hsource ↦
      hmerges es hvisit.reaches source (lookup_eq_some_iff.mp hsource)
  obtain ⟨d, hd⟩ := exists_merged_iff.mpr hsteps
  exact ⟨d, v, rfl, hd⟩

theorem exists_parse_of_wellMerged {text : String} (h : ∀ r ∈ documents text, WellMerged r) :
    ∃ ds, Stream.parse text = .ok ds :=
  Stream.exists_parse_eq_ok_iff.mpr fun r hr ↦ exists_resolves_of_wellMerged (h r hr)

/-! ### The mappings that come out -/

/-- A mapping has a merge key. -/
def HasMergeKey (es : List (Value × Value)) : Prop :=
  ∃ source, Field mergeKey es source

theorem not_hasMergeKey_iff {es : List (Value × Value)} :
    ¬HasMergeKey es ↔ lookup mergeKey es = none := by
  rw [HasMergeKey, ← isSome_lookup_iff, Option.not_isSome_iff_eq_none]

/-- No mapping in a value has a merge key. -/
def FreeOfMergeKeys (v : Value) : Prop :=
  ∀ es, Reaches v es → ¬HasMergeKey es

instance (v : Value) : Decidable (FreeOfMergeKeys v) :=
  decidable_of_iff (v.allMappings fun es ↦ (lookup mergeKey es).isNone) (by
    simp only [FreeOfMergeKeys, allMappings_iff, not_hasMergeKey_iff, Option.isNone_iff_eq_none])

theorem freeOfMergeKeys_mapping {es : List (Value × Value)} (hkey : lookup mergeKey es = none)
    (h : ∀ e ∈ es, FreeOfMergeKeys e.2) : FreeOfMergeKeys (.mapping es) := by
  intro fs hreach
  rcases reaches_mapping_iff.mp hreach with rfl | ⟨e, he, hvalue⟩
  · exact not_hasMergeKey_iff.mpr hkey
  · exact h e he fs hvalue

theorem freeOfMergeKeys_sequence {items : List Value} (h : ∀ v ∈ items, FreeOfMergeKeys v) :
    FreeOfMergeKeys (.sequence items) := by
  intro fs hreach
  obtain ⟨v, hv, hitem⟩ := reaches_sequence_iff.mp hreach
  exact h v hv fs hitem

/-- Where there is no merge key nothing is merged. -/
theorem merged_of_freeOfMergeKeys {v : Value} (h : FreeOfMergeKeys v) : v.merged = .ok v := by
  match v with
  | .mapping es =>
    have hnone : lookup mergeKey es = none := not_hasMergeKey_iff.mp (h es .here)
    have hvalues : List.Forall₂ MergesTo es es := List.forall₂_same.mpr fun e he ↦
      ⟨rfl, merged_of_freeOfMergeKeys fun fs hfs ↦ h fs (.entry he hfs)⟩
    exact merged_mapping_eq_ok_iff.mpr
      ⟨es, es, mergeHere_eq_ok_iff.mpr (Or.inl ⟨hnone, rfl⟩), hvalues, rfl⟩
  | .sequence items =>
    have hitems : List.Forall₂ (fun v w ↦ v.merged = .ok w) items items :=
      List.forall₂_same.mpr fun v hv ↦ merged_of_freeOfMergeKeys fun fs hfs ↦ h fs (.item hv hfs)
    exact merged_sequence_eq_ok_iff.mpr ⟨items, hitems, rfl⟩
  | .tagged name v =>
    have hv : v.merged = .ok v := merged_of_freeOfMergeKeys fun fs hfs ↦ h fs (.tag hfs)
    exact merged_tagged_eq_ok_iff.mpr ⟨v, hv, rfl⟩
  | .null | .bool _ | .number _ | .string _ => simp [merged]
termination_by v.size
decreasing_by
  · have := size_lt_of_mem_entries he
    simp only [size]
    omega
  · have := size_lt_of_mem_items hv
    simp only [size]
    omega
  · simp only [size]
    omega

variable {text : String} {ds : List Value}

/-- A mapping in the result comes from one that the walk met in a document. -/
theorem exists_comesOut_of_reaches (h : Stream.parse text = .ok ds) {d : Value} (hd : d ∈ ds)
    {fs : List (Value × Value)} (hreach : Reaches d fs) :
    ∃ v es, .ok v ∈ documents text ∧ ComesOut v es fs := by
  obtain ⟨r, hr, v, rfl, hmerged⟩ := Pointwise.exists_of_mem_right (Stream.parse_eq_ok_iff.mp h) hd
  obtain ⟨es, hes⟩ := (reaches_iff_of_merged hmerged).mp hreach
  exact ⟨v, es, hr, hes⟩

/-- Each mapping that the walk met in a document is in the result. -/
theorem exists_reaches_of_visited (h : Stream.parse text = .ok ds) {v : Value}
    (hv : .ok v ∈ documents text) {es : List (Value × Value)} (hvisit : Visited v es) :
    ∃ d ∈ ds, ∃ fs, Reaches d fs ∧ ComesOut v es fs := by
  obtain ⟨d, hd, v, ⟨⟩, hmerged⟩ :=
    Pointwise.exists_of_mem_left (Stream.parse_eq_ok_iff.mp h) hv
  obtain ⟨fs, hreach, hfs⟩ := hvisit.exists_reaches hmerged
  exact ⟨d, hd, fs, hreach, hfs⟩

/-- A merge key is in the result exactly when it stands in a mapping that is merged on the walk. -/
theorem forall_freeOfMergeKeys_iff (h : Stream.parse text = .ok ds) :
    (∀ d ∈ ds, FreeOfMergeKeys d) ↔
      ∀ v, .ok v ∈ documents text → ∀ es, Visited v es → ∀ s ∈ sources es, ¬HasMergeKey s := by
  simp only [FreeOfMergeKeys, not_hasMergeKey_iff]
  constructor
  · intro hnone v hv es hvisit
    obtain ⟨d, hd, fs, hreach, -, hmerged⟩ := exists_reaches_of_visited h hv hvisit
    have hkeys := keyed_of_mem_documents hv es hvisit.reaches
    exact (lookup_mergeKey_merged_eq_none_iff hkeys hmerged).mp (hnone d hd fs hreach)
  · intro hnone d hd fs hreach
    obtain ⟨v, es, hv, hvisit, hmerged⟩ := exists_comesOut_of_reaches h hd hreach
    have hkeys := keyed_of_mem_documents hv es hvisit.reaches
    exact (lookup_mergeKey_merged_eq_none_iff hkeys hmerged).mpr (hnone v hv es hvisit)

end ShutdownLint.Yaml

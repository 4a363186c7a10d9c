import ShutdownLint.Proofs.Yaml.StreamMerges
/-!
One merge in a document.

On a path of keys through mappings without merge keys nothing changes. At its end stands a mapping
with a merge key. Where no source has a merge key of its own, it comes out with each field as the
first of some mappings has it: its own entries, and then the sources in their order.
-/

set_option autoImplicit false

namespace ShutdownLint.Yaml.Value

variable {es fs own : List (Value × Value)} {ss : List (List (Value × Value))} {v w : Value}
  {key : String} {path : List String}

/-! ### Paths -/

/-- A path of keys leads from a value, through mappings with a property, to the last of them. -/
inductive LeadsTo (P : List (Value × Value) → Prop) :
    List String → Value → List (Value × Value) → Prop
  | nil {v : Value} {es : List (Value × Value)} (h : v.untagged = .mapping es) (hes : P es) :
      LeadsTo P [] v es
  | cons {key : String} {path : List String} {v w : Value} {es fs : List (Value × Value)}
      (h : v.untagged = .mapping es) (hes : P es) (hw : Field key es w)
      (hrest : LeadsTo P path w fs) : LeadsTo P (key :: path) v fs

theorem LeadsTo.unique {P Q : List (Value × Value) → Prop} (h : LeadsTo P path v es)
    (h' : LeadsTo Q path v fs) : es = fs := by
  induction h with
  | nil h =>
    cases h' with
    | nil h' => exact mapping.inj (h.symm.trans h')
  | cons h _ hw _ ih =>
    cases h' with
    | cons h' _ hw' hrest' =>
      obtain rfl := mapping.inj (h.symm.trans h')
      have hlookup := lookup_eq_some_iff.mpr hw
      rw [lookup_eq_some_iff.mpr hw'] at hlookup
      cases hlookup
      exact ih hrest'

theorem LeadsTo.property {P : List (Value × Value) → Prop} (h : LeadsTo P path v es) : P es := by
  induction h with
  | nil _ hes => exact hes
  | cons _ _ _ _ ih => exact ih

theorem LeadsTo.reaches {P : List (Value × Value) → Prop} (h : LeadsTo P path v es) :
    Reaches v es := by
  induction h with
  | nil h =>
    rw [← reaches_untagged_iff, h]
    exact .here
  | cons h _ hw _ ih =>
    rw [← reaches_untagged_iff, h]
    exact .entry (mem_of_lookup_eq_some (lookup_eq_some_iff.mpr hw)) ih

/-- A mapping without a merge key keeps its entries, each with its value merged. -/
theorem mergesTo_of_not_hasMergeKey (hkey : ¬HasMergeKey es)
    (h : (mapping es).merged = .ok (.mapping fs)) : List.Forall₂ MergesTo es fs := by
  obtain ⟨hs, _, hstep, hmerges, ⟨⟩⟩ := merged_mapping_eq_ok_iff.mp h
  obtain rfl : es = hs := by
    rcases mergeHere_eq_ok_iff.mp hstep with ⟨-, rfl⟩ | ⟨source, _, htake, -⟩
    · rfl
    · have hsource := lookup_eq_some_iff.mp (lookup_of_takeMergeKey htake)
      exact absurd ⟨source, hsource⟩ hkey
  exact hmerges

theorem exists_mapping_of_merged (hes : v.untagged = .mapping es) (h : v.merged = .ok w) :
    ∃ fs, w.untagged = .mapping fs ∧ (mapping es).merged = .ok (.mapping fs) := by
  have hmerged := merged_untagged h
  rw [hes] at hmerged
  obtain ⟨_, fs, -, -, hfs⟩ := merged_mapping_eq_ok_iff.mp hmerged
  exact ⟨fs, hfs, hfs ▸ hmerged⟩

theorem exists_sequence_of_merged {items : List Value} (hitems : v.untagged = .sequence items)
    (h : v.merged = .ok w) : ∃ ws, w.untagged = .sequence ws ∧
      List.Forall₂ (fun v w ↦ v.merged = .ok w) items ws := by
  have hmerged := merged_untagged h
  rw [hitems] at hmerged
  obtain ⟨ws, hws, hw⟩ := merged_sequence_eq_ok_iff.mp hmerged
  exact ⟨ws, hw, hws⟩

theorem exists_field_of_merged (hkey : ¬HasMergeKey es)
    (h : (mapping es).merged = .ok (.mapping fs)) (hv : Field key es v) :
    ∃ w, Field key fs w ∧ v.merged = .ok w := by
  have hmerges := mergesTo_of_not_hasMergeKey hkey h
  have hlookup := lookup_eq_some_iff.mpr hv
  obtain ⟨f, -, -, hvalue⟩ :=
    Pointwise.exists_of_mem_left hmerges (mem_of_lookup_eq_some hlookup)
  have hfield := (lookup_eq_some_iff_of_mergesTo hmerges).mpr ⟨v, hlookup, hvalue⟩
  exact ⟨f.2, lookup_eq_some_iff.mp hfield, hvalue⟩

/-- A path without merge keys is there in the end, and what it leads to is merged. -/
theorem LeadsTo.merged (hpath : LeadsTo (¬HasMergeKey ·) path v es) (h : v.merged = .ok w) :
    ∃ fs, LeadsTo (fun _ ↦ True) path w fs ∧ (mapping es).merged = .ok (.mapping fs) := by
  induction hpath generalizing w with
  | nil hv _ =>
    obtain ⟨fs, hfs, hmerged⟩ := exists_mapping_of_merged hv h
    exact ⟨fs, .nil hfs True.intro, hmerged⟩
  | cons hv hkey hu _ ih =>
    obtain ⟨fs, hfs, hmerged⟩ := exists_mapping_of_merged hv h
    obtain ⟨u, hfield, hvalue⟩ := exists_field_of_merged hkey hmerged hu
    obtain ⟨gs, hrest, hgs⟩ := ih hvalue
    exact ⟨gs, .cons hfs True.intro hfield hrest, hgs⟩

/-! ### Sources without merge keys -/

/-- A mapping consists of its own entries and of a merge key, which offers a mapping or a list of
mappings. -/
inductive MergesFrom : List (Value × Value) → List (Value × Value) →
    List (List (Value × Value)) → Prop
  | mapping (before after s : List (Value × Value)) :
      MergesFrom (before ++ (.string mergeKey, .mapping s) :: after) (before ++ after) [s]
  | list (before after : List (Value × Value)) (ss : List (List (Value × Value))) :
      MergesFrom (before ++ (.string mergeKey, .sequence (ss.map .mapping)) :: after)
        (before ++ after) ss

/-- A mapping has each field as the first of some mappings that has it. -/
def Overlays (es : List (Value × Value)) (ms : List (List (Value × Value))) : Prop :=
  ∀ key, lookup key es = ms.findSome? (lookup key)

theorem MergesFrom.split (h : MergesFrom es own ss) : ∃ before source after,
    es = before ++ (.string mergeKey, source) :: after ∧ own = before ++ after ∧
      offered source = ss ∧ ∀ fs, Reaches source fs → ∃ s ∈ ss, Reaches (.mapping s) fs := by
  cases h with
  | mapping before after s => exact ⟨before, .mapping s, after, rfl, rfl, rfl, by simp⟩
  | list before after ss =>
    refine ⟨before, _, after, rfl, rfl, by rw [offered, filterMap_bareMapping?], fun fs hreach ↦ ?_⟩
    simpa using reaches_sequence_iff.mp hreach

theorem MergesFrom.lookup_eq (h : MergesFrom es own ss) (hkey : key ≠ mergeKey) :
    lookup key es = lookup key own := by
  obtain ⟨before, source, after, rfl, rfl, -⟩ := h.split
  have hstring : ¬isString key (.string mergeKey) := fun hs ↦
    hkey (Value.string.inj (isString_iff.mp hs)).symm
  rw [lookup_append, lookup_append, lookup_cons, if_neg hstring]

theorem MergesFrom.sources_eq (h : MergesFrom es own ss) (hown : ¬HasMergeKey own) :
    sources es = ss := by
  obtain ⟨before, source, after, rfl, rfl, rfl, -⟩ := h.split
  rw [not_hasMergeKey_iff, lookup_append, Option.or_eq_none_iff] at hown
  rw [sources, lookup_append, hown.1, Option.none_or, lookup_cons, if_pos (isString_iff.mpr rfl)]
  rfl

/-- No value in the mapping has a merge key if there is none in its own entries and the sources. -/
theorem MergesFrom.freeOfMergeKeys (h : MergesFrom es own ss)
    (hfree : ∀ m ∈ own :: ss, FreeOfMergeKeys (.mapping m)) {e : Value × Value} (he : e ∈ es) :
    FreeOfMergeKeys e.2 := by
  obtain ⟨hown, hss⟩ := List.forall_mem_cons.mp hfree
  obtain ⟨before, source, after, rfl, rfl, -, hsource⟩ := h.split
  intro fs hreach
  rcases List.mem_append.mp he with he | he
  · exact hown fs (.entry (List.mem_append_left _ he) hreach)
  · rcases List.mem_cons.mp he with rfl | he
    · obtain ⟨s, hs, hfs⟩ := hsource fs hreach
      exact hss s hs fs hfs
    · exact hown fs (.entry (List.mem_append_right _ he) hreach)

theorem eq_of_mergesTo (h : List.Forall₂ MergesTo es fs) (hfree : ∀ e ∈ es, FreeOfMergeKeys e.2) :
    es = fs := by
  induction h with
  | nil => rfl
  | cons hef _ ih =>
    obtain ⟨he, hes⟩ := List.forall_mem_cons.mp hfree
    have hvalue := hef.2
    rw [merged_of_freeOfMergeKeys he, Except.ok.injEq] at hvalue
    rw [Prod.ext hef.1.symm hvalue, ih hes]

/-- A mapping whose merge key offers mappings without merge keys overlays them with its own
entries. -/
theorem overlays_of_mergesFrom (hkeys : DistinctKeys es) (h : MergesFrom es own ss)
    (hfree : ∀ m ∈ own :: ss, FreeOfMergeKeys (.mapping m))
    (hmerged : (mapping es).merged = .ok (.mapping fs)) : Overlays fs (own :: ss) := by
  have hown : ¬HasMergeKey own := hfree own List.mem_cons_self own .here
  have hsources := h.sources_eq hown
  obtain ⟨hs, _, hstep, hmerges, ⟨⟩⟩ := merged_mapping_eq_ok_iff.mp hmerged
  -- The step takes over values without merge keys only, so the walk does not change them.
  have hvalues : ∀ e ∈ hs, FreeOfMergeKeys e.2 := fun e he ↦ by
    rcases mem_mergeHere hstep he with he | ⟨s, hs, he⟩
    · exact h.freeOfMergeKeys hfree he
    · rw [hsources] at hs
      exact fun gs hgs ↦ hfree s (List.mem_cons_of_mem own hs) gs (.entry he hgs)
  rw [← eq_of_mergesTo hmerges hvalues]
  intro key
  rw [lookup_mergeHere hkeys hstep, hsources, List.findSome?_cons]
  split_ifs with hkey
  · rw [hkey, not_hasMergeKey_iff.mp hown, Option.none_or]
  · rw [h.lookup_eq hkey]
    cases lookup key own <;> rfl

end ShutdownLint.Yaml.Value

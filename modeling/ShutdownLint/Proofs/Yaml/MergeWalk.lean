import ShutdownLint.Proofs.Pointwise
import ShutdownLint.Proofs.Yaml.MergeStep
/-!
What following all merge keys does to a whole value.

The walk meets each mapping as it is written, follows its merge key and goes on to the entries that
the mapping has then. So the mappings of the result are those that the walk met, each after its own
step, and a mapping keeps a merge key exactly when one of the mappings it merges has one.
-/

set_option autoImplicit false

namespace ShutdownLint.Yaml.Value

variable {key : String} {es fs hs : List (Value × Value)} {v w : Value}

/-! ### Members -/

theorem mergedItems_eq_ok_iff {vs ws : List Value} :
    mergedItems vs = .ok ws ↔ List.Forall₂ (fun v w ↦ v.merged = .ok w) vs ws := by
  induction vs generalizing ws with
  | nil => simp [mergedItems, eq_comm]
  | cons v vs ih =>
    rw [mergedItems, List.forall₂_cons_left_iff]
    simp only [← ih]
    cases mergedItems vs with
    | error e => simp
    | ok us => cases v.merged <;> simp [eq_comm]

/-- An entry keeps its key, and its value gets merged. -/
def MergesTo (e f : Value × Value) : Prop :=
  f.1 = e.1 ∧ e.2.merged = .ok f.2

theorem mergedEntries_eq_ok_iff :
    mergedEntries es = .ok fs ↔ List.Forall₂ MergesTo es fs := by
  induction es generalizing fs with
  | nil => simp [mergedEntries, eq_comm]
  | cons e es ih =>
    obtain ⟨k, v⟩ := e
    rw [mergedEntries, List.forall₂_cons_left_iff]
    simp only [← ih]
    cases mergedEntries es with
    | error e => simp
    | ok gs => cases hv : v.merged <;> simp [MergesTo, hv, eq_comm]

theorem map_ok_lookup_of_mergesTo (h : List.Forall₂ MergesTo hs fs) :
    (lookup key fs).map .ok = (lookup key hs).map merged := by
  induction h with
  | nil => rfl
  | cons hhead _ ih =>
    rw [lookup_cons, lookup_cons, hhead.1]
    split_ifs
    · rw [Option.map_some, Option.map_some, hhead.2]
    · exact ih

theorem lookup_eq_some_iff_of_mergesTo (h : List.Forall₂ MergesTo hs fs) :
    lookup key fs = some w ↔ ∃ v, lookup key hs = some v ∧ v.merged = .ok w := by
  rw [← Option.map_eq_some_iff, ← map_ok_lookup_of_mergesTo h]
  simp

theorem lookup_eq_none_iff_of_mergesTo (h : List.Forall₂ MergesTo hs fs) :
    lookup key fs = none ↔ lookup key hs = none := by
  have hmap : (lookup key fs).map .ok = (lookup key hs).map merged := map_ok_lookup_of_mergesTo h
  rw [← Option.map_eq_none_iff, hmap, Option.map_eq_none_iff]

/-! ### Collections -/

theorem merged_mapping_eq_ok_iff :
    (mapping es).merged = .ok w ↔
      ∃ hs fs, mergeHere es = .ok hs ∧ List.Forall₂ MergesTo hs fs ∧ w = .mapping fs := by
  rw [merged]
  split
  · rename_i e h
    simp [h]
  · rename_i hs h
    simp only [h, Except.ok.injEq, ← mergedEntries_eq_ok_iff, exists_and_left, exists_eq_left']
    cases mergedEntries hs <;> simp [eq_comm]

theorem merged_sequence_eq_ok_iff {items : List Value} :
    (sequence items).merged = .ok w ↔
      ∃ ws, List.Forall₂ (fun v w ↦ v.merged = .ok w) items ws ∧ w = .sequence ws := by
  rw [merged]
  simp only [← mergedItems_eq_ok_iff]
  cases mergedItems items <;> simp [eq_comm]

theorem merged_tagged_eq_ok_iff {name : String} :
    (tagged name v).merged = .ok w ↔ ∃ u, v.merged = .ok u ∧ w = .tagged name u := by
  rw [merged]
  cases v.merged <;> simp [eq_comm]

theorem eq_mapping_of_merged (h : v.merged = .ok (.mapping fs)) : ∃ es, v = .mapping es := by
  cases v with
  | mapping es => exact ⟨es, rfl⟩
  | sequence items => obtain ⟨_, _, ⟨⟩⟩ := merged_sequence_eq_ok_iff.mp h
  | tagged name v => obtain ⟨_, _, ⟨⟩⟩ := merged_tagged_eq_ok_iff.mp h
  | _ => simp [merged] at h

theorem eq_sequence_of_merged {items : List Value} (h : v.merged = .ok (.sequence items)) :
    ∃ vs, v = .sequence vs := by
  cases v with
  | mapping es => obtain ⟨_, _, _, _, ⟨⟩⟩ := merged_mapping_eq_ok_iff.mp h
  | sequence vs => exact ⟨vs, rfl⟩
  | tagged name v => obtain ⟨_, _, ⟨⟩⟩ := merged_tagged_eq_ok_iff.mp h
  | _ => simp [merged] at h

theorem eq_tagged_of_merged {name : String} (h : v.merged = .ok (.tagged name w)) :
    ∃ u, v = .tagged name u := by
  cases v with
  | mapping es => obtain ⟨_, _, _, _, ⟨⟩⟩ := merged_mapping_eq_ok_iff.mp h
  | sequence items => obtain ⟨_, _, ⟨⟩⟩ := merged_sequence_eq_ok_iff.mp h
  | tagged name' u =>
    obtain ⟨_, _, ⟨⟩⟩ := merged_tagged_eq_ok_iff.mp h
    exact ⟨u, rfl⟩
  | _ => simp [merged] at h

theorem eq_string_of_merged {s : String} (h : v.merged = .ok (.string s)) : v = .string s := by
  cases v with
  | mapping es => obtain ⟨_, _, _, _, ⟨⟩⟩ := merged_mapping_eq_ok_iff.mp h
  | sequence items => obtain ⟨_, _, ⟨⟩⟩ := merged_sequence_eq_ok_iff.mp h
  | tagged name u => obtain ⟨_, _, ⟨⟩⟩ := merged_tagged_eq_ok_iff.mp h
  | string t => simpa [merged] using h
  | _ => simp [merged] at h

/-- Tags stay around what they are around. -/
theorem merged_untagged (h : v.merged = .ok w) : v.untagged.merged = .ok w.untagged := by
  induction v using untagged.induct generalizing w with
  | case1 name v ih =>
    obtain ⟨u, hu, rfl⟩ := merged_tagged_eq_ok_iff.mp h
    simp only [untagged]
    exact ih hu
  | case2 v hv =>
    have hw : ∀ name u, w ≠ .tagged name u := by
      rintro name u rfl
      obtain ⟨x, rfl⟩ := eq_tagged_of_merged h
      exact hv name x rfl
    rwa [untagged.eq_2 v hv, untagged.eq_2 w hw]

theorem untagged_eq_null_iff_of_merged (h : v.merged = .ok w) :
    w.untagged = .null ↔ v.untagged = .null := by
  have huntagged := merged_untagged h
  constructor
  · intro hw
    rw [hw] at huntagged
    cases hv : v.untagged with
    | null => rfl
    | mapping es => simp [hv, merged_mapping_eq_ok_iff] at huntagged
    | sequence items => simp [hv, merged_sequence_eq_ok_iff] at huntagged
    | tagged name v => simp [hv, merged_tagged_eq_ok_iff] at huntagged
    | _ => simp [hv, merged] at huntagged
  · intro hv
    simpa [hv, merged, eq_comm] using huntagged

theorem untagged_eq_mapping_iff_of_merged (h : v.merged = .ok w) :
    w.untagged = .mapping fs ↔
      ∃ es, v.untagged = .mapping es ∧ (mapping es).merged = .ok (.mapping fs) := by
  have huntagged := merged_untagged h
  constructor
  · intro hw
    rw [hw] at huntagged
    obtain ⟨es, hes⟩ := eq_mapping_of_merged huntagged
    exact ⟨es, hes, hes ▸ huntagged⟩
  · rintro ⟨es, hes, hmerged⟩
    rw [hes, hmerged] at huntagged
    exact (Except.ok.inj huntagged).symm

/-! ### The walk -/

/-- A mapping that the walk meets, as it is before its own merge key is followed. -/
inductive Visited : Value → List (Value × Value) → Prop
  | here {es : List (Value × Value)} : Visited (.mapping es) es
  | entry {es hs fs : List (Value × Value)} {e : Value × Value} (hstep : mergeHere es = .ok hs)
      (h : e ∈ hs) (hvalue : Visited e.2 fs) : Visited (.mapping es) fs
  | item {items : List Value} {v : Value} {fs : List (Value × Value)} (h : v ∈ items)
      (hitem : Visited v fs) : Visited (.sequence items) fs
  | tag {name : String} {v : Value} {fs : List (Value × Value)} (hcontent : Visited v fs) :
      Visited (.tagged name v) fs

theorem visited_of_untagged (h : v.untagged = .mapping es) : Visited v es := by
  fun_induction untagged v with
  | case1 _ v ih => exact .tag (ih h)
  | case2 v _ =>
    subst h
    exact .here

theorem reaches_of_mem_sources {s : List (Value × Value)} (h : s ∈ sources es) :
    Reaches (.mapping es) s := by
  unfold sources at h
  cases hsource : lookup mergeKey es with
  | none => simp [hsource] at h
  | some source =>
    rw [hsource, Option.map_some, Option.getD_some] at h
    refine .entry (mem_of_lookup_eq_some hsource) ?_
    cases source with
    | mapping gs =>
      cases List.mem_singleton.mp h
      exact .here
    | sequence items =>
      obtain ⟨v, hv, hbare⟩ := List.mem_filterMap.mp h
      cases v with
      | mapping gs =>
        cases hbare
        exact .item hv .here
      | _ => cases hbare
    | _ => cases h

/-- The walk meets only mappings that are written in the value. -/
theorem Visited.reaches (h : Visited v es) : Reaches v es := by
  induction h with
  | here => exact .here
  | entry hstep h _ ih =>
    rcases mem_mergeHere hstep h with he | ⟨s, hs, he⟩
    · exact .entry he ih
    · exact (reaches_of_mem_sources hs).trans (.entry he ih)
  | item h _ ih => exact .item h ih
  | tag _ ih => exact .tag ih

/-- A mapping that the walk meets in a value, with what it is in the result. -/
def ComesOut (v : Value) (es fs : List (Value × Value)) : Prop :=
  Visited v es ∧ (mapping es).merged = .ok (.mapping fs)

theorem Visited.exists_reaches (hvisit : Visited v es) (h : v.merged = .ok w) :
    ∃ fs, Reaches w fs ∧ ComesOut v es fs := by
  suffices hfs : ∃ fs, Reaches w fs ∧ (mapping es).merged = .ok (.mapping fs) by
    obtain ⟨fs, hreach, hmerged⟩ := hfs
    exact ⟨fs, hreach, hvisit, hmerged⟩
  -- What is merged on the way down is merged once, so each member goes on with its own result.
  induction hvisit generalizing w with
  | here =>
    obtain ⟨hs, fs, -, -, rfl⟩ := merged_mapping_eq_ok_iff.mp h
    exact ⟨fs, .here, h⟩
  | entry hstep he _ ih =>
    obtain ⟨hs, gs, hstep', hmerges, rfl⟩ := merged_mapping_eq_ok_iff.mp h
    rw [hstep] at hstep'
    cases hstep'
    obtain ⟨f, hf, -, hvalue⟩ := Pointwise.exists_of_mem_left hmerges he
    obtain ⟨fs, hreach, hfs⟩ := ih hvalue
    exact ⟨fs, .entry hf hreach, hfs⟩
  | item hitem _ ih =>
    obtain ⟨ws, hmerges, rfl⟩ := merged_sequence_eq_ok_iff.mp h
    obtain ⟨u, hu, hmerged⟩ := Pointwise.exists_of_mem_left hmerges hitem
    obtain ⟨fs, hreach, hfs⟩ := ih hmerged
    exact ⟨fs, .item hu hreach, hfs⟩
  | tag _ ih =>
    obtain ⟨u, hmerged, rfl⟩ := merged_tagged_eq_ok_iff.mp h
    obtain ⟨fs, hreach, hfs⟩ := ih hmerged
    exact ⟨fs, .tag hreach, hfs⟩

/-- The mappings of the result are those that the walk met, each merged. -/
theorem reaches_iff_of_merged (h : v.merged = .ok w) :
    Reaches w fs ↔ ∃ es, ComesOut v es fs := by
  constructor
  · intro hreach
    induction hreach generalizing v with
    | here =>
      obtain ⟨es, rfl⟩ := eq_mapping_of_merged h
      exact ⟨es, .here, h⟩
    | entry he _ ih =>
      obtain ⟨gs, rfl⟩ := eq_mapping_of_merged h
      obtain ⟨hs, _, hstep, hmerges, ⟨⟩⟩ := merged_mapping_eq_ok_iff.mp h
      obtain ⟨d, hd, -, hvalue⟩ := Pointwise.exists_of_mem_right hmerges he
      obtain ⟨ds, hvisit, hds⟩ := ih hvalue
      exact ⟨ds, .entry hstep hd hvisit, hds⟩
    | item hitem _ ih =>
      obtain ⟨items, rfl⟩ := eq_sequence_of_merged h
      obtain ⟨_, hmerges, ⟨⟩⟩ := merged_sequence_eq_ok_iff.mp h
      obtain ⟨u, hu, hmerged⟩ := Pointwise.exists_of_mem_right hmerges hitem
      obtain ⟨ds, hvisit, hds⟩ := ih hmerged
      exact ⟨ds, .item hu hvisit, hds⟩
    | tag _ ih =>
      obtain ⟨u, rfl⟩ := eq_tagged_of_merged h
      obtain ⟨_, hmerged, ⟨⟩⟩ := merged_tagged_eq_ok_iff.mp h
      obtain ⟨ds, hvisit, hds⟩ := ih hmerged
      exact ⟨ds, .tag hvisit, hds⟩
  · rintro ⟨es, hvisit, hes⟩
    obtain ⟨gs, hreach, -, hgs⟩ := hvisit.exists_reaches h
    rw [hes] at hgs
    cases hgs
    exact hreach

/-! ### Success -/

/-- The walk succeeds when every step on it does. -/
theorem exists_merged_iff :
    (∃ w, v.merged = .ok w) ↔ ∀ es, Visited v es → ∃ hs, mergeHere es = .ok hs := by
  constructor
  · rintro ⟨w, h⟩ es hvisit
    obtain ⟨fs, -, -, hmerged⟩ := hvisit.exists_reaches h
    obtain ⟨hs, -, hstep, -⟩ := merged_mapping_eq_ok_iff.mp hmerged
    exact ⟨hs, hstep⟩
  · intro h
    -- By size, since an entry that is taken over from a source is no part of the mapping itself.
    induction hn : v.size using Nat.strongRecOn generalizing v with
    | ind n ih =>
      cases v with
      | mapping es =>
        obtain ⟨hs, hstep⟩ := h es .here
        have hvalues : ∀ e ∈ hs, ∃ f, MergesTo e f := fun e he ↦ by
          have hle := sizeOfEntries_mergeHere_le hstep
          have hlt := size_lt_of_mem_entries he
          rw [size] at hn
          obtain ⟨w, hw⟩ := ih e.2.size (by omega)
            (fun fs hvisit ↦ h fs (.entry hstep he hvisit)) rfl
          exact ⟨(e.1, w), rfl, hw⟩
        obtain ⟨fs, hfs⟩ := Pointwise.exists_forall₂_iff.mpr hvalues
        exact ⟨_, merged_mapping_eq_ok_iff.mpr ⟨hs, fs, hstep, hfs, rfl⟩⟩
      | sequence items =>
        have hitems : ∀ u ∈ items, ∃ w, u.merged = .ok w := fun u hu ↦ by
          have hlt := size_lt_of_mem_items hu
          rw [size] at hn
          exact ih u.size (by omega) (fun fs hvisit ↦ h fs (.item hu hvisit)) rfl
        obtain ⟨ws, hws⟩ := Pointwise.exists_forall₂_iff.mpr hitems
        exact ⟨_, merged_sequence_eq_ok_iff.mpr ⟨ws, hws, rfl⟩⟩
      | tagged name u =>
        rw [size] at hn
        obtain ⟨w, hw⟩ := ih u.size (by omega) (fun fs hvisit ↦ h fs (.tag hvisit)) rfl
        exact ⟨_, merged_tagged_eq_ok_iff.mpr ⟨w, hw, rfl⟩⟩
      | _ => simp [merged]

end ShutdownLint.Yaml.Value

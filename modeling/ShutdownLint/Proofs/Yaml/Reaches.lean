import ShutdownLint.Proofs.Yaml.Shape
/-!
The mappings that a value contains, and the keys of one mapping.

The keys of a mapping are distinct in the sense in which keys are compared. Where they are, the
order of its entries does not matter to a lookup.
-/

set_option autoImplicit false

namespace ShutdownLint.Yaml.Value

/-- A mapping in a value: the value itself, or one in the values of a mapping, in the items of a
list or under a tag. -/
inductive Reaches : Value → List (Value × Value) → Prop
  | here {es : List (Value × Value)} : Reaches (.mapping es) es
  | entry {es fs : List (Value × Value)} {e : Value × Value} (h : e ∈ es)
      (hvalue : Reaches e.2 fs) : Reaches (.mapping es) fs
  | item {items : List Value} {v : Value} {fs : List (Value × Value)} (h : v ∈ items)
      (hitem : Reaches v fs) : Reaches (.sequence items) fs
  | tag {name : String} {v : Value} {fs : List (Value × Value)} (hcontent : Reaches v fs) :
      Reaches (.tagged name v) fs

theorem reaches_mapping_iff {es fs : List (Value × Value)} :
    Reaches (.mapping es) fs ↔ fs = es ∨ ∃ e ∈ es, Reaches e.2 fs := by
  constructor
  · rintro (_ | ⟨h, hvalue⟩)
    · exact Or.inl rfl
    · exact Or.inr ⟨_, h, hvalue⟩
  · rintro (rfl | ⟨e, h, hvalue⟩)
    · exact .here
    · exact .entry h hvalue

theorem reaches_sequence_iff {items : List Value} {fs : List (Value × Value)} :
    Reaches (.sequence items) fs ↔ ∃ v ∈ items, Reaches v fs := by
  constructor
  · intro hreach
    cases hreach with
    | item h hitem => exact ⟨_, h, hitem⟩
  · rintro ⟨v, h, hitem⟩
    exact .item h hitem

theorem reaches_tagged_iff {name : String} {v : Value} {fs : List (Value × Value)} :
    Reaches (.tagged name v) fs ↔ Reaches v fs := by
  refine ⟨fun hreach ↦ ?_, .tag⟩
  cases hreach with
  | tag hcontent => exact hcontent

theorem Reaches.trans {v : Value} {es fs : List (Value × Value)} (h : Reaches v es)
    (hes : Reaches (.mapping es) fs) : Reaches v fs := by
  induction h with
  | here => exact hes
  | entry h _ ih => exact .entry h (ih hes)
  | item h _ ih => exact .item h (ih hes)
  | tag _ ih => exact .tag (ih hes)

theorem reaches_untagged_iff {v : Value} {es : List (Value × Value)} :
    Reaches v.untagged es ↔ Reaches v es := by
  fun_induction untagged v with
  | case1 _ v ih => rw [ih, reaches_tagged_iff]
  | case2 v _ => rfl

theorem size_lt_of_mem_entries {es : List (Value × Value)} {e : Value × Value} (h : e ∈ es) :
    e.2.size < sizeOfEntries es := by
  induction es with
  | nil => cases h
  | cons d es ih =>
    rw [sizeOfEntries]
    rcases List.mem_cons.mp h with rfl | h
    · omega
    · have := ih h
      omega

theorem size_lt_of_mem_items {items : List Value} {v : Value} (h : v ∈ items) :
    v.size < sizeOfItems items := by
  induction items with
  | nil => cases h
  | cons u items ih =>
    rw [sizeOfItems]
    rcases List.mem_cons.mp h with rfl | h
    · omega
    · have := ih h
      omega

/-! ### Tests on all mappings -/

mutual

/-- Whether all mappings in a value pass a test. -/
def allMappings (test : List (Value × Value) → Bool) : Value → Bool
  | .mapping es => test es && allInEntries test es
  | .sequence items => allInItems test items
  | .tagged _ v => v.allMappings test
  | _ => true

def allInItems (test : List (Value × Value) → Bool) : List Value → Bool
  | [] => true
  | v :: vs => v.allMappings test && allInItems test vs

def allInEntries (test : List (Value × Value) → Bool) : List (Value × Value) → Bool
  | [] => true
  | (_, v) :: es => v.allMappings test && allInEntries test es

end

variable {test : List (Value × Value) → Bool}

theorem allInItems_iff {vs : List Value} :
    allInItems test vs ↔ ∀ v ∈ vs, v.allMappings test := by
  induction vs with
  | nil => simp [allInItems]
  | cons v vs ih => rw [allInItems, Bool.and_eq_true, ih, List.forall_mem_cons]

theorem allInEntries_iff {es : List (Value × Value)} :
    allInEntries test es ↔ ∀ e ∈ es, e.2.allMappings test := by
  induction es with
  | nil => simp [allInEntries]
  | cons e es ih => rw [allInEntries, Bool.and_eq_true, ih, List.forall_mem_cons]

theorem allMappings_iff {v : Value} : v.allMappings test ↔ ∀ es, Reaches v es → test es := by
  constructor
  · intro h es hreach
    induction hreach with
    | here =>
      rw [allMappings, Bool.and_eq_true] at h
      exact h.1
    | entry he _ ih =>
      rw [allMappings, Bool.and_eq_true, allInEntries_iff] at h
      exact ih (h.2 _ he)
    | item hv _ ih =>
      rw [allMappings, allInItems_iff] at h
      exact ih (h _ hv)
    | tag _ ih =>
      rw [allMappings] at h
      exact ih h
  · intro h
    induction hn : v.size using Nat.strongRecOn generalizing v with
    | ind n ih =>
      cases v with
      | mapping es =>
        rw [allMappings, Bool.and_eq_true, allInEntries_iff]
        refine ⟨h es .here, fun e he ↦ ?_⟩
        have hlt := size_lt_of_mem_entries he
        rw [size] at hn
        exact ih e.2.size (by omega) (fun fs hreach ↦ h fs (.entry he hreach)) rfl
      | sequence items =>
        rw [allMappings, allInItems_iff]
        intro u hu
        have hlt := size_lt_of_mem_items hu
        rw [size] at hn
        exact ih u.size (by omega) (fun fs hreach ↦ h fs (.item hu hreach)) rfl
      | tagged name u =>
        rw [allMappings]
        rw [size] at hn
        exact ih u.size (by omega) (fun fs hreach ↦ h fs (.tag hreach)) rfl
      | _ => rfl

/-! ### Distinct keys -/

/-- No entry repeats the key of one in front of it. -/
def DistinctKeys (es : List (Value × Value)) : Prop :=
  es.Pairwise fun earlier later ↦ later.1.same earlier.1 = false

theorem same_string_iff {s : String} {v : Value} : (Value.string s).same v ↔ v = .string s := by
  cases v with
  | string t => rw [same, beq_iff_eq, Value.string.injEq, eq_comm]
  | _ => simp [same]

theorem hasKey_string_iff {s : String} {es : List (Value × Value)} :
    hasKey (.string s) es ↔ ∃ e ∈ es, e.1 = .string s := by
  simp only [hasKey, List.any_eq_true, same_string_iff]

theorem lookup_eq_none_iff {key : String} {es : List (Value × Value)} :
    lookup key es = none ↔ ∀ e ∈ es, e.1 ≠ .string key := by
  simp only [lookup, Option.map_eq_none_iff, List.find?_eq_none, isString_iff, ne_eq]

theorem lookup_cons {key : String} {e : Value × Value} {es : List (Value × Value)} :
    lookup key (e :: es) = if e.1.isString key then some e.2 else lookup key es := by
  rw [lookup, List.find?_cons]
  cases e.1.isString key <;> rfl

theorem mem_of_lookup_eq_some {key : String} {es : List (Value × Value)} {v : Value}
    (h : lookup key es = some v) : (.string key, v) ∈ es := by
  obtain ⟨before, after, rfl, -⟩ := lookup_eq_some_iff.mp h
  exact List.mem_append_right before List.mem_cons_self

theorem lookup_append {key : String} {es fs : List (Value × Value)} :
    lookup key (es ++ fs) = (lookup key es).or (lookup key fs) := by
  rw [lookup, List.find?_append, Option.map_or]
  rfl

theorem DistinctKeys.eq_of_mem {es : List (Value × Value)} (h : DistinctKeys es) {key : String}
    {v w : Value} (hv : (.string key, v) ∈ es) (hw : (.string key, w) ∈ es) : v = w := by
  induction es with
  | nil => cases hv
  | cons e es ih =>
    have hne : ∀ u, e = (.string key, u) → ∀ x, (.string key, x) ∉ es := by
      rintro u rfl x hx
      have := (List.pairwise_cons.mp h).1 _ hx
      rw [same_string_iff.mpr rfl] at this
      cases this
    rcases List.mem_cons.mp hv with hv | hv <;> rcases List.mem_cons.mp hw with hw | hw
    · exact congrArg Prod.snd (hv.trans hw.symm)
    · exact absurd hw (hne v hv.symm w)
    · exact absurd hv (hne w hw.symm v)
    · exact ih (List.pairwise_cons.mp h).2 hv hw

theorem DistinctKeys.lookup_eq_some_iff {es : List (Value × Value)} (h : DistinctKeys es)
    {key : String} {v : Value} : lookup key es = some v ↔ (.string key, v) ∈ es := by
  refine ⟨mem_of_lookup_eq_some, fun hv ↦ ?_⟩
  cases hw : lookup key es with
  | none => exact absurd rfl (lookup_eq_none_iff.mp hw _ hv)
  | some w => rw [h.eq_of_mem (mem_of_lookup_eq_some hw) hv]

/-- Where keys are distinct a lookup does not depend on the order of entries. -/
theorem DistinctKeys.lookup_eq_of_perm {es fs : List (Value × Value)} (hkeys : DistinctKeys es)
    (h : es.Perm fs) {key : String} : lookup key fs = lookup key es := by
  ext v
  constructor
  · intro hv
    exact hkeys.lookup_eq_some_iff.mpr (h.mem_iff.mpr (mem_of_lookup_eq_some hv))
  · intro hv
    have hmem := mem_of_lookup_eq_some hv
    cases hw : lookup key fs with
    | none => exact absurd rfl (lookup_eq_none_iff.mp hw _ (h.mem_iff.mp hmem))
    | some w => rw [hkeys.eq_of_mem (h.mem_iff.mpr (mem_of_lookup_eq_some hw)) hmem]

/-- All mappings in a value have distinct keys. -/
def Keyed (v : Value) : Prop :=
  ∀ es, Reaches v es → DistinctKeys es

end ShutdownLint.Yaml.Value

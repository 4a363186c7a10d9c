import ShutdownLint.Proofs.Success
import ShutdownLint.Proofs.Yaml.Reaches
import ShutdownLint.Yaml.Merge
import Mathlib.Tactic.SplitIfs
/-!
What following the merge key of one mapping does to it.

`sources` are the mappings that the merge key offers. When it can be followed, the mapping keeps the
fields it has and takes each other field from the first source that has it. This includes the field
that is called `<<`: the mapping loses its own, and takes over the one of a source.
-/

set_option autoImplicit false

namespace ShutdownLint.Yaml.Value

variable {key : String} {es fs gs hs : List (Value × Value)} {source : Value}

/-! ### Sources -/

/-- A mapping without a tag. -/
def bareMapping? : Value → Option (List (Value × Value))
  | .mapping es => some es
  | _ => none

/-- The mappings that the value of a merge key offers, in order of precedence. -/
def offered : Value → List (List (Value × Value))
  | .mapping es => [es]
  | .sequence items => items.filterMap bareMapping?
  | _ => []

/-- The mappings that the merge key of a mapping offers. -/
def sources (es : List (Value × Value)) : List (List (Value × Value)) :=
  ((lookup mergeKey es).map offered).getD []

/-- The value of a merge key that can be followed: a mapping or a list of mappings, without tags. -/
inductive Mergeable : Value → Prop
  | mapping (es : List (Value × Value)) : Mergeable (.mapping es)
  | sequence (ess : List (List (Value × Value))) : Mergeable (.sequence (ess.map .mapping))

theorem mergeElement_eq_ok_iff {v : Value} : mergeElement v = .ok es ↔ v = .mapping es := by
  cases v <;> simp [mergeElement]

theorem mapM_mergeElement_eq_ok_iff {items : List Value} {ess : List (List (Value × Value))} :
    items.mapM mergeElement = .ok ess ↔ items = ess.map .mapping := by
  induction items generalizing ess with
  | nil => cases ess <;> simp
  | cons v vs ih => cases ess <;> simp [mergeElement_eq_ok_iff, ih]

theorem filterMap_bareMapping? (ess : List (List (Value × Value))) :
    (ess.map Value.mapping).filterMap bareMapping? = ess := by
  rw [List.filterMap_map]
  exact List.filterMap_some

theorem mergeSource_eq_ok_iff :
    mergeSource source = .ok gs ↔ Mergeable source ∧ gs = (offered source).flatten := by
  constructor
  · intro h
    cases source with
    | mapping es =>
      cases h
      exact ⟨.mapping gs, by simp [offered]⟩
    | sequence items =>
      obtain ⟨ess, hitems, rfl⟩ := Success.map_eq_ok.mp h
      obtain rfl := mapM_mergeElement_eq_ok_iff.mp hitems
      exact ⟨.sequence ess, by rw [offered, filterMap_bareMapping?]⟩
    | _ => cases h
  · rintro ⟨hsource, rfl⟩
    cases hsource with
    | mapping es => simp [mergeSource, offered]
    | sequence ess =>
      rw [mergeSource, mapM_mergeElement_eq_ok_iff.mpr rfl, offered, filterMap_bareMapping?]
      rfl

/-! ### Taking the merge key out -/

theorem lastToFront_perm (es : List (Value × Value)) : (lastToFront es).Perm es := by
  unfold lastToFront
  split
  · rename_i last h
    obtain ⟨front, rfl⟩ := List.getLast?_eq_some_iff.mp h
    rw [List.dropLast_concat]
    exact (List.perm_append_singleton last front).symm
  · rename_i h
    rw [List.getLast?_eq_none_iff.mp h]

theorem takeMergeKey_eq_none_iff : takeMergeKey es = none ↔ lookup mergeKey es = none := by
  induction es with
  | nil => simp [takeMergeKey, lookup]
  | cons e es ih =>
    rw [takeMergeKey, lookup_cons]
    split_ifs <;> simp [ih]

theorem lookup_of_takeMergeKey (h : takeMergeKey es = some (source, fs)) :
    lookup mergeKey es = some source := by
  induction es generalizing fs with
  | nil => cases h
  | cons e es ih =>
    rw [lookup_cons]
    unfold takeMergeKey at h
    split_ifs at h ⊢ with hk
    · cases h
      rfl
    · obtain ⟨⟨w, gs⟩, hw, hg⟩ := Option.map_eq_some_iff.mp h
      cases hg
      exact ih hw

theorem mem_of_mem_takeMergeKey (h : takeMergeKey es = some (source, fs)) {e : Value × Value}
    (he : e ∈ fs) : e ∈ es := by
  induction es generalizing fs with
  | nil => cases h
  | cons d es ih =>
    unfold takeMergeKey at h
    split_ifs at h with hk
    · cases h
      exact List.mem_cons_of_mem d ((lastToFront_perm es).mem_iff.mp he)
    · obtain ⟨⟨w, gs⟩, hw, hg⟩ := Option.map_eq_some_iff.mp h
      cases hg
      rcases List.mem_cons.mp he with rfl | he
      · exact List.mem_cons_self
      · exact List.mem_cons_of_mem d (ih hw he)

/-- Nothing but the merge key gets lost, and no second one stays behind. -/
theorem lookup_takeMergeKey (hkeys : DistinctKeys es)
    (h : takeMergeKey es = some (source, fs)) :
    lookup key fs = if key = mergeKey then none else lookup key es := by
  induction es generalizing fs with
  | nil => cases h
  | cons e es ih =>
    obtain ⟨hfirst, hrest⟩ := List.pairwise_cons.mp hkeys
    unfold takeMergeKey at h
    split_ifs at h with hk
    -- The first entry is the merge key: no other has its key, and only the last one moves.
    · cases h
      rw [DistinctKeys.lookup_eq_of_perm hrest (lastToFront_perm es).symm, lookup_cons,
        isString_iff.mp hk]
      split_ifs with hkey hstring
      · subst hkey
        refine lookup_eq_none_iff.mpr fun f hf heq ↦ ?_
        have hsame := hfirst f hf
        rw [isString_iff.mp hk, heq, same_string_iff.mpr rfl] at hsame
        cases hsame
      · exact absurd (Value.string.inj (isString_iff.mp hstring)).symm hkey
      · rfl
    · obtain ⟨⟨w, gs⟩, hw, hg⟩ := Option.map_eq_some_iff.mp h
      cases hg
      rw [lookup_cons, lookup_cons, ih hrest hw]
      split_ifs with hstring hkey hkey
      · exact absurd (hkey ▸ hstring) hk
      · rfl
      · rfl
      · rfl

/-! ### Adding what is missing -/

theorem lookup_addMissing : lookup key (addMissing es gs) = (lookup key es).or (lookup key gs) := by
  induction gs generalizing es with
  | nil => simp [addMissing, lookup]
  | cons g gs ih =>
    obtain ⟨k, v⟩ := g
    rw [addMissing, lookup_cons]
    by_cases hk : k = .string key
    · subst hk
      rw [if_pos (isString_iff.mpr rfl)]
      by_cases hhas : hasKey (.string key) es
      · obtain ⟨e, he, hkey⟩ := hasKey_string_iff.mp hhas
        have hsome : lookup key es ≠ none := fun h ↦ lookup_eq_none_iff.mp h e he hkey
        obtain ⟨w, hw⟩ := Option.ne_none_iff_exists'.mp hsome
        rw [if_pos hhas, ih, hw]
        rfl
      · have hnone : lookup key es = none :=
          lookup_eq_none_iff.mpr fun e he hkey ↦ hhas (hasKey_string_iff.mpr ⟨e, he, hkey⟩)
        rw [if_neg hhas, ih, lookup_append, hnone, lookup_cons, if_pos (isString_iff.mpr rfl)]
        rfl
    · have hstring : ¬k.isString key := fun h ↦ hk (isString_iff.mp h)
      rw [if_neg hstring]
      split_ifs
      · exact ih
      · rw [ih, lookup_append, lookup_cons, if_neg hstring]
        simp [lookup]

theorem mem_addMissing {e : Value × Value} (h : e ∈ addMissing es gs) : e ∈ es ∨ e ∈ gs := by
  induction gs generalizing es with
  | nil => exact Or.inl h
  | cons g gs ih =>
    obtain ⟨k, v⟩ := g
    rw [addMissing] at h
    split_ifs at h
    · exact (ih h).imp_right (List.mem_cons_of_mem _)
    · rcases ih h with hes | hgs
      · rcases List.mem_append.mp hes with hes | hlast
        · exact Or.inl hes
        · exact Or.inr (List.mem_cons.mpr (Or.inl (List.mem_singleton.mp hlast)))
      · exact Or.inr (List.mem_cons_of_mem _ hgs)

theorem lookup_flatten {ess : List (List (Value × Value))} :
    lookup key ess.flatten = ess.findSome? (lookup key) := by
  induction ess with
  | nil => rfl
  | cons es ess ih =>
    rw [List.flatten_cons, lookup_append, ih, List.findSome?_cons]
    cases lookup key es <;> rfl

/-! ### The whole step -/

theorem mergeHere_eq_ok_iff : mergeHere es = .ok hs ↔
    lookup mergeKey es = none ∧ es = hs ∨ ∃ source fs, takeMergeKey es = some (source, fs) ∧
      Mergeable source ∧ hs = addMissing fs (sources es).flatten := by
  unfold mergeHere
  cases htake : takeMergeKey es with
  | none => simp [takeMergeKey_eq_none_iff.mp htake]
  | some taken =>
    obtain ⟨source, fs⟩ := taken
    have hlookup := lookup_of_takeMergeKey htake
    simp only [Success.map_eq_ok, mergeSource_eq_ok_iff, sources, hlookup, Option.map_some,
      Option.getD_some, reduceCtorEq, false_and, false_or, Option.some.injEq, Prod.mk.injEq]
    constructor
    · rintro ⟨gs, ⟨hsource, rfl⟩, rfl⟩
      exact ⟨source, fs, ⟨rfl, rfl⟩, hsource, rfl⟩
    · rintro ⟨_, _, ⟨rfl, rfl⟩, hsource, rfl⟩
      exact ⟨_, ⟨hsource, rfl⟩, rfl⟩

/-- A merge key can be followed when it is not there or offers mappings. -/
theorem exists_mergeHere_eq_ok_iff :
    (∃ hs, mergeHere es = .ok hs) ↔ ∀ v, lookup mergeKey es = some v → Mergeable v := by
  simp only [mergeHere_eq_ok_iff]
  constructor
  · rintro ⟨hs, ⟨hnone, -⟩ | ⟨source, fs, htake, hsource, -⟩⟩ v hv
    · rw [hnone] at hv
      cases hv
    · rw [lookup_of_takeMergeKey htake] at hv
      cases hv
      exact hsource
  · intro h
    cases htake : takeMergeKey es with
    | none => exact ⟨es, Or.inl ⟨takeMergeKey_eq_none_iff.mp htake, rfl⟩⟩
    | some taken => exact ⟨_, Or.inr ⟨_, _, rfl, h _ (lookup_of_takeMergeKey htake), rfl⟩⟩

/-- The fields of a mapping after the step. -/
theorem lookup_mergeHere (hkeys : DistinctKeys es) (h : mergeHere es = .ok hs) :
    lookup key hs = (if key = mergeKey then none else lookup key es).or
      ((sources es).findSome? (lookup key)) := by
  rcases mergeHere_eq_ok_iff.mp h with ⟨hnone, rfl⟩ | ⟨source, fs, htake, -, rfl⟩
  · have hsources : sources es = [] := by rw [sources, hnone]; rfl
    rw [hsources, List.findSome?_nil, Option.or_none]
    split_ifs with hkey
    · rw [hkey, hnone]
    · rfl
  · rw [lookup_addMissing, lookup_takeMergeKey hkeys htake, lookup_flatten]

theorem mem_mergeHere (h : mergeHere es = .ok hs) {e : Value × Value} (he : e ∈ hs) :
    e ∈ es ∨ ∃ s ∈ sources es, e ∈ s := by
  rcases mergeHere_eq_ok_iff.mp h with ⟨-, rfl⟩ | ⟨source, fs, htake, -, rfl⟩
  · exact Or.inl he
  · rcases mem_addMissing he with he | he
    · exact Or.inl (mem_of_mem_takeMergeKey htake he)
    · exact Or.inr (List.mem_flatten.mp he)

end ShutdownLint.Yaml.Value

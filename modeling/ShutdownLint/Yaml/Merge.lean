import ShutdownLint.Yaml.Value
/-!
Merge keys.

The key `<<` of a mapping names one mapping or a list of them, whose entries are added to the
mapping where it does not have the key. Mappings are visited from the root down and, in each
collection, from the last member to the first, so a source is taken over as it was written and its
own merge key does not count any more: one that arrives this way remains an ordinary key.
-/

set_option autoImplicit false

namespace ShutdownLint.Yaml

/-- Why a merge key cannot be followed. -/
inductive MergeFault where
  | scalarSource
  | taggedSource
  | scalarElement
  | sequenceElement
  deriving DecidableEq, Inhabited, Repr

namespace MergeFault

def message : MergeFault → String
  | scalarSource => "expected a mapping or list of mappings for merging, but found scalar"
  | taggedSource => "unexpected tagged value in merge"
  | scalarElement => "expected a mapping for merging, but found scalar"
  | sequenceElement => "expected a mapping for merging, but found sequence"

end MergeFault

namespace Value

def mergeKey : String := "<<"

/-- Fills the gap in front of some entries with the last of them. -/
def lastToFront (entries : List (Value × Value)) : List (Value × Value) :=
  match entries.getLast? with
  | some e => e :: entries.dropLast
  | none => []

/-- Takes the merge key out of a mapping: its value, and the other entries, the last of which moves
to where the merge key was. -/
def takeMergeKey : List (Value × Value) → Option (Value × List (Value × Value))
  | [] => none
  | (k, v) :: es =>
    if k.isString mergeKey then some (v, lastToFront es)
    else (takeMergeKey es).map fun (w, fs) ↦ (w, (k, v) :: fs)

/-- A mapping in a list of sources. -/
def mergeElement : Value → Except MergeFault (List (Value × Value))
  | .mapping entries => .ok entries
  | .sequence _ => .error .sequenceElement
  | .tagged _ _ => .error .taggedSource
  | _ => .error .scalarElement

/-- The entries that the value of a merge key offers, in order of precedence. -/
def mergeSource : Value → Except MergeFault (List (Value × Value))
  | .mapping entries => .ok entries
  | .sequence items => (items.mapM mergeElement).map List.flatten
  | .tagged _ _ => .error .taggedSource
  | _ => .error .scalarSource

/-- Adds the entries whose keys are missing. -/
def addMissing (entries : List (Value × Value)) : List (Value × Value) → List (Value × Value)
  | [] => entries
  | (k, v) :: es => if hasKey k entries then addMissing entries es
    else addMissing (entries ++ [(k, v)]) es

/-- Follows the merge key of one mapping. -/
def mergeHere (entries : List (Value × Value)) : Except MergeFault (List (Value × Value)) :=
  match takeMergeKey entries with
  | none => .ok entries
  | some (source, others) => (mergeSource source).map (addMissing others)

/-! ### No value gets larger -/

theorem sizeOfEntries_append (es fs : List (Value × Value)) :
    sizeOfEntries (es ++ fs) = sizeOfEntries es + sizeOfEntries fs := by
  induction es with
  | nil => simp [sizeOfEntries]
  | cons e es ih => simp only [List.cons_append, sizeOfEntries, ih]; omega

theorem sizeOfEntries_lastToFront (es : List (Value × Value)) :
    sizeOfEntries (lastToFront es) = sizeOfEntries es := by
  unfold lastToFront
  split
  · rename_i e h
    obtain ⟨fs, rfl⟩ := List.getLast?_eq_some_iff.mp h
    simp only [List.dropLast_concat, sizeOfEntries, sizeOfEntries_append]
    omega
  · rename_i h
    rw [List.getLast?_eq_none_iff.mp h]

theorem sizeOfEntries_takeMergeKey {es fs : List (Value × Value)} {v : Value}
    (h : takeMergeKey es = some (v, fs)) :
    v.size + sizeOfEntries fs + 1 = sizeOfEntries es := by
  induction es generalizing fs with
  | nil => simp [takeMergeKey] at h
  | cons e es ih =>
    unfold takeMergeKey at h
    split at h
    · simp only [Option.some.injEq, Prod.mk.injEq] at h
      obtain ⟨rfl, rfl⟩ := h
      rw [sizeOfEntries_lastToFront, sizeOfEntries]
    · obtain ⟨⟨w, gs⟩, hw, hg⟩ := Option.map_eq_some_iff.mp h
      simp only [Prod.mk.injEq] at hg
      obtain ⟨rfl, rfl⟩ := hg
      have := ih hw
      simp only [sizeOfEntries]
      omega

theorem sizeOfEntries_flatten_le {items : List Value} {es : List (List (Value × Value))}
    (h : items.mapM mergeElement = .ok es) : sizeOfEntries es.flatten ≤ sizeOfItems items := by
  induction items generalizing es with
  | nil =>
    simp only [List.mapM_nil, pure, Except.pure, Except.ok.injEq] at h
    subst h
    simp [sizeOfEntries, sizeOfItems]
  | cons v vs ih =>
    simp only [List.mapM_cons, bind, Except.bind, pure, Except.pure] at h
    split at h
    · simp at h
    · rename_i first hv
      split at h
      · simp at h
      · rename_i others hvs
        simp only [Except.ok.injEq] at h
        subst h
        have := ih hvs
        cases v <;> simp [mergeElement] at hv
        subst hv
        simp only [List.flatten_cons, sizeOfEntries_append, sizeOfItems, size]
        omega

theorem sizeOfEntries_mergeSource_le {v : Value} {es : List (Value × Value)}
    (h : mergeSource v = .ok es) : sizeOfEntries es ≤ v.size := by
  cases v with
  | mapping entries =>
    simp only [mergeSource, Except.ok.injEq] at h
    subst h
    simp [size]
  | sequence items =>
    unfold mergeSource at h
    match hm : items.mapM mergeElement with
    | .error e => simp [hm, Except.map] at h
    | .ok fs =>
      simp only [hm, Except.map, Except.ok.injEq] at h
      subst h
      have := sizeOfEntries_flatten_le hm
      simp only [size]
      omega
  | _ => simp [mergeSource] at h

theorem sizeOfEntries_addMissing_le (es fs : List (Value × Value)) :
    sizeOfEntries (addMissing es fs) ≤ sizeOfEntries es + sizeOfEntries fs := by
  induction fs generalizing es with
  | nil => simp [addMissing, sizeOfEntries]
  | cons f fs ih =>
    obtain ⟨k, v⟩ := f
    unfold addMissing
    split
    · have := ih es
      simp only [sizeOfEntries]
      omega
    · have := ih (es ++ [(k, v)])
      simp only [sizeOfEntries_append, sizeOfEntries] at this ⊢
      omega

theorem sizeOfEntries_mergeHere_le {es fs : List (Value × Value)} (h : mergeHere es = .ok fs) :
    sizeOfEntries fs ≤ sizeOfEntries es := by
  unfold mergeHere at h
  split at h
  · simp only [Except.ok.injEq] at h
    subst h
    exact Nat.le_refl _
  · rename_i source others ht
    have h₁ := sizeOfEntries_takeMergeKey ht
    match hs : mergeSource source with
    | .error e => simp [hs, Except.map] at h
    | .ok gs =>
      simp only [hs, Except.map, Except.ok.injEq] at h
      subst h
      have h₂ := sizeOfEntries_mergeSource_le hs
      have h₃ := sizeOfEntries_addMissing_le others gs
      omega

/-! ### The whole value -/

mutual

/-- Follows all merge keys in a value. -/
def merged : Value → Except MergeFault Value
  | .mapping entries =>
    match _h : mergeHere entries with
    | .error e => .error e
    | .ok entries =>
      match mergedEntries entries with
      | .ok entries => .ok (.mapping entries)
      | .error e => .error e
  | .sequence items =>
    match mergedItems items with
    | .ok items => .ok (.sequence items)
    | .error e => .error e
  | .tagged name v =>
    match v.merged with
    | .ok v => .ok (.tagged name v)
    | .error e => .error e
  | v => .ok v
termination_by v => v.size
decreasing_by
  all_goals simp only [size]
  · have := sizeOfEntries_mergeHere_le _h
    omega
  · omega
  · omega

def mergedItems : List Value → Except MergeFault (List Value)
  | [] => .ok []
  | v :: vs =>
    match mergedItems vs with
    | .error e => .error e
    | .ok vs =>
      match v.merged with
      | .ok v => .ok (v :: vs)
      | .error e => .error e
termination_by vs => sizeOfItems vs
decreasing_by all_goals simp only [sizeOfItems]; omega

def mergedEntries : List (Value × Value) → Except MergeFault (List (Value × Value))
  | [] => .ok []
  | (k, v) :: es =>
    match mergedEntries es with
    | .error e => .error e
    | .ok es =>
      match v.merged with
      | .ok v => .ok ((k, v) :: es)
      | .error e => .error e
termination_by es => sizeOfEntries es
decreasing_by all_goals simp only [sizeOfEntries]; omega

end

end Value

end ShutdownLint.Yaml

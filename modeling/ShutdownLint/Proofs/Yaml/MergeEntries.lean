import ShutdownLint.Proofs.Yaml.MergeWalk
/-!
The entries that a mapping has when its merge key has been followed.

They are its own entries apart from the merge key, and of each other key the first entry that is
offered. That the first one is enough to look at is due to the equality of keys being transitive: an
entry that is left out has the key of one that is there, and so has every later one with this key.
-/

set_option autoImplicit false

namespace ShutdownLint

/-! ### Equality of keys -/

namespace Decimal.Binary64

/-- Zero of either sign. -/
def IsZero (x : Binary64) : Prop :=
  ∃ negative exponent, x = finite negative 0 exponent

theorem same_iff {x y : Binary64} : x.same y ↔ x = y ∨ x.IsZero ∧ y.IsZero := by
  unfold same
  split
  · exact iff_of_true rfl (Or.inr ⟨⟨_, _, rfl⟩, _, _, rfl⟩)
  · next hzeros =>
    rw [beq_iff_eq]
    refine ⟨Or.inl, fun h ↦ h.resolve_right ?_⟩
    rintro ⟨⟨s, m, hx⟩, t, n, hy⟩
    exact hzeros s m t n hx hy

theorem same_trans {x y z : Binary64} (hxy : x.same y) (hyz : y.same z) : x.same z := by
  rw [same_iff] at *
  rcases hxy with rfl | ⟨hx, hy⟩
  · exact hyz
  · rcases hyz with rfl | ⟨-, hz⟩
    · exact Or.inr ⟨hx, hy⟩
    · exact Or.inr ⟨hx, hz⟩

end Decimal.Binary64

namespace Yaml

theorem Number.same_trans {l m n : Number} (hlm : l.same m) (hmn : m.same n) : l.same n := by
  cases l <;> cases m <;> cases n <;> simp only [same, beq_iff_eq, Bool.false_eq_true] at *
  · exact hlm.trans hmn
  · exact Decimal.Binary64.same_trans hlm hmn

namespace Value

theorem entriesIn_iff {es fs : List (Value × Value)} :
    entriesIn es fs ↔ ∀ e ∈ es, ∃ f ∈ fs, e.1.same f.1 ∧ e.2.same f.2 := by
  induction es with
  | nil => simp [entriesIn]
  | cons e es ih =>
    rw [entriesIn, Bool.and_eq_true, ih, List.forall_mem_cons]
    simp only [List.any_eq_true, Bool.and_eq_true]

mutual

theorem same_trans : (u v w : Value) → u.same v → v.same w → u.same w
  | .sequence us, v, w, huv, hvw => by
    cases v <;> cases w <;> simp only [same, Bool.false_eq_true] at huv hvw ⊢
    exact sameItems_trans us _ _ huv hvw
  | .mapping es, v, w, huv, hvw => by
    cases v <;> cases w <;> simp only [same, Bool.false_eq_true, Bool.and_eq_true, beq_iff_eq]
      at huv hvw ⊢
    exact ⟨huv.1.trans hvw.1, entriesIn_trans es _ _ huv.2 hvw.2⟩
  | .tagged s u, v, w, huv, hvw => by
    cases v <;> cases w <;> simp only [same, Bool.false_eq_true, Bool.and_eq_true, beq_iff_eq]
      at huv hvw ⊢
    exact ⟨huv.1.trans hvw.1, same_trans u _ _ huv.2 hvw.2⟩
  | .number n, v, w, huv, hvw => by
    cases v <;> cases w <;> simp only [same, Bool.false_eq_true] at huv hvw ⊢
    exact Number.same_trans huv hvw
  | .null, v, w, huv, hvw | .bool _, v, w, huv, hvw | .string _, v, w, huv, hvw => by
    cases v <;> cases w <;> simp_all [same]

theorem sameItems_trans :
    (us vs ws : List Value) → sameItems us vs → sameItems vs ws → sameItems us ws
  | [], vs, ws, huv, hvw => by
    cases vs <;> cases ws <;> simp_all [sameItems]
  | u :: us, vs, ws, huv, hvw => by
    cases vs <;> cases ws <;> simp only [sameItems, Bool.false_eq_true, Bool.and_eq_true]
      at huv hvw ⊢
    exact ⟨same_trans u _ _ huv.1 hvw.1, sameItems_trans us _ _ huv.2 hvw.2⟩

theorem entriesIn_trans :
    (es fs gs : List (Value × Value)) → entriesIn es fs → entriesIn fs gs → entriesIn es gs
  | [], _, _, _, _ => by rw [entriesIn]
  | (k, v) :: es, fs, gs, hef, hfg => by
    rw [entriesIn, Bool.and_eq_true] at hef ⊢
    refine ⟨?_, entriesIn_trans es fs gs hef.2 hfg⟩
    simp only [List.any_eq_true, Bool.and_eq_true] at hef ⊢
    obtain ⟨⟨f, hf, hkey, hvalue⟩, -⟩ := hef
    obtain ⟨g, hg, hkey', hvalue'⟩ := entriesIn_iff.mp hfg f hf
    exact ⟨g, hg, same_trans k _ _ hkey hkey', same_trans v _ _ hvalue hvalue'⟩

end

/-! ### The entries after the step -/

variable {es fs gs hs : List (Value × Value)} {e : Value × Value} {k : Value} {source : Value}

theorem hasKey_of_same {l : Value} (hsame : k.same l) (h : hasKey l es) : hasKey k es := by
  obtain ⟨e, he, hkey⟩ := List.any_eq_true.mp h
  exact List.any_eq_true.mpr ⟨e, he, same_trans k l e.1 hsame hkey⟩

theorem hasKey_nil : hasKey k [] = false :=
  rfl

theorem hasKey_append : hasKey k (es ++ fs) = (hasKey k es || hasKey k fs) :=
  List.any_append

theorem hasKey_cons : hasKey k (e :: es) = (k.same e.1 || hasKey k es) :=
  rfl

/-- The first entry in a list with its key, if another list does not have this key. -/
def FirstMissing (es gs : List (Value × Value)) (e : Value × Value) : Prop :=
  ∃ before after, gs = before ++ e :: after ∧ hasKey e.1 es = false ∧ hasKey e.1 before = false

theorem firstMissing_cons_of_hasKey {g : Value × Value} (h : hasKey g.1 es) :
    FirstMissing es (g :: gs) e ↔ FirstMissing es gs e := by
  constructor
  · rintro ⟨_ | ⟨d, before⟩, after, hsplit, hes, hbefore⟩
    · cases hsplit
      rw [h] at hes
      cases hes
    · cases hsplit
      rw [hasKey_cons, Bool.or_eq_false_iff] at hbefore
      exact ⟨before, after, rfl, hes, hbefore.2⟩
  · rintro ⟨before, after, rfl, hes, hbefore⟩
    have hdiffer : e.1.same g.1 = false := by
      by_contra hsame
      rw [hasKey_of_same (Bool.not_eq_false _ ▸ hsame) h] at hes
      cases hes
    exact ⟨g :: before, after, rfl, hes, by rw [hasKey_cons, hdiffer, hbefore, Bool.or_self]⟩

theorem firstMissing_cons_of_not_hasKey {g : Value × Value} (h : hasKey g.1 es = false) :
    FirstMissing es (g :: gs) e ↔ e = g ∨ FirstMissing (es ++ [g]) gs e := by
  have hadded : hasKey e.1 (es ++ [g]) = (hasKey e.1 es || e.1.same g.1) := by
    rw [hasKey_append, hasKey_cons, hasKey_nil, Bool.or_false]
  constructor
  · rintro ⟨_ | ⟨d, before⟩, after, hsplit, hes, hbefore⟩
    · cases hsplit
      exact Or.inl rfl
    · cases hsplit
      rw [hasKey_cons, Bool.or_eq_false_iff] at hbefore
      exact Or.inr ⟨before, after, rfl, by rw [hadded, hes, hbefore.1, Bool.or_self], hbefore.2⟩
  · rintro (rfl | ⟨before, after, rfl, hes, hbefore⟩)
    · exact ⟨[], gs, rfl, h, rfl⟩
    · rw [hadded, Bool.or_eq_false_iff] at hes
      exact ⟨g :: before, after, rfl, hes.1, by rw [hasKey_cons, hes.2, hbefore, Bool.or_self]⟩

theorem mem_addMissing_iff : e ∈ addMissing es gs ↔ e ∈ es ∨ FirstMissing es gs e := by
  induction gs generalizing es with
  | nil => simp [addMissing, FirstMissing]
  | cons g gs ih =>
    obtain ⟨k, v⟩ := g
    rw [addMissing]
    split_ifs with hkey
    · rw [ih, firstMissing_cons_of_hasKey hkey]
    · rw [ih, firstMissing_cons_of_not_hasKey (Bool.eq_false_iff.mpr hkey), List.mem_append,
        List.mem_singleton, or_assoc]

/-- The entries of a mapping apart from its merge key. -/
def ownEntries (es : List (Value × Value)) : List (Value × Value) :=
  es.eraseP (·.1.isString mergeKey)

theorem ownEntries_eq_self (h : lookup mergeKey es = none) : ownEntries es = es :=
  List.eraseP_of_forall_not fun e he hkey ↦
    lookup_eq_none_iff.mp h e he (isString_iff.mp hkey)

theorem perm_ownEntries_of_takeMergeKey (h : takeMergeKey es = some (source, fs)) :
    fs.Perm (ownEntries es) := by
  induction es generalizing fs with
  | nil => cases h
  | cons e es ih =>
    unfold takeMergeKey at h
    unfold ownEntries
    rw [List.eraseP_cons]
    split_ifs at h with hkey
    · cases h
      rw [hkey]
      exact lastToFront_perm es
    · obtain ⟨⟨w, gs⟩, hw, hg⟩ := Option.map_eq_some_iff.mp h
      cases hg
      rw [Bool.eq_false_iff.mpr hkey]
      exact (ih hw).cons e

/-- An entry that a mapping has when its merge key has been followed. -/
inductive Holds (es : List (Value × Value)) (e : Value × Value) : Prop
  | own (h : e ∈ ownEntries es)
  | added (h : FirstMissing (ownEntries es) (sources es).flatten e)

theorem holds_iff : Holds es e ↔
    e ∈ ownEntries es ∨ FirstMissing (ownEntries es) (sources es).flatten e := by
  constructor
  · rintro (h | h)
    · exact Or.inl h
    · exact Or.inr h
  · rintro (h | h)
    · exact .own h
    · exact .added h

theorem mem_mergeHere_iff (h : mergeHere es = .ok hs) : e ∈ hs ↔ Holds es e := by
  rw [holds_iff]
  rcases mergeHere_eq_ok_iff.mp h with ⟨hnone, rfl⟩ | ⟨source, fs, htake, -, rfl⟩
  · have hsources : sources es = [] := by rw [sources, hnone]; rfl
    rw [ownEntries_eq_self hnone, hsources]
    simp [FirstMissing]
  · have hperm := perm_ownEntries_of_takeMergeKey htake
    rw [mem_addMissing_iff, hperm.mem_iff]
    simp only [FirstMissing, hasKey, hperm.any_eq]

end Value

end Yaml

end ShutdownLint

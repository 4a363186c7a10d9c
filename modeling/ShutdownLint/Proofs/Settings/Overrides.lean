import ShutdownLint.Proofs.Check.Stages
import ShutdownLint.Proofs.Rule.Spelling
/-!
What overrides do.

An override disables the rule that it spells, and nothing that comes later enables it again. So the
rules that overrides add to the disabled ones are those that some override spells, in whatever order
they come and however often.
-/

set_option autoImplicit false

namespace ShutdownLint.Selection

open Success

variable {s s' : Selection} {settings : Settings} {overrides : List String} {id spelling : String}
  {r : Rule}

/-! ### The identifiers of rules -/

/-- Nothing is disabled but rules. -/
def HasRules (s : Selection) : Prop :=
  ∀ id ∈ s.disabledIds, ∃ r : Rule, r.id = id

/-- What is found in the list of identifiers is that of the rule which is spelled. -/
theorem spells_iff_of_idOf (h : idOf spelling = .ok id) : r.Spells spelling ↔ r.id = id := by
  rw [← Rule.ofSpelling?_eq_some_iff, ← idOf_eq_ok_id_iff, h, Except.ok.injEq, eq_comm]

theorem mem_disable : id ∈ (s.disable spelling).disabledIds ↔ id = spelling ∨ id ∈ s.disabledIds :=
  mem_insertId

theorem mem_enable : id ∈ (s.enable spelling).disabledIds ↔ id ∈ s.disabledIds ∧ id ≠ spelling := by
  simp [enable]

theorem HasRules.disable (h : s.HasRules) (r : Rule) : (s.disable r.id).HasRules := by
  intro id hid
  rcases mem_disable.mp hid with rfl | hid
  · exact ⟨r, rfl⟩
  · exact h id hid

theorem HasRules.apply {entry : String × RuleSetting} (h : s.HasRules)
    (hs' : s.apply entry = .ok s') : s'.HasRules := by
  obtain ⟨id, hid, rfl⟩ := map_eq_ok.mp hs'
  obtain ⟨r, -, rfl⟩ := idOf_eq_ok_iff.mp hid
  split
  · exact h.disable r
  · exact fun id hid ↦ h id (mem_enable.mp hid).1

theorem HasRules.override (h : s.HasRules) (hs' : s.override spelling = .ok s') : s'.HasRules := by
  obtain ⟨id, hid, rfl⟩ := map_eq_ok.mp hs'
  obtain ⟨r, -, rfl⟩ := idOf_eq_ok_iff.mp hid
  exact h.disable r

/-- Whatever settings and overrides say, they disable nothing but rules. -/
theorem hasRules_ofSettings (h : ofSettings settings overrides = .ok s) : s.HasRules := by
  obtain ⟨base, hbase, hs⟩ := ofSettings_eq_ok_iff.mp h
  have hbegin : everything.HasRules := fun _ hid ↦ nomatch hid
  exact foldlM_keeps (fun _ _ _ hstep hrules ↦ hrules.override hstep) hs
    (foldlM_keeps (fun _ _ _ hstep hrules ↦ hrules.apply hstep) hbase hbegin)

/-! ### Overrides -/

theorem mem_disabledIds_of_override (h : s.override spelling = .ok s') :
    r.id ∈ s'.disabledIds ↔ r.id ∈ s.disabledIds ∨ r.Spells spelling := by
  obtain ⟨id, hid, rfl⟩ := map_eq_ok.mp h
  rw [mem_disable, spells_iff_of_idOf hid, or_comm]

/-- Overrides disable the rules that they spell, each of them whatever the others are. By induction
on the overrides, from any selection. -/
theorem mem_disabledIds_of_overrides (h : overrides.foldlM override s = .ok s') :
    r.id ∈ s'.disabledIds ↔ r.id ∈ s.disabledIds ∨ ∃ spelling ∈ overrides, r.Spells spelling := by
  induction overrides generalizing s with
  | nil =>
    obtain rfl := pure_eq_ok.mp h
    simp
  | cons spelling overrides ih =>
    rw [List.foldlM_cons] at h
    obtain ⟨next, hnext, hrest⟩ := bind_eq_ok.mp h
    rw [ih hrest, mem_disabledIds_of_override hnext, List.exists_mem_cons_iff, or_assoc]

theorem isEnabled_eq_false_iff : s.isEnabled id = false ↔ id ∈ s.disabledIds := by
  simp [isEnabled]

variable {before after : List String}

/-- One more override disables the rule that it spells as well, wherever it stands. -/
theorem mem_disabledIds_of_insert {base : Selection} (hr : r.Spells spelling)
    (h : (before ++ after).foldlM override base = .ok s)
    (h' : (before ++ spelling :: after).foldlM override base = .ok s') (q : Rule) :
    q.id ∈ s'.disabledIds ↔ q.id ∈ s.disabledIds ∨ q = r := by
  have hadded : (∃ o ∈ before ++ spelling :: after, q.Spells o) ↔
      (∃ o ∈ before ++ after, q.Spells o) ∨ q = r := by
    simp only [List.mem_append, List.mem_cons, or_and_right, exists_or, exists_eq_left, hr.iff_eq]
    rw [or_assoc, or_comm (a := q = r)]
  rw [mem_disabledIds_of_overrides h, mem_disabledIds_of_overrides h', hadded, or_assoc]

theorem exists_ofSettings_insert (hr : r.Spells spelling)
    (h : ofSettings settings (before ++ after) = .ok s) :
    ∃ s', ofSettings settings (before ++ spelling :: after) = .ok s' := by
  obtain ⟨hrules, hoverrides⟩ := exists_ofSettings_eq_ok_iff.mp ⟨s, h⟩
  have hspelling : Rule.ofSpelling? spelling ≠ none := by
    simp [Rule.ofSpelling?_eq_some_iff.mpr hr]
  refine exists_ofSettings_eq_ok_iff.mpr ⟨hrules, ?_⟩
  simp only [List.forall_mem_append, List.forall_mem_cons] at hoverrides ⊢
  exact ⟨hoverrides.1, hspelling, hoverrides.2⟩

/-- One more override takes the rule that it spells out of force, wherever it stands. -/
theorem ofSettings_insert (hr : r.Spells spelling)
    (h : ofSettings settings (before ++ after) = .ok s) :
    ∃ s', ofSettings settings (before ++ spelling :: after) = .ok s' ∧
      ∀ id, s'.isEnabled id = (s.isEnabled id && id != r.id) := by
  obtain ⟨s', hs'⟩ := exists_ofSettings_insert hr h
  refine ⟨s', hs', fun id ↦ ?_⟩
  obtain ⟨base, hbase, hfold⟩ := ofSettings_eq_ok_iff.mp h
  obtain ⟨base', hbase', hfold'⟩ := ofSettings_eq_ok_iff.mp hs'
  obtain rfl := Except.ok.inj (hbase.symm.trans hbase')
  have hdisabled := mem_disabledIds_of_insert hr hfold hfold'
  have houtOfForce : s'.isEnabled id = false ↔ s.isEnabled id = false ∨ id = r.id := by
    rw [isEnabled_eq_false_iff, isEnabled_eq_false_iff]
    constructor
    · intro hid
      obtain ⟨q, rfl⟩ := hasRules_ofSettings hs' id hid
      exact ((hdisabled q).mp hid).imp_right (congrArg Rule.id)
    · rintro (hid | rfl)
      · obtain ⟨q, rfl⟩ := hasRules_ofSettings h id hid
        exact (hdisabled q).mpr (Or.inl hid)
      · exact (hdisabled r).mpr (Or.inr rfl)
  rw [Bool.eq_iff_iff, ← not_iff_not, Bool.not_eq_true, Bool.not_eq_true, houtOfForce,
    Bool.and_eq_false_iff, bne_eq_false_iff_eq]

end ShutdownLint.Selection

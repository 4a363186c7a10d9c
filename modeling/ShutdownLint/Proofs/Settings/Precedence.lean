import ShutdownLint.Proofs.KeyOrder
import ShutdownLint.Proofs.Settings.Overrides
/-!
Which rules settings and overrides disable, in closed form. Of the entries of the settings that
spell a rule the one with the greatest spelling decides, also if it says nothing, and an override
has the last word. What spells no rule is an error, and the first such spelling is reported.
-/

set_option autoImplicit false

namespace ShutdownLint.Selection

open Success

variable {entries : List (String × RuleSetting)} {settings : Settings} {overrides : List String}
  {s s' : Selection} {r : Rule}

/-! ### The entry that decides -/

/-- Of the entries that spell a rule this one has the greatest spelling. -/
def Decides (r : Rule) (entry : String × RuleSetting)
    (entries : List (String × RuleSetting)) : Prop :=
  entry ∈ entries ∧ r.Spells entry.1 ∧ ∀ other ∈ entries, r.Spells other.1 → other.1 ≤ entry.1

theorem decides_cons_iff {first entry : String × RuleSetting}
    (hfirst : ∀ other ∈ entries, first.1 < other.1) :
    Decides r entry (first :: entries) ↔ Decides r entry entries ∨
      entry = first ∧ r.Spells first.1 ∧ ∀ other ∈ entries, ¬r.Spells other.1 := by
  constructor
  · rintro ⟨hmem, hspells, hgreatest⟩
    obtain ⟨-, hrest⟩ := List.forall_mem_cons.mp hgreatest
    rcases List.mem_cons.mp hmem with rfl | hmem
    · exact Or.inr ⟨rfl, hspells, fun other hother hspells' ↦
        (hrest other hother hspells').not_gt (hfirst other hother)⟩
    · exact Or.inl ⟨hmem, hspells, hrest⟩
  · rintro (⟨hmem, hspells, hgreatest⟩ | ⟨rfl, hspells, hnone⟩)
    · exact ⟨List.mem_cons_of_mem _ hmem, hspells, List.forall_mem_cons.mpr
        ⟨fun _ ↦ (hfirst entry hmem).le, hgreatest⟩⟩
    · exact ⟨List.mem_cons_self, hspells, List.forall_mem_cons.mpr
        ⟨fun _ ↦ le_rfl, fun other hother hspells' ↦ absurd hspells' (hnone other hother)⟩⟩

/-- An entry decides about the rule that it spells and about no other one. -/
theorem mem_disabledIds_of_apply {entry : String × RuleSetting} (h : s.apply entry = .ok s') :
    r.id ∈ s'.disabledIds ↔ r.Spells entry.1 ∧ entry.2.enabled = some false ∨
      ¬r.Spells entry.1 ∧ r.id ∈ s.disabledIds := by
  obtain ⟨id, hid, rfl⟩ := map_eq_ok.mp h
  rw [spells_iff_of_idOf hid]
  split_ifs with hswitch
  · rw [mem_disable]
    by_cases hr : r.id = id <;> simp [hr, hswitch]
  · rw [mem_enable]
    by_cases hr : r.id = id <;> simp [hr, hswitch]

/-- By induction on the entries, from any selection: what the first one does to a rule stays unless
a later one spells the same rule. -/
theorem mem_disabledIds_of_entries (hsorted : entries.Pairwise fun a b ↦ a.1 < b.1)
    (h : entries.foldlM apply s = .ok s') : r.id ∈ s'.disabledIds ↔
      (∃ entry, Decides r entry entries ∧ entry.2.enabled = some false) ∨
        (∀ entry ∈ entries, ¬r.Spells entry.1) ∧ r.id ∈ s.disabledIds := by
  induction entries generalizing s with
  | nil =>
    obtain rfl := pure_eq_ok.mp h
    simp [Decides]
  | cons first entries ih =>
    rw [List.foldlM_cons] at h
    obtain ⟨next, hnext, hrest⟩ := bind_eq_ok.mp h
    obtain ⟨hfirst, hsorted⟩ := List.pairwise_cons.mp hsorted
    rw [ih hsorted hrest, mem_disabledIds_of_apply hnext, List.forall_mem_cons]
    simp only [decides_cons_iff hfirst, or_and_right, exists_or, and_assoc, exists_eq_left]
    rw [and_or_left, or_assoc, and_left_comm (b := r.Spells first.1),
      and_left_comm (b := ¬r.Spells first.1)]

/-- A rule is disabled by an override that spells it, or by the entry that decides about it. -/
def Disables (settings : Settings) (overrides : List String) (r : Rule) : Prop :=
  (∃ spelling ∈ overrides, r.Spells spelling) ∨
    ∃ entry, Decides r entry settings.rules ∧ entry.2.enabled = some false

theorem decides_sorted_iff {entry : String × RuleSetting} :
    Decides r entry (entries.mergeSort fun a b ↦ a.1 ≤ b.1) ↔ Decides r entry entries := by
  simp only [Decides, List.mem_mergeSort]

theorem mem_disabledIds_of_ofSettings (hkeys : (settings.rules.map Prod.fst).Nodup)
    (h : ofSettings settings overrides = .ok s) :
    r.id ∈ s.disabledIds ↔ Disables settings overrides r := by
  obtain ⟨base, hbase, hs⟩ := ofSettings_eq_ok_iff.mp h
  have hentries := mem_disabledIds_of_entries (r := r) (KeyOrder.pairwise_mergeSort hkeys) hbase
  simp only [decides_sorted_iff] at hentries
  rw [mem_disabledIds_of_overrides hs, hentries, Disables,
    or_comm (a := ∃ spelling ∈ overrides, _)]
  simp [everything]

/-- What is disabled are rules, and it is told by the rules that are. -/
theorem mem_disabledIds_iff (hkeys : (settings.rules.map Prod.fst).Nodup)
    (h : ofSettings settings overrides = .ok s) {id : String} :
    id ∈ s.disabledIds ↔ ∃ r : Rule, r.id = id ∧ Disables settings overrides r := by
  constructor
  · intro hid
    obtain ⟨r, rfl⟩ := hasRules_ofSettings h id hid
    exact ⟨r, rfl, (mem_disabledIds_of_ofSettings hkeys h).mp hid⟩
  · rintro ⟨r, rfl, hr⟩
    exact (mem_disabledIds_of_ofSettings hkeys h).mpr hr

/-- Identifiers stand in their order, so a selection is determined by which of them it has. -/
theorem disabledIds_eq_of_mem_iff (h : ∀ id, id ∈ s.disabledIds ↔ id ∈ s'.disabledIds) :
    s.disabledIds = s'.disabledIds := by
  have hperm : s.disabledIds.Perm s'.disabledIds :=
    (List.perm_ext_iff_of_nodup (s.sorted.imp ne_of_lt) (s'.sorted.imp ne_of_lt)).mpr h
  exact hperm.eq_of_pairwise (fun _ _ _ _ hlt hgt ↦ absurd hgt (lt_asymm hlt)) s.sorted s'.sorted

/-! ### The first unknown spelling -/

theorem idOf_eq_error_iff {spelling : String} {e : UnknownRule} :
    idOf spelling = .error e ↔ Rule.ofSpelling? spelling = none ∧ e = ⟨spelling⟩ := by
  have hnone : Rule.ofSpelling? spelling = none ↔ ¬∃ id, idOf spelling = .ok id := by
    rw [exists_idOf_eq_ok_iff, ne_eq, not_not]
  rw [hnone]
  unfold idOf
  dsimp only
  split <;> simp [eq_comm]

theorem apply_eq_error_iff (s : Selection) (entry : String × RuleSetting) (e : UnknownRule) :
    s.apply entry = .error e ↔ Rule.ofSpelling? entry.1 = none ∧ e = ⟨entry.1⟩ := by
  rw [apply, map_eq_error, idOf_eq_error_iff]

theorem override_eq_error_iff (s : Selection) (spelling : String) (e : UnknownRule) :
    s.override spelling = .error e ↔ Rule.ofSpelling? spelling = none ∧ e = ⟨spelling⟩ := by
  rw [override, map_eq_error, idOf_eq_error_iff]

/-- A spelling of no rule. -/
def IsUnknown (spelling : String) : Prop :=
  ∀ r : Rule, ¬r.Spells spelling

/-- The spelling that is reported: the least one in the settings that spells no rule, and if there
is none, the first among the overrides. -/
inductive FirstUnknown (settings : Settings) (overrides : List String) (spelling : String) : Prop
  | inSettings {setting : RuleSetting} (hmem : (spelling, setting) ∈ settings.rules)
      (hunknown : IsUnknown spelling)
      (hleast : ∀ other ∈ settings.rules, IsUnknown other.1 → spelling ≤ other.1)
  | inOverrides {before after : List String}
      (hsettings : ∀ entry ∈ settings.rules, ¬IsUnknown entry.1)
      (hsplit : overrides = before ++ spelling :: after) (hunknown : IsUnknown spelling)
      (hbefore : ∀ other ∈ before, ¬IsUnknown other)

theorem not_isUnknown_iff {spelling : String} :
    ¬IsUnknown spelling ↔ Rule.ofSpelling? spelling ≠ none := by
  rw [IsUnknown, ne_eq, Rule.ofSpelling?_eq_none_iff]

/-- In entries that are sorted the first unknown spelling is the least one. -/
theorem foldlM_apply_eq_error_iff (hsorted : entries.Pairwise fun a b ↦ a.1 < b.1)
    {e : UnknownRule} : entries.foldlM apply s = .error e ↔ ∃ setting,
      (e.spelling, setting) ∈ entries ∧ IsUnknown e.spelling ∧
        ∀ other ∈ entries, IsUnknown other.1 → e.spelling ≤ other.1 := by
  rw [foldlM_eq_error_iff apply_eq_error_iff]
  constructor
  · rintro ⟨before, ⟨spelling, setting⟩, after, rfl, ⟨hunknown, rfl⟩, hbefore⟩
    refine ⟨setting, by simp, Rule.ofSpelling?_eq_none_iff.mp hunknown, fun other hother hnone ↦ ?_⟩
    obtain ⟨-, hlater, -⟩ := List.pairwise_append.mp hsorted
    rcases List.mem_append.mp hother with hother | hother
    · exact absurd ⟨Rule.ofSpelling?_eq_none_iff.mpr hnone, rfl⟩ (hbefore other hother ⟨other.1⟩)
    · rcases List.mem_cons.mp hother with rfl | hother
      · exact le_rfl
      · exact ((List.pairwise_cons.mp hlater).1 other hother).le
  · rintro ⟨setting, hmem, hunknown, hleast⟩
    obtain ⟨before, after, rfl⟩ := List.append_of_mem hmem
    refine ⟨before, (e.spelling, setting), after, rfl,
      ⟨Rule.ofSpelling?_eq_none_iff.mpr hunknown, rfl⟩, fun other hother e' hother' ↦ ?_⟩
    obtain ⟨-, -, hearlier⟩ := List.pairwise_append.mp hsorted
    have hle := hleast other (List.mem_append_left _ hother)
      (Rule.ofSpelling?_eq_none_iff.mp hother'.1)
    exact hle.not_gt (hearlier other hother _ List.mem_cons_self)

theorem foldlM_override_eq_error_iff {e : UnknownRule} :
    overrides.foldlM override s = .error e ↔ ∃ before after,
      overrides = before ++ e.spelling :: after ∧ IsUnknown e.spelling ∧
        ∀ other ∈ before, ¬IsUnknown other := by
  rw [foldlM_eq_error_iff override_eq_error_iff]
  constructor
  · rintro ⟨before, spelling, after, hsplit, ⟨hunknown, rfl⟩, hbefore⟩
    exact ⟨before, after, hsplit, Rule.ofSpelling?_eq_none_iff.mp hunknown,
      fun other hother hnone ↦
        hbefore other hother ⟨other⟩ ⟨Rule.ofSpelling?_eq_none_iff.mpr hnone, rfl⟩⟩
  · rintro ⟨before, after, hsplit, hunknown, hbefore⟩
    exact ⟨before, e.spelling, after, hsplit, ⟨Rule.ofSpelling?_eq_none_iff.mpr hunknown, rfl⟩,
      fun other hother _ hother' ↦
        hbefore other hother (Rule.ofSpelling?_eq_none_iff.mp hother'.1)⟩

theorem ofSettings_eq_error_iff (hkeys : (settings.rules.map Prod.fst).Nodup) {e : UnknownRule} :
    ofSettings settings overrides = .error e ↔ FirstUnknown settings overrides e.spelling := by
  have hfails := foldlM_apply_eq_error_iff (s := everything) (e := e)
    (KeyOrder.pairwise_mergeSort hkeys)
  have hpasses := exists_foldlM_eq_ok_iff exists_apply_eq_ok_iff
    (settings.rules.mergeSort fun a b ↦ a.1 ≤ b.1) everything
  simp only [List.mem_mergeSort, ← not_isUnknown_iff] at hfails hpasses
  rw [ofSettings, bind_eq_error, hfails]
  constructor
  · rintro (⟨setting, hmem, hunknown, hleast⟩ | ⟨base, hbase, herror⟩)
    · exact .inSettings hmem hunknown hleast
    · obtain ⟨before, after, hsplit, hunknown, hbefore⟩ := foldlM_override_eq_error_iff.mp herror
      exact .inOverrides (hpasses.mp ⟨base, hbase⟩) hsplit hunknown hbefore
  · rintro (⟨hmem, hunknown, hleast⟩ | ⟨hsettings, hsplit, hunknown, hbefore⟩)
    · exact Or.inl ⟨_, hmem, hunknown, hleast⟩
    · obtain ⟨base, hbase⟩ := hpasses.mpr hsettings
      exact Or.inr ⟨base, hbase, foldlM_override_eq_error_iff.mpr
        ⟨_, _, hsplit, hunknown, hbefore⟩⟩

theorem message_unknownRule (e : UnknownRule) : e.message = "unknown rule: " ++ e.spelling ++
    " (expected one of DG001, DG002, DG101, DG102, DG103)" := by
  have hids : ", ".intercalate Rule.allIds = "DG001, DG002, DG101, DG102, DG103" := by decide
  change "unknown rule: " ++ e.spelling ++ " (expected one of " ++
    ", ".intercalate Rule.allIds ++ ")" = _
  rw [hids, String.append_assoc, String.append_assoc, String.append_assoc]
  rfl

/-! ### The law -/

/-- Settings and overrides are refused exactly if something in them spells no rule, and the error
quotes the first such spelling: the least one in the settings, or else the first of the overrides.
Otherwise a rule is disabled exactly if an override spells it, whatever the settings say, or the
greatest of its spellings in the settings switches it off. So neither the order of the overrides nor
how often they are repeated matters, and whatever else is asked for is in force. -/
theorem ofSettings_precedence (settings : Settings) (hkeys : (settings.rules.map Prod.fst).Nodup)
    (overrides : List String) :
    ((∃ e, ofSettings settings overrides = .error e) ↔
      ∃ spelling, (spelling ∈ settings.rules.map Prod.fst ∨ spelling ∈ overrides) ∧
        IsUnknown spelling) ∧
    (∀ e, (ofSettings settings overrides = .error e ↔
        FirstUnknown settings overrides e.spelling) ∧
      e.message = "unknown rule: " ++ e.spelling ++
        " (expected one of DG001, DG002, DG101, DG102, DG103)") ∧
    ∀ s, ofSettings settings overrides = .ok s →
      (∀ id, id ∈ s.disabledIds ↔ ∃ r : Rule, r.id = id ∧ Disables settings overrides r) ∧
      (∀ id, s.isEnabled id = true ↔ id ∉ s.disabledIds) ∧
      ∀ others, (∀ spelling, spelling ∈ others ↔ spelling ∈ overrides) →
        ∃ s', ofSettings settings others = .ok s' ∧ s'.disabledIds = s.disabledIds := by
  refine ⟨?_, fun e ↦ ⟨ofSettings_eq_error_iff hkeys, message_unknownRule e⟩,
    fun s hs ↦ ⟨fun id ↦ ?_, fun id ↦ ?_, fun others hothers ↦ ?_⟩⟩
  · rw [exists_eq_error_iff, exists_ofSettings_eq_ok_iff, not_and_or]
    simp only [← not_isUnknown_iff, not_forall, not_not, exists_prop, or_and_right, exists_or,
      List.mem_map, exists_exists_and_eq_and]
  · exact mem_disabledIds_iff hkeys hs
  · simp [isEnabled]
  · obtain ⟨hrules, hoverrides⟩ := exists_ofSettings_eq_ok_iff.mp ⟨s, hs⟩
    obtain ⟨s', hs'⟩ := exists_ofSettings_eq_ok_iff.mpr
      ⟨hrules, fun spelling hspelling ↦ hoverrides spelling ((hothers spelling).mp hspelling)⟩
    refine ⟨s', hs', disabledIds_eq_of_mem_iff fun id ↦ ?_⟩
    rw [mem_disabledIds_iff hkeys hs', mem_disabledIds_iff hkeys hs]
    simp only [Disables, hothers]

/-- Two spellings of one rule, of which the greater one says nothing, a spelling with blanks around
it and one that is switched on. -/
def mixedSpellings : Settings where
  schema := none
  rules := [("dg101", ⟨none⟩), ("DG002", ⟨some true⟩), ("DG101", ⟨some false⟩),
    (" Dg103\t", ⟨some false⟩)]

theorem ofSettings_precedence_mixedSpellings :
    (mixedSpellings.rules.map Prod.fst).Nodup ∧
      (∃ s, ofSettings mixedSpellings ["dg002"] = .ok s ∧ s.disabledIds = ["DG002", "DG103"] ∧
        s.isEnabled "DG101" = true ∧
          ∃ s', ofSettings mixedSpellings ["dg002", "dg002"] = .ok s' ∧
            s'.disabledIds = s.disabledIds) ∧
      FirstUnknown mixedSpellings ["dg002", "dg 103", ""] "dg 103" := by
  have hkeys : (mixedSpellings.rules.map Prod.fst).Nodup := by decide
  have hsorted : (mixedSpellings.rules.mergeSort fun a b ↦ a.1 ≤ b.1) = [(" Dg103\t", ⟨some false⟩),
      ("DG002", ⟨some true⟩), ("DG101", ⟨some false⟩), ("dg101", ⟨none⟩)] := by
    simp [mixedSpellings, List.mergeSort, List.MergeSort.Internal.splitInTwo]
  have hrun : ∃ s, ofSettings mixedSpellings ["dg002"] = .ok s ∧
      s.disabledIds = ["DG002", "DG103"] := by
    rw [ofSettings, hsorted]
    decide +kernel
  obtain ⟨s, hs, hids⟩ := hrun
  obtain ⟨-, -, hlaw⟩ := ofSettings_precedence mixedSpellings hkeys ["dg002"]
  obtain ⟨-, henabled, hothers⟩ := hlaw s hs
  have herror : ofSettings mixedSpellings ["dg002", "dg 103", ""] = .error ⟨"dg 103"⟩ := by
    rw [ofSettings, hsorted]
    decide +kernel
  obtain ⟨-, hfirst, -⟩ := ofSettings_precedence mixedSpellings hkeys ["dg002", "dg 103", ""]
  refine ⟨hkeys, ⟨s, hs, hids, (henabled _).mpr ?_, hothers _ (by simp)⟩,
    (hfirst ⟨"dg 103"⟩).1.mp herror⟩
  rw [hids]
  decide

end ShutdownLint.Selection

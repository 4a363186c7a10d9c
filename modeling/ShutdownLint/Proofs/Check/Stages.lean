import ShutdownLint.Check
import ShutdownLint.Proofs.Files.Discovery
import ShutdownLint.Proofs.Rule.Spelling
/-!
The stages of a run. Settings and overrides give the rules in force, paths give artifacts, and
artifacts give findings, one block after another. Each stage succeeds exactly if it does on every
member of its list. So the last two can be cut in two where the list of paths is cut in two.
-/

set_option autoImplicit false

namespace ShutdownLint

open Success

/-! ### From settings to rules in force -/

namespace Selection

/-- An identifier is in the list exactly if there is a rule for it. -/
theorem idOf_eq_ok_iff {spelling id : String} :
    idOf spelling = .ok id ↔ ∃ r, Rule.ofSpelling? spelling = some r ∧ r.id = id := by
  simp only [Rule.ofSpelling?_eq_some_iff_normalize]
  unfold idOf
  dsimp only
  split
  case isTrue hknown =>
    obtain ⟨r, hr⟩ := Rule.isKnown_iff.mp hknown
    rw [Except.ok.injEq]
    constructor
    · exact fun h ↦ ⟨r, hr.symm, hr.trans h⟩
    · rintro ⟨q, hq, rfl⟩
      exact hq
  case isFalse hunknown =>
    refine iff_of_false nofun ?_
    rintro ⟨q, hq, -⟩
    exact hunknown (Rule.isKnown_iff.mpr ⟨q, hq.symm⟩)

theorem idOf_eq_ok_id_iff {spelling : String} {r : Rule} :
    idOf spelling = .ok r.id ↔ Rule.ofSpelling? spelling = some r := by
  rw [idOf_eq_ok_iff]
  constructor
  · rintro ⟨q, hq, hid⟩
    rw [hq, Rule.id_injective hid]
  · exact fun h ↦ ⟨r, h, rfl⟩

theorem exists_idOf_eq_ok_iff {spelling : String} :
    (∃ id, idOf spelling = .ok id) ↔ Rule.ofSpelling? spelling ≠ none := by
  simp only [idOf_eq_ok_iff, Option.ne_none_iff_exists']
  exact ⟨fun ⟨_, r, hr, _⟩ ↦ ⟨r, hr⟩, fun ⟨r, hr⟩ ↦ ⟨_, r, hr, rfl⟩⟩

theorem exists_apply_eq_ok_iff (s : Selection) (entry : String × RuleSetting) :
    (∃ s', s.apply entry = .ok s') ↔ Rule.ofSpelling? entry.1 ≠ none := by
  rw [← exists_idOf_eq_ok_iff]
  simp [apply]

theorem exists_override_eq_ok_iff (s : Selection) (spelling : String) :
    (∃ s', s.override spelling = .ok s') ↔ Rule.ofSpelling? spelling ≠ none := by
  rw [← exists_idOf_eq_ok_iff]
  simp [override]

theorem ofSettings_eq_ok_iff {settings : Settings} {overrides : List String} {s : Selection} :
    ofSettings settings overrides = .ok s ↔ ∃ base,
      (settings.rules.mergeSort fun a b ↦ a.1 ≤ b.1).foldlM apply everything = .ok base ∧
        overrides.foldlM override base = .ok s := by
  simp only [ofSettings, bind_eq_ok]

/-- Settings and overrides leave some rules in force exactly if all their spellings mean rules. -/
theorem exists_ofSettings_eq_ok_iff {settings : Settings} {overrides : List String} :
    (∃ s, ofSettings settings overrides = .ok s) ↔
      (∀ entry ∈ settings.rules, Rule.ofSpelling? entry.1 ≠ none) ∧
        ∀ spelling ∈ overrides, Rule.ofSpelling? spelling ≠ none := by
  have hentries := exists_foldlM_eq_ok_iff exists_apply_eq_ok_iff
    (settings.rules.mergeSort fun a b ↦ a.1 ≤ b.1) everything
  have hoverrides := exists_foldlM_eq_ok_iff exists_override_eq_ok_iff overrides
  simp only [List.mem_mergeSort] at hentries
  rw [← hentries]
  simp only [ofSettings_eq_ok_iff]
  constructor
  · rintro ⟨last, s, hs, hlast⟩
    exact ⟨⟨s, hs⟩, (hoverrides s).mp ⟨last, hlast⟩⟩
  · rintro ⟨⟨s, hs⟩, hknown⟩
    obtain ⟨last, hlast⟩ := (hoverrides s).mpr hknown
    exact ⟨last, s, hs, hlast⟩

end Selection

/-! ### From paths to artifacts -/

theorem Artifact.ofArguments_append_eq_ok_iff {fs : FileSystem} {ps qs : List Path}
    {as : List Artifact} :
    Artifact.ofArguments fs (ps ++ qs) = .ok as ↔ ∃ bs cs,
      Artifact.ofArguments fs ps = .ok bs ∧ Artifact.ofArguments fs qs = .ok cs ∧
        bs ++ cs = as := by
  induction ps generalizing as with
  | nil => simp [Artifact.ofArguments]
  | cons p ps ih =>
    simp only [List.cons_append, Artifact.ofArguments, bind_eq_ok, pure_eq_ok, ih]
    constructor
    · rintro ⟨first, hfirst, _, ⟨bs, cs, hbs, hcs, rfl⟩, rfl⟩
      exact ⟨first ++ bs, cs, ⟨first, hfirst, bs, hbs, rfl⟩, hcs, List.append_assoc ..⟩
    · rintro ⟨_, cs, ⟨first, hfirst, bs, hbs, rfl⟩, hcs, rfl⟩
      exact ⟨first, hfirst, bs ++ cs, ⟨bs, cs, hbs, hcs, rfl⟩, (List.append_assoc ..).symm⟩

namespace Check

/-! ### From artifacts to findings -/

theorem analyze_eq_ok_iff {fs : FileSystem} {a : Artifact} {block : List Finding} :
    analyze fs a = .ok block ↔ ∃ bytes, fs.read a.path = .ok bytes ∧
      a.kind.findings (Text.Utf8.lossy bytes) a.path.text = block := by
  unfold analyze
  cases fs.read a.path <;> simp

theorem analyzeAll_cons_eq_ok_iff {fs : FileSystem} {a : Artifact} {as : List Artifact}
    {found : List Finding} : analyzeAll fs (a :: as) = .ok found ↔ ∃ first others,
      analyze fs a = .ok first ∧ analyzeAll fs as = .ok others ∧ first ++ others = found := by
  simp [analyzeAll]

/-- What is found on several artifacts is what is found on each of them, block by block. -/
theorem analyzeAll_eq_ok_iff {fs : FileSystem} {as : List Artifact} {found : List Finding} :
    analyzeAll fs as = .ok found ↔ ∃ blocks,
      List.Forall₂ (fun a block ↦ analyze fs a = .ok block) as blocks ∧
        blocks.flatten = found := by
  induction as generalizing found with
  | nil => simp [analyzeAll]
  | cons a as ih =>
    simp only [analyzeAll_cons_eq_ok_iff, ih, List.forall₂_cons_left_iff]
    constructor
    · rintro ⟨first, _, hfirst, ⟨blocks, hblocks, rfl⟩, rfl⟩
      exact ⟨first :: blocks, ⟨first, blocks, hfirst, hblocks, rfl⟩, rfl⟩
    · rintro ⟨_, ⟨first, blocks, hfirst, hblocks, rfl⟩, rfl⟩
      exact ⟨first, blocks.flatten, hfirst, ⟨blocks, hblocks, rfl⟩, rfl⟩

theorem analyzeAll_append_eq_ok_iff {fs : FileSystem} {as bs : List Artifact}
    {found : List Finding} : analyzeAll fs (as ++ bs) = .ok found ↔ ∃ first others,
      analyzeAll fs as = .ok first ∧ analyzeAll fs bs = .ok others ∧ first ++ others = found := by
  induction as generalizing found with
  | nil => simp [analyzeAll]
  | cons a as ih =>
    simp only [List.cons_append, analyzeAll_cons_eq_ok_iff, ih]
    constructor
    · rintro ⟨block, _, hblock, ⟨first, others, hfirst, hothers, rfl⟩, rfl⟩
      exact ⟨block ++ first, others, ⟨block, first, hblock, hfirst, rfl⟩, hothers,
        List.append_assoc ..⟩
    · rintro ⟨_, others, ⟨block, first, hblock, hfirst, rfl⟩, hothers, rfl⟩
      exact ⟨block, first ++ others, hblock, ⟨first, others, hfirst, hothers, rfl⟩,
        (List.append_assoc ..).symm⟩

/-- All artifacts can be analyzed exactly if all can be read. -/
theorem exists_analyzeAll_eq_ok_iff {fs : FileSystem} {as : List Artifact} :
    (∃ found, analyzeAll fs as = .ok found) ↔ ∀ a ∈ as, ∃ bytes, fs.read a.path = .ok bytes := by
  induction as with
  | nil => simp [analyzeAll]
  | cons a as ih =>
    rw [List.forall_mem_cons, ← ih]
    constructor
    · rintro ⟨found, h⟩
      obtain ⟨first, others, hfirst, hothers, -⟩ := analyzeAll_cons_eq_ok_iff.mp h
      obtain ⟨bytes, hbytes, -⟩ := analyze_eq_ok_iff.mp hfirst
      exact ⟨⟨bytes, hbytes⟩, others, hothers⟩
    · rintro ⟨⟨bytes, hbytes⟩, others, hothers⟩
      have hfirst := analyze_eq_ok_iff.mpr ⟨bytes, hbytes, rfl⟩
      exact ⟨_, analyzeAll_cons_eq_ok_iff.mpr ⟨_, others, hfirst, hothers, rfl⟩⟩

/-- What is found on several artifacts is found on one of them. -/
theorem mem_analyzeAll_iff {fs : FileSystem} {as : List Artifact} {found : List Finding}
    (h : analyzeAll fs as = .ok found) {f : Finding} :
    f ∈ found ↔ ∃ a ∈ as, ∃ block, analyze fs a = .ok block ∧ f ∈ block := by
  induction as generalizing found with
  | nil =>
    obtain rfl : [] = found := by simpa [analyzeAll] using h
    simp
  | cons a as ih =>
    obtain ⟨first, others, hfirst, hothers, rfl⟩ := analyzeAll_cons_eq_ok_iff.mp h
    rw [List.mem_append, ih hothers, List.exists_mem_cons_iff]
    simp [hfirst]

/-! ### The run -/

theorem selectionOf_eq_ok_iff {request : CheckRequest} {s : Selection} :
    selectionOf request = .ok s ↔ ∃ settings, settingsOf request.settings = .ok settings ∧
      Selection.ofSettings settings request.overrides = .ok s := by
  simp [selectionOf]

theorem exists_selectionOf_eq_ok_iff {request : CheckRequest} :
    (∃ s, selectionOf request = .ok s) ↔ ∃ settings, settingsOf request.settings = .ok settings ∧
      (∀ entry ∈ settings.rules, Rule.ofSpelling? entry.1 ≠ none) ∧
        ∀ spelling ∈ request.overrides, Rule.ofSpelling? spelling ≠ none := by
  simp only [selectionOf_eq_ok_iff, ← Selection.exists_ofSettings_eq_ok_iff]
  rw [exists_comm]
  simp only [exists_and_left]

theorem run_eq_ok_iff {fs : FileSystem} {period : Period} {request : CheckRequest}
    {result : CheckResult} :
    run fs period request = .ok result ↔ ∃ selection artifacts found,
      selectionOf request = .ok selection ∧
      Artifact.ofArguments fs request.paths = .ok artifacts ∧
      analyzeAll fs artifacts = .ok found ∧
      ⟨Report.ofFindings period.startedAt period.finishedAt artifacts.length
        (select selection found), selection⟩ = result := by
  simp [run, artifactsOf]

end Check

end ShutdownLint

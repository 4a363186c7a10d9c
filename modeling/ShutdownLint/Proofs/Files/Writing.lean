import ShutdownLint.Proofs.Files.Parents
import ShutdownLint.Report.Output
/-!
What it changes to write a text. To make a directory or to write a file changes the one place that
the path leads to afterwards. A text is written behind the directories above it, so all that changes
besides its own place are places where there was nothing and where paths above it lead now.
-/

set_option autoImplicit false

namespace ShutdownLint

open Success

namespace FileSystem

/-! ### Targets -/

/-- Where the thing is that a path wants to make. -/
def Target.place (t : Target) : List String :=
  t.directory ++ [t.name]

theorem splitLast_eq (segments : List String) : splitLast segments =
    (segments.rdropWhile (· == "")).getLast?.map fun last ↦
      ((segments.rdropWhile (· == "")).dropLast, last,
        decide ((segments.rdropWhile (· == "")).length < segments.length)) :=
  rfl

theorem splitLast_eq_some {segments parents : List String} {name : String} {hasSlash : Bool}
    (h : splitLast segments = some (parents, name, hasSlash)) : name ≠ "" ∧ ∃ slashes,
      (∀ s ∈ slashes, s = "") ∧ (hasSlash = false → slashes = []) ∧
        segments = parents ++ name :: slashes := by
  have hsplit : segments.rdropWhile (· == "") ++ segments.rtakeWhile (· == "") = segments :=
    List.rdropWhile_append_rtakeWhile
  have hlast := List.rdropWhile_last_not (· == "") segments
  have hslashes : ∀ s ∈ segments.rtakeWhile (· == ""), s = "" := by
    intro s hs
    simpa using List.mem_rtakeWhile_imp hs
  rw [splitLast_eq] at h
  generalize segments.rdropWhile (· == "") = body at hsplit hlast h
  generalize segments.rtakeWhile (· == "") = slashes at hsplit hslashes
  subst hsplit
  obtain ⟨last, hbody, heq⟩ := Option.map_eq_some_iff.mp h
  obtain ⟨front, rfl⟩ := List.getLast?_eq_some_iff.mp hbody
  simp only [Prod.mk.injEq, List.dropLast_concat] at heq
  obtain ⟨rfl, rfl, hslash⟩ := heq
  refine ⟨?_, slashes, hslashes, fun hnone ↦ ?_, ?_⟩
  · simpa using hlast
  · simpa [hnone] using hslash
  · rw [List.append_assoc, List.singleton_append]

/-- A path that wants to make something ends in a name, up to slashes, and leads to the directory
before it. -/
theorem target_eq_ok {fs : FileSystem} {p : Path} {t : Target} (h : fs.target p = .ok (some t)) :
    checkPath p = .ok () ∧ fs.viewAt t.directory = some .directory ∧ Path.IsName t.name ∧
      ∃ parents slashes, (∀ s ∈ slashes, s = "") ∧ (t.hasSlash = false → slashes = []) ∧
        (fs.start p).2 = parents ++ t.name :: slashes ∧
        parents.foldlM fs.follow (fs.start p).1 = .ok t.directory := by
  obtain ⟨⟨⟩, hcheck, h⟩ := bind_eq_ok.mp h
  dsimp only at h
  split at h
  · cases h
  · rename_i parents name hasSlash hsplit
    obtain ⟨hempty, slashes, hslashes, hnone, hsegments⟩ := splitLast_eq_some hsplit
    obtain ⟨directory, hfold, h⟩ := bind_eq_ok.mp h
    obtain ⟨same, hsame, h⟩ := bind_eq_ok.mp h
    have hview := (follow_eq_ok_iff.mp hsame).1
    split_ifs at h with hdots
    · cases h
    · obtain rfl := Option.some.inj (pure_eq_ok.mp h)
      simp only [Bool.or_eq_true, decide_eq_true_eq, not_or] at hdots
      refine ⟨hcheck, hview, ⟨?_, hdots.2⟩, parents, slashes, hslashes, hnone, hsegments, hfold⟩
      simp [Path.isStep, hempty, hdots.1]

/-- A path goes on to want to make the same thing. -/
theorem Grows.target {before after : FileSystem} (h : Grows before after) {p : Path} {t : Target}
    (ht : before.target p = .ok (some t)) : after.target p = .ok (some t) := by
  obtain ⟨⟨⟩, hcheck, ht⟩ := bind_eq_ok.mp ht
  refine bind_eq_ok.mpr ⟨(), hcheck, ?_⟩
  rw [h.start]
  dsimp only at ht ⊢
  split at ht
  · cases ht
  · obtain ⟨directory, hfold, ht⟩ := bind_eq_ok.mp ht
    obtain ⟨same, hsame, ht⟩ := bind_eq_ok.mp ht
    exact bind_eq_ok.mpr ⟨directory, h.foldlM_follow hfold,
      bind_eq_ok.mpr ⟨same, h.follow hsame, ht⟩⟩

theorem foldlM_follow_slashes {fs : FileSystem} {place : List String}
    (hplace : fs.viewAt place = some .directory) {slashes : List String}
    (h : ∀ s ∈ slashes, s = "") : slashes.foldlM fs.follow place = .ok place := by
  induction slashes with
  | nil => rfl
  | cons slash slashes ih =>
    obtain ⟨rfl, hslashes⟩ := List.forall_mem_cons.mp h
    have hstay : fs.follow place "" = .ok place :=
      follow_eq_ok_iff.mpr ⟨hplace, Or.inl ⟨by decide, rfl⟩⟩
    rw [List.foldlM_cons, hstay]
    exact ih hslashes

/-- A path leads to what it wants to make as soon as this is there. -/
theorem Grows.resolve_of_target {before after : FileSystem} (h : Grows before after) {p : Path}
    {t : Target} (ht : before.target p = .ok (some t)) (hlength : t.name.utf8ByteSize ≤ nameLimit)
    (hthere : after.viewAt t.place ≠ none)
    (hslash : t.hasSlash = true → after.viewAt t.place = some .directory) :
    after.resolve p = .ok t.place := by
  obtain ⟨hcheck, hview, hname, parents, slashes, hslashes, hnone, hsegments, hfold⟩ :=
    target_eq_ok ht
  refine resolve_eq_ok_iff.mpr ⟨hcheck, ?_⟩
  have hlast : after.follow t.directory t.name = .ok t.place := follow_eq_ok_iff.mpr
    ⟨h.directories _ hview, Or.inr (Or.inr ⟨hname, hlength, rfl, hthere⟩)⟩
  rw [h.start, hsegments, List.foldlM_append, bind_eq_ok]
  refine ⟨t.directory, h.foldlM_follow hfold, ?_⟩
  rw [List.foldlM_cons, bind_eq_ok]
  refine ⟨t.place, hlast, ?_⟩
  cases hhas : t.hasSlash with
  | false =>
    rw [hnone hhas]
    rfl
  | true => exact foldlM_follow_slashes (hslash hhas) hslashes

theorem entryAt_eq_ok {fs : FileSystem} {t : Target} {entry : Option FileTree}
    (h : fs.entryAt t = .ok entry) :
    t.name.utf8ByteSize ≤ nameLimit ∧ fs.viewAt t.place = entry.map FileTree.entry := by
  unfold entryAt at h
  split_ifs at h with hlong
  obtain rfl := Except.ok.inj h
  exact ⟨Nat.le_of_not_lt hlong, rfl⟩

theorem replaces_putAt {fs : FileSystem} {t : Target}
    (hdirectory : fs.viewAt t.directory = some .directory)
    (hold : fs.viewAt t.place ≠ some .directory) {new : FileTree}
    (hnew : ∀ name rest, new.view (name :: rest) = none) :
    Replaces fs (fs.putAt t new) t.place new.entry where
  workingDirectory := rfl
  viewAt := FileTree.view_put hdirectory hold hnew

/-! ### To make directories -/

/-- To make a directory changes the place that the path leads to afterwards. -/
theorem createDirectory_eq_ok {fs fs' : FileSystem} {p : Path}
    (h : fs.createDirectory p = .ok fs') : ∃ place, fs.viewAt place = none ∧
      Replaces fs fs' place .directory ∧ fs'.resolve p = .ok place := by
  obtain ⟨found, htarget, h⟩ := bind_eq_ok.mp h
  cases found with
  | none => cases h
  | some t =>
    obtain ⟨entry, hentry, h⟩ := bind_eq_ok.mp h
    cases entry with
    | some old => cases h
    | none =>
      obtain rfl := pure_eq_ok.mp h
      obtain ⟨hlength, hview⟩ := entryAt_eq_ok hentry
      have hold : fs.viewAt t.place ≠ some .directory := by
        rw [hview]
        exact nofun
      have hreplaces : Replaces fs (fs.putAt t (.directory [])) t.place .directory :=
        replaces_putAt (target_eq_ok htarget).2.1 hold fun _ _ ↦ rfl
      have hthere : (fs.putAt t (.directory [])).viewAt t.place = some .directory := by
        rw [hreplaces.viewAt, if_pos rfl]
      refine ⟨t.place, hview, hreplaces, (hreplaces.grows hold).resolve_of_target htarget hlength
        ?_ fun _ ↦ hthere⟩
      rw [hthere]
      exact Option.some_ne_none _

/-- Where there was nothing, there is a directory to which one of some paths leads. -/
def IsMade (before after : FileSystem) (paths : Path → Prop) (place : List String) : Prop :=
  before.viewAt place = none ∧ after.viewAt place = some .directory ∧
    ∃ q, paths q ∧ after.resolve q = .ok place

/-- All that changes are new directories to which some paths lead. -/
structure MakesDirectories (before after : FileSystem) (paths : Path → Prop) : Prop where
  workingDirectory : after.workingDirectory = before.workingDirectory
  places : ∀ place, after.viewAt place = before.viewAt place ∨ IsMade before after paths place

namespace MakesDirectories

variable {before middle after : FileSystem} {paths : Path → Prop}

theorem refl (fs : FileSystem) (paths : Path → Prop) : MakesDirectories fs fs paths where
  workingDirectory := rfl
  places _ := Or.inl rfl

theorem grows (h : MakesDirectories before after paths) : Grows before after where
  workingDirectory := h.workingDirectory
  directories place hplace := by
    rcases h.places place with hsame | hmade
    · rw [hsame, hplace]
    · exact hmade.2.1
  entries place hplace := by
    rcases h.places place with hsame | hmade
    · rwa [hsame]
    · exact absurd hmade.1 hplace

theorem mono (h : MakesDirectories before after paths) {more : Path → Prop}
    (hmore : ∀ q, paths q → more q) : MakesDirectories before after more where
  workingDirectory := h.workingDirectory
  places place := by
    rcases h.places place with hsame | ⟨hnone, hthere, q, hq, hleads⟩
    · exact Or.inl hsame
    · exact Or.inr ⟨hnone, hthere, q, hmore q hq, hleads⟩

theorem trans (h : MakesDirectories before middle paths)
    (h' : MakesDirectories middle after paths) : MakesDirectories before after paths where
  workingDirectory := h'.workingDirectory.trans h.workingDirectory
  places place := by
    rcases h'.places place with hsame | ⟨hnone, hthere, hleads⟩
    · rcases h.places place with hfirst | ⟨hnone, hthere, q, hq, hleads⟩
      · exact Or.inl (hsame.trans hfirst)
      · exact Or.inr ⟨hnone, hsame.trans hthere, q, hq, h'.grows.resolve hleads⟩
    · have hbefore : before.viewAt place = none := by
        by_contra hsome
        exact h.grows.entries place hsome hnone
      exact Or.inr ⟨hbefore, hthere, hleads⟩

end MakesDirectories

theorem makesDirectories_createDirectory {fs fs' : FileSystem} {p : Path}
    (h : fs.createDirectory p = .ok fs') : MakesDirectories fs fs' (· = p) ∧
      fs'.isDirectory p = true := by
  obtain ⟨place, hnone, hreplaces, hleads⟩ := createDirectory_eq_ok h
  have hthere : fs'.viewAt place = some .directory := by
    rw [hreplaces.viewAt, if_pos rfl]
  refine ⟨⟨hreplaces.workingDirectory, fun other ↦ ?_⟩,
    isDirectory_iff.mpr ⟨place, hleads, hthere⟩⟩
  by_cases hother : other = place
  · subst hother
    exact Or.inr ⟨hnone, hthere, p, rfl, hleads⟩
  · exact Or.inl (by rw [hreplaces.viewAt, if_neg hother])

/-- Makes a directory that may be there already. -/
def ensureDirectory (fs : FileSystem) (p : Path) : FileSystem × Except FileError Unit :=
  match fs.createDirectory p with
  | .ok fs => (fs, .ok ())
  | .error e => (fs, if fs.isDirectory p then .ok () else .error e)

theorem makesDirectories_ensureDirectory (fs : FileSystem) (p : Path) :
    MakesDirectories fs (fs.ensureDirectory p).1 (· = p) ∧
      ((fs.ensureDirectory p).2 = .ok () → (fs.ensureDirectory p).1.isDirectory p = true) := by
  unfold ensureDirectory
  match hmade : fs.createDirectory p with
  | .ok made =>
    obtain ⟨hmakes, hthere⟩ := makesDirectories_createDirectory hmade
    exact ⟨hmakes, fun _ ↦ hthere⟩
  | .error e =>
    refine ⟨.refl fs _, fun hok ↦ ?_⟩
    dsimp only at hok ⊢
    split_ifs at hok with hthere
    exact hthere

/-- The first directory of a list is not to be made if its path is empty, and otherwise it is made,
perhaps after those behind it, unless these cannot be made. -/
theorem createAll_cons_cases (fs : FileSystem) (p : Path) (above : List Path) :
    (p.text = "" ∧ fs.createAll (p :: above) = (fs, .ok ())) ∨
      (∃ e, fs.createAll (p :: above) = ((fs.createAll above).1, .error e)) ∨
        fs.createAll (p :: above) = fs.ensureDirectory p ∨
          fs.createAll (p :: above) = (fs.createAll above).1.ensureDirectory p := by
  rw [createAll]
  by_cases hempty : p.text.isEmpty = true
  · rw [if_pos hempty]
    exact Or.inl ⟨String.isEmpty_iff.mp hempty, rfl⟩
  rw [if_neg hempty]
  refine Or.inr ?_
  unfold ensureDirectory
  match fs.createDirectory p with
  | .ok made => exact Or.inr (Or.inl rfl)
  | .error .notFound =>
    match fs.createAll above with
    | (middle, .error e) => exact Or.inl ⟨e, rfl⟩
    | (middle, .ok ()) => exact Or.inr (Or.inr rfl)
  | .error .notDirectory | .error .alreadyExists | .error .isDirectory | .error .nameTooLong
  | .error .nullInPath | .error .notUtf8 => exact Or.inr (Or.inl rfl)

/-- To make the directories of a list changes nothing else, even if it does not succeed, and if it
does then the first one is there. -/
theorem makesDirectories_createAll (fs : FileSystem) (ps : List Path) :
    MakesDirectories fs (fs.createAll ps).1 (· ∈ ps) ∧ ((fs.createAll ps).2 = .ok () →
      ∀ p, ps.head? = some p → p.text = "" ∨ (fs.createAll ps).1.isDirectory p = true) := by
  induction ps with
  | nil => exact ⟨.refl fs _, fun _ _ ↦ nofun⟩
  | cons p above ih =>
    have habove := ih.1.mono fun q hq ↦ List.mem_cons_of_mem p hq
    have hfirst : ∀ q, q = p → q ∈ p :: above := by
      rintro q rfl
      exact List.mem_cons_self
    simp only [List.head?_cons, Option.some.injEq, forall_eq']
    rcases fs.createAll_cons_cases p above with ⟨hempty, h⟩ | ⟨e, h⟩ | h | h
    · rw [h]
      exact ⟨.refl fs _, fun _ ↦ Or.inl hempty⟩
    · rw [h]
      exact ⟨habove, nofun⟩
    · obtain ⟨hmakes, hthere⟩ := fs.makesDirectories_ensureDirectory p
      rw [h]
      exact ⟨hmakes.mono hfirst, fun hok ↦ Or.inr (hthere hok)⟩
    · obtain ⟨hmakes, hthere⟩ := (fs.createAll above).1.makesDirectories_ensureDirectory p
      rw [h]
      exact ⟨habove.trans (hmakes.mono hfirst), fun hok ↦ Or.inr (hthere hok)⟩

theorem mem_withParents {depth : Nat} {p q : Path} (h : q ∈ withParents depth p) :
    q = p ∨ q.IsAbove p := by
  induction depth generalizing p with
  | zero => exact Or.inl (List.mem_singleton.mp h)
  | succ depth ih =>
    unfold withParents at h
    split at h
    · rename_i parent hparent
      rcases List.mem_cons.mp h with rfl | h
      · exact Or.inl rfl
      · rcases ih h with rfl | habove
        · exact Or.inr (.single hparent)
        · exact Or.inr (.head hparent habove)
    · exact Or.inl (List.mem_singleton.mp h)

theorem head?_withParents (depth : Nat) (p : Path) : (withParents depth p).head? = some p := by
  cases depth with
  | zero => rfl
  | succ depth =>
    unfold withParents
    split <;> rfl

/-- Before a file is written only directories above it are made, and if this succeeds then all of
them are there. -/
theorem makesDirectories_createParent (fs : FileSystem) (p : Path) :
    MakesDirectories fs (fs.createParent p).1 (·.IsAbove p) ∧ ((fs.createParent p).2 = .ok () →
      ∀ q : Path, q.IsAbove p → q.text = "" ∨ (fs.createParent p).1.isDirectory q = true) := by
  unfold createParent
  match hparent : p.parent? with
  | none =>
    refine ⟨.refl fs _, fun _ q hq ↦ isDirectory_above (fun q hq ↦ ?_) hq⟩
    cases hparent.symm.trans hq
  | some parent =>
    dsimp only
    split_ifs with hempty
    · refine ⟨.refl fs _, fun _ q hq ↦ isDirectory_above (fun q hq ↦ ?_) hq⟩
      obtain rfl := Option.some.inj (hparent.symm.trans hq)
      exact Or.inl (String.isEmpty_iff.mp hempty)
    · obtain ⟨hmakes, hthere⟩ :=
        fs.makesDirectories_createAll (withParents parent.segments.length parent)
      refine ⟨hmakes.mono fun q hq ↦ ?_, fun hok q hq ↦ isDirectory_above (fun q hq ↦ ?_) hq⟩
      · rcases mem_withParents hq with rfl | habove
        · exact .single hparent
        · exact .head hparent habove
      · obtain rfl := Option.some.inj (hparent.symm.trans hq)
        exact hthere (mapError_eq_ok.mp hok) parent (head?_withParents _ parent)

/-! ### To write a text -/

theorem write_eq_ok_iff {fs fs' : FileSystem} {p : Path} {content : List UInt8} :
    fs.write p content = .ok fs' ↔ ∃ t, fs.target p = .ok (some t) ∧ t.hasSlash = false ∧
      t.name.utf8ByteSize ≤ nameLimit ∧ fs.viewAt t.place ≠ some .directory ∧
        fs.putAt t (.file content) = fs' := by
  constructor
  · intro h
    obtain ⟨found, htarget, h⟩ := bind_eq_ok.mp h
    cases found with
    | none => cases h
    | some t =>
      dsimp only at h
      split_ifs at h with hslash
      obtain ⟨entry, hentry, h⟩ := bind_eq_ok.mp h
      obtain ⟨hlength, hview⟩ := entryAt_eq_ok hentry
      split at h
      · cases h
      · rename_i hfile
        refine ⟨t, htarget, by simpa using hslash, hlength, fun hdirectory ↦ ?_, pure_eq_ok.mp h⟩
        obtain ⟨old, rfl, hold⟩ := Option.map_eq_some_iff.mp (hview.symm.trans hdirectory)
        cases old with
        | file content => cases hold
        | directory entries => exact hfile entries rfl
  · rintro ⟨t, htarget, hslash, hlength, hold, rfl⟩
    have hentry : fs.entryAt t = .ok (fs.root.find? t.place) := if_neg (Nat.not_lt.mpr hlength)
    refine bind_eq_ok.mpr ⟨some t, htarget, ?_⟩
    dsimp only
    rw [if_neg (by simp [hslash]), hentry]
    match hfind : fs.root.find? t.place with
    | none => rfl
    | some (.file content) => rfl
    | some (.directory entries) =>
      exact absurd (FileTree.view_eq_directory_iff.mpr ⟨entries, hfind⟩) hold

/-- To write a file changes the place that the path leads to afterwards. -/
theorem write_eq_ok {fs fs' : FileSystem} {p : Path} {content : List UInt8}
    (h : fs.write p content = .ok fs') : ∃ place, fs.viewAt place ≠ some .directory ∧
      Replaces fs fs' place (.file content) ∧ fs'.resolve p = .ok place := by
  obtain ⟨t, htarget, hslash, hlength, hold, rfl⟩ := write_eq_ok_iff.mp h
  have hreplaces : Replaces fs (fs.putAt t (.file content)) t.place (.file content) :=
    replaces_putAt (target_eq_ok htarget).2.1 hold fun _ _ ↦ rfl
  refine ⟨t.place, hold, hreplaces, (hreplaces.grows hold).resolve_of_target htarget hlength ?_
    fun h ↦ nomatch hslash.symm.trans h⟩
  rw [hreplaces.viewAt, if_pos rfl]
  exact Option.some_ne_none _

/-- A text has been written: the path leads to it, the paths above lead to directories, and all that
is new besides are such directories. -/
structure Written (before after : FileSystem) (p : Path) (text : String) : Prop where
  workingDirectory : after.workingDirectory = before.workingDirectory
  content : after.read p = .ok (Text.Utf8.encode text)
  parents : ∀ q : Path, q.IsAbove p → q.text = "" ∨ after.isDirectory q = true
  others : ∀ place, after.resolve p ≠ .ok place →
    after.viewAt place = before.viewAt place ∨ IsMade before after (·.IsAbove p) place

theorem written_of_writeText {fs : FileSystem} {p : Path} {text : String}
    (h : (fs.writeText p text).2 = .ok ()) : Written fs (fs.writeText p text).1 p text := by
  obtain ⟨hmakes, hparents⟩ := fs.makesDirectories_createParent p
  unfold writeText at h ⊢
  match hcreate : fs.createParent p with
  | (middle, .error e) =>
    rw [hcreate] at h
    cases h
  | (middle, .ok ()) =>
    rw [hcreate] at h hmakes hparents
    dsimp only at h hmakes hparents ⊢
    match hwrite : middle.write p (Text.Utf8.encode text) with
    | .error e =>
      rw [hwrite] at h
      cases h
    | .ok after =>
      obtain ⟨place, hold, hreplaces, hleads⟩ := write_eq_ok hwrite
      have hgrows := hreplaces.grows hold
      exact
        { workingDirectory := hreplaces.workingDirectory.trans hmakes.workingDirectory
          content := read_eq_ok_iff.mpr ⟨place, hleads, by rw [hreplaces.viewAt, if_pos rfl]⟩
          parents := fun q hq ↦ (hparents rfl q hq).imp_right hgrows.isDirectory
          others := fun other hother ↦ by
            have hne : other ≠ place := by
              rintro rfl
              exact hother hleads
            have hsame : after.viewAt other = middle.viewAt other := by
              rw [hreplaces.viewAt, if_neg hne]
            rcases hmakes.places other with hfirst | ⟨hnone, hthere, q, hq, hq'⟩
            · exact Or.inl (hsame.trans hfirst)
            · exact Or.inr ⟨hnone, hsame.trans hthere, q, hq, hgrows.resolve hq'⟩ }

end FileSystem

end ShutdownLint

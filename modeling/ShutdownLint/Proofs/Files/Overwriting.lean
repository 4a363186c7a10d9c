import Mathlib.Data.List.Infix
import Mathlib.Data.List.Sort
import ShutdownLint.Proofs.Files.Writing
/-!
What it changes to write a file once. A path that does not come by the place of the file leads where
it led before, and what is read there is what was read. A directory is walked through as before, but
for the one file, so the artifacts are the same if the name of the file is none of theirs. To write
the file again changes only what is in it.
-/

set_option autoImplicit false

namespace ShutdownLint

open Success

namespace FileTree

/-! ### Names -/

theorem wellNamed_replace {entries : List (String × FileTree)} {name : String} {new : FileTree}
    (h : (directory entries).WellNamed) (hname : Path.IsName name) (hnew : new.WellNamed) :
    (directory (entries.filter (·.1 != name) ++ [(name, new)])).WellNamed := by
  obtain ⟨hdistinct, hnames, hbelow⟩ := wellNamed_directory_iff.mp h
  rw [wellNamed_directory_iff]
  refine ⟨?_, ?_, ?_⟩
  · rw [List.map_append, List.nodup_append]
    refine ⟨hdistinct.sublist (List.filter_sublist.map Prod.fst), List.nodup_singleton _, ?_⟩
    intro other hother same hsame
    obtain ⟨e, he, rfl⟩ := List.mem_map.mp hother
    rw [List.mem_singleton.mp hsame]
    simpa using (List.mem_filter.mp he).2
  · intro e he
    rcases List.mem_append.mp he with he | he
    · exact hnames e (List.mem_filter.mp he).1
    · rw [List.mem_singleton.mp he]
      exact hname
  · intro e he
    rcases List.mem_append.mp he with he | he
    · exact hbelow e (List.mem_filter.mp he).1
    · rw [List.mem_singleton.mp he]
      exact hnew

theorem wellNamed_modify {entries : List (String × FileTree)} {name : String}
    {f : FileTree → FileTree} (h : (directory entries).WellNamed)
    (hf : ∀ e ∈ entries, (f e.2).WellNamed) :
    (directory (entries.map fun e ↦ if e.1 == name then (name, f e.2) else e)).WellNamed := by
  obtain ⟨hdistinct, hnames, hbelow⟩ := wellNamed_directory_iff.mp h
  have hkey : ∀ e : String × FileTree,
      (if e.1 == name then (name, f e.2) else e).1 = e.1 := by
    intro e
    by_cases he : e.1 = name
    · rw [if_pos (beq_iff_eq.mpr he), he]
    · rw [if_neg (mt beq_iff_eq.mp he)]
  rw [wellNamed_directory_iff, List.map_map, Function.comp_def]
  simp only [hkey, List.forall_mem_map]
  refine ⟨hdistinct, hnames, fun e he ↦ ?_⟩
  by_cases hfirst : e.1 = name
  · rw [if_pos (beq_iff_eq.mpr hfirst)]
    exact hf e he
  · rw [if_neg (mt beq_iff_eq.mp hfirst)]
    exact hbelow e he

/-- To put something under names keeps all names as they have to be. -/
theorem WellNamed.put {t new : FileTree} {names : List String} (h : t.WellNamed)
    (hnew : new.WellNamed) (hnames : ∀ n ∈ names, Path.IsName n) :
    (put new names t).WellNamed := by
  induction names generalizing t with
  | nil => exact hnew
  | cons name names ih =>
    obtain ⟨hname, hrest⟩ := List.forall_mem_cons.mp hnames
    cases t with
    | file content =>
      cases names with
      | nil => exact h
      | cons next names => exact h
    | directory entries =>
      by_cases hlast : names = []
      · subst hlast
        exact wellNamed_replace h hname hnew
      · rw [put_cons new hlast]
        exact wellNamed_modify h fun e he ↦
          ih ((wellNamed_directory_iff.mp h).2.2 e he) hrest

end FileTree

namespace FileSystem

variable {before after : FileSystem} {dir : List String} {name : String} {content : List UInt8}
  {p : Path}

/-! ### To write a file again -/

theorem wellNamed_of_write (h : before.root.WellNamed)
    (hwrite : before.write p content = .ok after) : after.root.WellNamed := by
  obtain ⟨t, htarget, -, -, -, rfl⟩ := write_eq_ok_iff.mp hwrite
  obtain ⟨-, hview, hname, -⟩ := target_eq_ok htarget
  obtain ⟨entries, hentries⟩ := FileTree.view_eq_directory_iff.mp hview
  refine h.put (.file content) fun n hn ↦ ?_
  rcases List.mem_append.mp hn with hn | hn
  · exact (h.of_find? hentries).2 n hn
  · rw [List.mem_singleton.mp hn]
    exact hname

theorem exists_write_again (hwrite : before.write p content = .ok after) (content' : List UInt8) :
    ∃ last, after.write p content' = .ok last := by
  obtain ⟨t, htarget, hslash, hlength, hold, rfl⟩ := write_eq_ok_iff.mp hwrite
  have hreplaces : Replaces before (before.putAt t (.file content)) t.place (.file content) :=
    replaces_putAt (target_eq_ok htarget).2.1 hold fun _ _ ↦ rfl
  refine ⟨_, write_eq_ok_iff.mpr ⟨t, (hreplaces.grows hold).target htarget, hslash, hlength, ?_,
    rfl⟩⟩
  rw [hreplaces.viewAt, if_pos rfl]
  nofun

/-! ### Paths that do not come by -/

/-- A path comes by a place: it leads there, or it would have to lead on from there. -/
def ComesBy (fs : FileSystem) (p : Path) (place : List String) : Prop :=
  ∃ front, front <+: (fs.start p).2 ∧ front.foldlM fs.follow (fs.start p).1 = .ok place

instance (fs : FileSystem) (p : Path) (place : List String) : Decidable (fs.ComesBy p place) :=
  decidable_of_iff
    (∃ front ∈ (fs.start p).2.inits, front.foldlM fs.follow (fs.start p).1 = .ok place) (by
      simp only [ComesBy, List.mem_inits])

theorem comesBy_of_resolve {fs : FileSystem} {place : List String}
    (h : fs.resolve p = .ok place) : fs.ComesBy p place :=
  ⟨_, List.prefix_refl _, (resolve_eq_ok_iff.mp h).2⟩

namespace Replaces

/-- Following a segment looks at two places, and one that has something new in it is seen only on
the way to it. -/
theorem follow_eq (h : Replaces before after (dir ++ [name]) (.file content))
    (hname : after.follow dir name = .ok (dir ++ [name])) {place : List String} {segment : String}
    (hplace : place ≠ dir ++ [name]) (hnext : after.follow place segment ≠ .ok (dir ++ [name])) :
    after.follow place segment = before.follow place segment := by
  have hview : after.viewAt place = before.viewAt place := by rw [h.viewAt, if_neg hplace]
  have hview' : after.viewAt (place ++ [segment]) = before.viewAt (place ++ [segment]) := by
    rw [h.viewAt, if_neg]
    intro heq
    obtain ⟨rfl, hsegment⟩ := List.append_inj' heq rfl
    rw [List.singleton_inj.mp hsegment] at hnext
    exact hnext hname
  rw [follow_eq_view, follow_eq_view, hview, hview']

theorem foldlM_follow_eq (h : Replaces before after (dir ++ [name]) (.file content))
    (hname : after.follow dir name = .ok (dir ++ [name])) {segments place : List String}
    (hpasses : ∀ front, front <+: segments →
      front.foldlM after.follow place ≠ .ok (dir ++ [name])) :
    segments.foldlM after.follow place = segments.foldlM before.follow place := by
  induction segments generalizing place with
  | nil => rfl
  | cons segment segments ih =>
    have hplace : place ≠ dir ++ [name] := by
      rintro rfl
      exact hpasses [] (List.nil_prefix) rfl
    have hnext : after.follow place segment ≠ .ok (dir ++ [name]) := by
      intro hnext
      refine hpasses [segment] (List.prefix_append [segment] segments) ?_
      rw [List.foldlM_cons, hnext]
      rfl
    rw [List.foldlM_cons, List.foldlM_cons, ← h.follow_eq hname hplace hnext]
    cases hfollow : after.follow place segment with
    | error e => rfl
    | ok next =>
      refine ih fun front hfront ↦ ?_
      have hcons := hpasses (segment :: front) (List.cons_prefix_cons.mpr ⟨rfl, hfront⟩)
      rwa [List.foldlM_cons, hfollow] at hcons

theorem start_eq {entry : FileTree.Entry} {place : List String}
    (h : Replaces before after place entry) (p : Path) : after.start p = before.start p := by
  unfold FileSystem.start
  rw [h.workingDirectory]

theorem resolve_eq (h : Replaces before after (dir ++ [name]) (.file content))
    (hname : after.follow dir name = .ok (dir ++ [name]))
    (hp : ¬after.ComesBy p (dir ++ [name])) : after.resolve p = before.resolve p := by
  have hfold := h.foldlM_follow_eq hname fun front hfront hlast ↦ hp ⟨front, hfront, hlast⟩
  unfold resolve
  dsimp only
  rw [hfold, h.start_eq p]

/-- What is read from a path that does not come by is what was read. -/
theorem read_eq (h : Replaces before after (dir ++ [name]) (.file content))
    (hname : after.follow dir name = .ok (dir ++ [name]))
    (hp : ¬after.ComesBy p (dir ++ [name])) : after.read p = before.read p := by
  rw [read_eq_view, read_eq_view, ← h.resolve_eq hname hp]
  cases hplace : after.resolve p with
  | error e => rfl
  | ok place =>
    have hne : place ≠ dir ++ [name] := by
      rintro rfl
      exact hp (comesBy_of_resolve hplace)
    simp only [Except.bind, h.viewAt, if_neg hne]

end Replaces

end FileSystem

/-! ### Artifacts -/

namespace Artifact

open FileSystem

variable {before after : FileSystem} {dir : List String} {name : String} {content : List UInt8}
  {p : Path} {a : Artifact} {artifacts : List Artifact}

theorem path_of_ofPath? (h : ofPath? p = some a) : a.path = p := by
  obtain ⟨kind, -, rfl⟩ := Option.map_eq_some_iff.mp h
  rfl

/-- What is no name of an artifact is not the last name on the way to one. -/
theorem ne_of_ofPath? (hnone : ArtifactKind.ofFileName? name = none) {last : String}
    (hlast : p.segments.getLast? = some last) (hname : Path.IsName last)
    (h : (ofPath? p).isSome) : last ≠ name := by
  rintro rfl
  rw [ofPath?, ArtifactKind.ofPath?, Path.fileName?_eq_some hlast hname, Option.bind_some,
    hnone] at h
  cases h

/-- The way to an artifact below a directory does not end in such a name. -/
theorem append_ne_of_mem_walk (hnone : ArtifactKind.ofFileName? name = none) {place : List String}
    {entries : List (String × FileTree)} (hnamed : (FileTree.directory entries).WellNamed)
    {names : List String} (hmem : names ∈ (FileTree.directory entries).walk)
    (h : (ofPath? (p.below names)).isSome) : place ++ names ≠ dir ++ [name] := by
  obtain ⟨last, hlast, hname⟩ := exists_getLast?_of_mem_walk hnamed hmem
  have hne : names ≠ [] := by
    rintro rfl
    cases hlast
  intro heq
  refine ne_of_ofPath? hnone ((Path.getLast?_below p hne).trans hlast) hname h ?_
  have hend := congrArg List.getLast? heq
  rw [List.getLast?_append_of_ne_nil _ hne, List.getLast?_concat, hlast] at hend
  exact Option.some.inj hend

/-- A walk comes upon the same artifacts as before. -/
theorem filterMap_walk_eq {place : List String} {entries entries' : List (String × FileTree)}
    (h : Replaces before after (dir ++ [name]) (.file content))
    (hnone : ArtifactKind.ofFileName? name = none)
    (hentries : before.root.find? place = some (.directory entries))
    (hentries' : after.root.find? place = some (.directory entries'))
    (hnamed : (FileTree.directory entries).WellNamed)
    (hnamed' : (FileTree.directory entries').WellNamed) :
    (FileTree.directory entries').walk.filterMap (fun names ↦ ofPath? (p.below names)) =
      (FileTree.directory entries).walk.filterMap fun names ↦ ofPath? (p.below names) := by
  have hview (names : List String) (hne : place ++ names ≠ dir ++ [name]) :
      (FileTree.directory entries').view names = (FileTree.directory entries).view names := by
    have hsame := h.viewAt (place ++ names)
    rw [if_neg hne] at hsame
    simpa only [viewAt, FileTree.view, FileTree.find?_append, hentries, hentries',
      Option.bind_some] using hsame
  have hfilter (walk : List (List String)) :
      (walk.filter fun names ↦ (ofPath? (p.below names)).isSome).filterMap
        (fun names ↦ ofPath? (p.below names)) =
      walk.filterMap fun names ↦ ofPath? (p.below names) := by
    rw [List.filterMap_filter]
    congr 1
    funext names
    cases ofPath? (p.below names) <;> rfl
  rw [← hfilter, ← hfilter (FileTree.directory entries).walk]
  congr 1
  refine List.Pairwise.eq_of_mem_iff ((FileTree.pairwise_walk hnamed').filter _)
    ((FileTree.pairwise_walk hnamed).filter _) fun names ↦ ?_
  rw [List.mem_filter, List.mem_filter, and_congr_left_iff]
  intro hsome
  constructor
  · intro hmem
    have hsame := hview names (append_ne_of_mem_walk hnone hnamed' hmem hsome)
    rw [FileTree.mem_walk_iff hnamed', FileTree.leadsToVisibleFile_iff_view, hsame] at hmem
    rwa [FileTree.mem_walk_iff hnamed, FileTree.leadsToVisibleFile_iff_view]
  · intro hmem
    have hsame := hview names (append_ne_of_mem_walk hnone hnamed hmem hsome)
    rw [FileTree.mem_walk_iff hnamed, FileTree.leadsToVisibleFile_iff_view, ← hsame] at hmem
    rwa [FileTree.mem_walk_iff hnamed', FileTree.leadsToVisibleFile_iff_view]

/-- A path stands for the same artifacts as before. -/
theorem ofArgument_of_replaces (h : Replaces before after (dir ++ [name]) (.file content))
    (hold : before.viewAt (dir ++ [name]) ≠ some .directory)
    (hnone : ArtifactKind.ofFileName? name = none) (hnamed : before.root.WellNamed)
    (hnamed' : after.root.WellNamed) (hp : ofArgument before p = .ok artifacts) :
    ofArgument after p = .ok artifacts := by
  cases hfind : before.find p with
  | error e => cases hp.symm.trans (ofArgument_of_error hfind)
  | ok t =>
    obtain ⟨place, hplace, ht⟩ := find_eq_ok_iff.mp hfind
    have hplace' := (h.grows hold).resolve hplace
    cases t with
    | file bytes =>
      have hview' : ∃ bytes', after.viewAt place = some (.file bytes') := by
        by_cases hsame : place = dir ++ [name]
        · exact ⟨content, by rw [h.viewAt, if_pos hsame]⟩
        · exact ⟨bytes, by rw [h.viewAt, if_neg hsame, viewAt, FileTree.view_eq_file_iff, ht]⟩
      obtain ⟨bytes', hbytes'⟩ := hview'
      have hfind' : after.find p = .ok (.file bytes') :=
        find_eq_ok_iff.mpr ⟨place, hplace', FileTree.view_eq_file_iff.mp hbytes'⟩
      rw [ofArgument_of_file hfind', ← ofArgument_of_file hfind, hp]
    | directory entries =>
      have hview : before.viewAt place = some .directory :=
        FileTree.view_eq_directory_iff.mpr ⟨entries, ht⟩
      obtain ⟨entries', ht'⟩ :=
        FileTree.view_eq_directory_iff.mp ((h.grows hold).directories place hview)
      have hfind' : after.find p = .ok (.directory entries') :=
        find_eq_ok_iff.mpr ⟨place, hplace', ht'⟩
      rw [ofArgument_of_directory hfind, List.filterMap_map] at hp
      rw [ofArgument_of_directory hfind', List.filterMap_map, ← hp]
      exact congrArg Except.ok (filterMap_walk_eq h hnone ht ht' (hnamed.of_find? ht).1
        (hnamed'.of_find? ht').1)

theorem ofArguments_of_replaces (h : Replaces before after (dir ++ [name]) (.file content))
    (hold : before.viewAt (dir ++ [name]) ≠ some .directory)
    (hnone : ArtifactKind.ofFileName? name = none) (hnamed : before.root.WellNamed)
    (hnamed' : after.root.WellNamed) {ps : List Path}
    (hps : ofArguments before ps = .ok artifacts) : ofArguments after ps = .ok artifacts := by
  obtain ⟨blocks, hblocks, rfl⟩ := ofArguments_eq_ok_iff.mp hps
  refine ofArguments_eq_ok_iff.mpr ⟨blocks, hblocks.imp fun p block hp ↦ ?_, rfl⟩
  exact ofArgument_of_replaces h hold hnone hnamed hnamed' hp

theorem ofPath?_of_mem_ofArguments {fs : FileSystem} {ps : List Path}
    (h : ofArguments fs ps = .ok artifacts) (ha : a ∈ artifacts) : ofPath? a.path = some a := by
  obtain ⟨blocks, hblocks, rfl⟩ := ofArguments_eq_ok_iff.mp h
  obtain ⟨block, hblock, ha⟩ := List.mem_flatten.mp ha
  obtain ⟨p, -, hp⟩ := Pointwise.exists_of_mem_right hblocks hblock
  obtain ⟨files, -, rfl⟩ := map_eq_ok.mp hp
  obtain ⟨q, -, hq⟩ := List.mem_filterMap.mp ha
  rw [path_of_ofPath? hq, hq]

/-- What is read from an artifact is what was read. -/
theorem read_of_replaces (h : Replaces before after (dir ++ [name]) (.file content))
    (hold : before.viewAt (dir ++ [name]) ≠ some .directory)
    (hnone : ArtifactKind.ofFileName? name = none) (ha : ofPath? a.path = some a)
    {bytes : List UInt8} (hread : before.read a.path = .ok bytes) :
    after.read a.path = .ok bytes := by
  obtain ⟨place, hplace, hfile⟩ := read_eq_ok_iff.mp hread
  obtain ⟨front, last, hlast, hname, rfl⟩ :=
    exists_name_of_resolve hplace (FileTree.view_eq_file_iff.mp hfile)
  have hne : front ++ [last] ≠ dir ++ [name] := by
    intro heq
    refine ne_of_ofPath? hnone hlast hname (Option.isSome_of_mem ha) ?_
    exact List.singleton_inj.mp (List.append_inj' heq rfl).2
  refine read_eq_ok_iff.mpr ⟨front ++ [last], (h.grows hold).resolve hplace, ?_⟩
  rw [h.viewAt, if_neg hne, hfile]

end Artifact

end ShutdownLint

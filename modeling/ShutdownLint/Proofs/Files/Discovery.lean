import ShutdownLint.Files.Artifact
import ShutdownLint.Proofs.Files.Walk
import ShutdownLint.Proofs.Pointwise
import ShutdownLint.Proofs.Success
import ShutdownLint.Proofs.Text.ByteOrder
/-!
What paths stand for. A file stands for itself if its name is one that is looked for, hidden or not,
and a directory for the files below it whose names are and of which no step is hidden, in the order
of their steps.
-/

set_option autoImplicit false

namespace ShutdownLint

open Success

/-! ### Kinds by name -/

theorem Text.occursIn_iff {pattern cs : List Char} :
    occursIn pattern cs = true ↔ pattern <:+: cs := by
  induction cs with
  | nil => simp [occursIn]
  | cons c cs ih =>
    rw [occursIn, Bool.or_eq_true, List.isPrefixOf_iff_prefix, ih, List.infix_cons_iff]

namespace ArtifactKind

/-- A file of this name is an artifact of this kind. The letters A to Z count as small ones. -/
def Names (name : String) : ArtifactKind → Prop
  | buildFile => "dockerfile".toList <:+: (Text.lower name).toList
  | manifest => ¬"dockerfile".toList <:+: (Text.lower name).toList ∧
    (".yml".toList <:+ (Text.lower name).toList ∨ ".yaml".toList <:+ (Text.lower name).toList)

theorem ofFileName?_eq_some_iff {name : String} {kind : ArtifactKind} :
    ofFileName? name = some kind ↔ Names name kind := by
  unfold ofFileName?
  simp only [Text.occursIn_iff, Bool.or_eq_true, List.isSuffixOf_iff_suffix]
  cases kind <;> simp only [Names] <;> split_ifs <;> simp_all

end ArtifactKind

namespace Path

/-! ### The last segment of a path -/

theorem dropIdle_append_singleton {segment : String} (h : isStep segment = true)
    (segments : List String) : dropIdle (segments ++ [segment]) = segments ++ [segment] := by
  rw [dropIdle, List.reverse_append, List.reverse_singleton, List.singleton_append,
    List.dropWhile_cons_of_neg (by simp [h]), List.reverse_cons, List.reverse_reverse]

theorem getLast?_splitLead {segments : List String} {segment : String}
    (h : segments.getLast? = some segment) (hstep : isStep segment = true) :
    (splitLead segments).2.getLast? = some segment := by
  unfold splitLead
  split
  · rwa [List.getLast?_cons_cons] at h
  · rename_i more
    cases more with
    | nil =>
      obtain rfl : "." = segment := Option.some.inj h
      exact absurd hstep (by decide)
    | cons next more => rwa [List.getLast?_cons_cons] at h
  · exact h

/-- A path whose last segment is a name ends in this name. -/
theorem fileName?_eq_some {p : Path} {name : String} (h : p.segments.getLast? = some name)
    (hname : IsName name) : p.fileName? = some name := by
  obtain ⟨front, hfront⟩ := List.getLast?_eq_some_iff.mp (getLast?_splitLead h hname.1)
  rw [fileName?, hfront, dropIdle_append_singleton hname.1, List.getLast?_concat,
    Option.filter_some, if_pos (by simpa using hname.2)]

theorem getLast?_below (p : Path) {names : List String} (h : names ≠ []) :
    (p.below names).segments.getLast? = names.getLast? := by
  unfold below
  split <;> exact List.getLast?_append_of_ne_nil _ h

end Path

namespace FileSystem

/-! ### Where paths lead -/

/-- To follow a segment needs a directory to be in. -/
theorem follow_eq_ok {fs : FileSystem} {place next : List String} {segment : String}
    (h : fs.follow place segment = .ok next) :
    ∃ entries, fs.root.find? place = some (.directory entries) ∧
      (Path.isStep segment = false ∧ next = place ∨ segment = ".." ∧ next = place.dropLast ∨
        Path.IsName segment ∧ next = place ++ [segment]) := by
  unfold follow at h
  split at h
  · cases h
  · cases h
  · rename_i entries hentries
    refine ⟨entries, hentries, ?_⟩
    split_ifs at h with hidle hup hlong hthere
    · exact Or.inl ⟨by simpa using hidle, (Except.ok.inj h).symm⟩
    · exact Or.inr (Or.inl ⟨hup, (Except.ok.inj h).symm⟩)
    · exact Or.inr (Or.inr ⟨⟨by simpa using hidle, hup⟩, (Except.ok.inj h).symm⟩)

/-- Above a directory there are directories only. -/
theorem exists_find?_dropLast {t : FileTree} {place : List String}
    {entries : List (String × FileTree)} (h : t.find? place = some (.directory entries)) :
    ∃ others, t.find? place.dropLast = some (.directory others) := by
  rcases List.eq_nil_or_concat place with rfl | ⟨front, name, rfl⟩
  · exact ⟨entries, h⟩
  · rw [List.concat_eq_append, FileTree.find?_append] at h
    obtain ⟨u, hu, hlast⟩ := Option.bind_eq_some_iff.mp h
    rw [List.concat_eq_append, List.dropLast_concat, hu]
    cases u with
    | file content => cases hlast
    | directory others => exact ⟨others, rfl⟩

theorem find?_of_find {fs : FileSystem} {p : Path} {t : FileTree} (h : fs.find p = .ok t) :
    ∃ place, fs.resolve p = .ok place ∧ fs.root.find? place = some t := by
  obtain ⟨place, hplace, h⟩ := bind_eq_ok.mp h
  refine ⟨place, hplace, ?_⟩
  split at h
  · rename_i u hu
    rw [hu, pure_eq_ok.mp h]
  · cases h

theorem resolve_eq_ok {fs : FileSystem} {p : Path} {place : List String}
    (h : fs.resolve p = .ok place) : p.segments ≠ [] ∧
      (fs.start p).2.foldlM fs.follow (fs.start p).1 = .ok place := by
  obtain ⟨⟨⟩, hcheck, hfold⟩ := bind_eq_ok.mp h
  refine ⟨fun hnil ↦ ?_, hfold⟩
  have htext : p.text = "" := by
    rw [Path.text, hnil]
    rfl
  simp [checkPath, htext] at hcheck

theorem getLast?_start (fs : FileSystem) (p : Path) :
    (fs.start p).2.getLast? = p.segments.getLast? := by
  unfold start
  split
  · rename_i segment more h
    rw [h, List.getLast?_cons_cons]
  · rfl

/-- A path that leads to a file ends in the name of the file. -/
theorem exists_name_of_resolve {fs : FileSystem} {p : Path} {place : List String}
    {content : List UInt8} (hplace : fs.resolve p = .ok place)
    (hfile : fs.root.find? place = some (.file content)) :
    ∃ front name, p.segments.getLast? = some name ∧ Path.IsName name ∧ place = front ++ [name] := by
  obtain ⟨hne, hfold⟩ := resolve_eq_ok hplace
  obtain ⟨last, hlast⟩ := Option.ne_none_iff_exists'.mp (mt List.getLast?_eq_none_iff.mp hne)
  have hstart := hlast
  rw [← fs.getLast?_start p] at hstart
  obtain ⟨front, hfront⟩ := List.getLast?_eq_some_iff.mp hstart
  rw [hfront, List.foldlM_append] at hfold
  obtain ⟨before, -, hstep⟩ := bind_eq_ok.mp hfold
  have hfollow : fs.follow before last = .ok place := by simpa using hstep
  -- The other two kinds of segments lead to directories only.
  obtain ⟨entries, hentries, ⟨-, rfl⟩ | ⟨-, rfl⟩ | ⟨hname, hnext⟩⟩ := follow_eq_ok hfollow
  · cases hfile.symm.trans hentries
  · obtain ⟨others, hothers⟩ := exists_find?_dropLast hentries
    cases hfile.symm.trans hothers
  · exact ⟨before, last, hlast, hname, hnext⟩

theorem exists_name_of_find {fs : FileSystem} {p : Path} {content : List UInt8}
    (h : fs.find p = .ok (.file content)) :
    ∃ name, p.segments.getLast? = some name ∧ Path.IsName name := by
  obtain ⟨place, hplace, hfile⟩ := find?_of_find h
  obtain ⟨front, name, hlast, hname, -⟩ := exists_name_of_resolve hplace hfile
  exact ⟨name, hlast, hname⟩

end FileSystem

namespace Artifact

/-! ### The files that paths stand for -/

/-- The order of names that lead to files: of the first names that differ, the one with the lesser
bytes comes first. -/
def Precedes (names others : List String) : Prop :=
  List.Lex (fun a b ↦ Text.Utf8.encode a < Text.Utf8.encode b) names others

theorem precedes_iff {names others : List String} : Precedes names others ↔ names < others := by
  simp only [Precedes, Text.Utf8.encode_lt_encode_iff]
  exact Iff.rfl

/-- The artifact has this path, and the kind of files of this name. -/
def IsNamed (a : Artifact) (path : Path) (name : String) : Prop :=
  a.path = path ∧ a.kind.Names name

theorem ofPath?_eq_some_iff {p : Path} {name : String} (h : p.segments.getLast? = some name)
    (hname : Path.IsName name) {a : Artifact} :
    ofPath? p = some a ↔ a.IsNamed p name := by
  rw [ofPath?, ArtifactKind.ofPath?, Path.fileName?_eq_some h hname, Option.bind_some,
    Option.map_eq_some_iff]
  constructor
  · rintro ⟨kind, hkind, rfl⟩
    exact ⟨rfl, ArtifactKind.ofFileName?_eq_some_iff.mp hkind⟩
  · rintro ⟨rfl, hkind⟩
    exact ⟨a.kind, ArtifactKind.ofFileName?_eq_some_iff.mpr hkind, rfl⟩

/-- The artifacts that a path stands for. -/
inductive Discovers (fs : FileSystem) (p : Path) : List Artifact → Prop
  /-- A file stands for itself if its name is that of an artifact, even if it is hidden. -/
  | file {content : List UInt8} {name : String} {artifacts : List Artifact}
      (hfind : fs.find p = .ok (.file content)) (hname : p.segments.getLast? = some name)
      (hmem : ∀ a, a ∈ artifacts ↔ a.IsNamed p name) (hlength : artifacts.length ≤ 1) :
      Discovers fs p artifacts
  /-- A directory stands for the files below it that are not hidden and have the name of an
  artifact, each once and in order. -/
  | directory {entries : List (String × FileTree)} {found : List (List String)}
      {artifacts : List Artifact} (hfind : fs.find p = .ok (.directory entries))
      (hfound : ∀ names, names ∈ found ↔ (FileTree.directory entries).LeadsToVisibleFile names ∧
        ∃ name kind, names.getLast? = some name ∧ ArtifactKind.Names name kind)
      (hsorted : found.Pairwise Precedes)
      (hartifacts : List.Forall₂ (fun names a ↦ ∃ name, names.getLast? = some name ∧
        a.IsNamed (p.below names) name) found artifacts) :
      Discovers fs p artifacts

theorem ofArgument_of_file {fs : FileSystem} {p : Path} {content : List UInt8}
    (hfind : fs.find p = .ok (.file content)) : ofArgument fs p = .ok (ofPath? p).toList := by
  have hone : [p].filterMap ofPath? = (ofPath? p).toList := by
    cases h : ofPath? p <;> simp [h]
  rw [ofArgument, candidates, hfind, ← hone]
  rfl

theorem ofArgument_of_directory {fs : FileSystem} {p : Path} {entries : List (String × FileTree)}
    (hfind : fs.find p = .ok (.directory entries)) :
    ofArgument fs p =
      .ok (((FileTree.directory entries).walk.map p.below).filterMap ofPath?) := by
  rw [ofArgument, candidates, hfind]
  rfl

theorem ofArgument_of_error {fs : FileSystem} {p : Path} {e : FileError}
    (hfind : fs.find p = .error e) : ofArgument fs p = .error ⟨p, e⟩ := by
  rw [ofArgument, candidates, hfind]
  rfl

theorem exists_ofArgument_eq_ok_iff {fs : FileSystem} {p : Path} :
    (∃ artifacts, ofArgument fs p = .ok artifacts) ↔ ∃ t, fs.find p = .ok t := by
  cases hfind : fs.find p with
  | error e =>
    rw [ofArgument_of_error hfind]
    exact iff_of_false nofun nofun
  | ok t =>
    refine iff_of_true ?_ ⟨t, rfl⟩
    cases t with
    | file content => exact ⟨_, ofArgument_of_file hfind⟩
    | directory entries => exact ⟨_, ofArgument_of_directory hfind⟩

theorem discovers_file {fs : FileSystem} {p : Path} {content : List UInt8}
    (hfind : fs.find p = .ok (.file content)) : Discovers fs p (ofPath? p).toList := by
  obtain ⟨name, hlast, hname⟩ := FileSystem.exists_name_of_find hfind
  refine .file hfind hlast (fun a ↦ ?_) ?_
  · rw [Option.mem_toList, ofPath?_eq_some_iff hlast hname]
  · cases ofPath? p <;> simp

/-- On the way to a file below a directory there is at least one name. -/
theorem exists_getLast?_of_mem_walk {entries : List (String × FileTree)}
    (h : (FileTree.directory entries).WellNamed) {names : List String}
    (hnames : names ∈ (FileTree.directory entries).walk) :
    ∃ name, names.getLast? = some name ∧ Path.IsName name := by
  obtain ⟨⟨content, hfind⟩, -⟩ := (FileTree.mem_walk_iff h).mp hnames
  have hne : names ≠ [] := by
    rintro rfl
    cases hfind
  obtain ⟨name, hname⟩ := Option.ne_none_iff_exists'.mp (mt List.getLast?_eq_none_iff.mp hne)
  exact ⟨name, hname, (h.of_find? hfind).2 name (List.mem_of_getLast? hname)⟩

theorem ofPath?_below_eq_some_iff {p : Path} {names : List String} {name : String}
    (h : names.getLast? = some name) (hname : Path.IsName name) {a : Artifact} :
    ofPath? (p.below names) = some a ↔ a.IsNamed (p.below names) name := by
  have hne : names ≠ [] := by
    rintro rfl
    cases h
  exact ofPath?_eq_some_iff ((Path.getLast?_below p hne).trans h) hname

theorem discovers_directory {fs : FileSystem} {p : Path} {entries : List (String × FileTree)}
    (h : (FileTree.directory entries).WellNamed) (hfind : fs.find p = .ok (.directory entries)) :
    Discovers fs p (((FileTree.directory entries).walk.map p.below).filterMap ofPath?) := by
  have hfound (names : List String) :
      names ∈ (FileTree.directory entries).walk.filter
          (fun names ↦ (ofPath? (p.below names)).isSome) ↔
        (FileTree.directory entries).LeadsToVisibleFile names ∧
          ∃ name kind, names.getLast? = some name ∧ ArtifactKind.Names name kind := by
    rw [List.mem_filter, FileTree.mem_walk_iff h, and_congr_right_iff, ← FileTree.mem_walk_iff h]
    intro hnames
    obtain ⟨name, hlast, hname⟩ := exists_getLast?_of_mem_walk h hnames
    rw [Option.isSome_iff_exists]
    constructor
    · rintro ⟨a, ha⟩
      exact ⟨name, a.kind, hlast, ((ofPath?_below_eq_some_iff hlast hname).mp ha).2⟩
    · rintro ⟨other, kind, hother, hkind⟩
      obtain rfl : name = other := Option.some.inj (hlast.symm.trans hother)
      exact ⟨⟨_, kind⟩, (ofPath?_below_eq_some_iff hlast hname).mpr ⟨rfl, hkind⟩⟩
  rw [List.filterMap_map]
  refine .directory hfind hfound (((FileTree.pairwise_walk h).imp precedes_iff.mpr).filter _) ?_
  have hall := (List.forall₂_and_left (p := (· ∈ (FileTree.directory entries).walk)) _ _).mpr
    ⟨fun names hnames ↦ (List.mem_filter.mp hnames).1,
      Pointwise.forall₂_filterMap (fun names ↦ ofPath? (p.below names)) _⟩
  refine hall.imp fun names a ⟨hnames, ha⟩ ↦ ?_
  obtain ⟨name, hlast, hname⟩ := exists_getLast?_of_mem_walk h hnames
  exact ⟨name, hlast, (ofPath?_below_eq_some_iff hlast hname).mp ha⟩

/-- A path that leads somewhere stands for artifacts, and others do not. -/
theorem ofArgument_cases {fs : FileSystem} (h : fs.root.WellNamed) (p : Path) :
    (∃ t artifacts, fs.find p = .ok t ∧ ofArgument fs p = .ok artifacts ∧
        Discovers fs p artifacts) ∨
      ∃ e, fs.find p = .error e ∧ ofArgument fs p = .error ⟨p, e⟩ := by
  cases hfind : fs.find p with
  | error e => exact Or.inr ⟨e, rfl, ofArgument_of_error hfind⟩
  | ok t =>
    cases t with
    | file content =>
      exact Or.inl ⟨_, _, rfl, ofArgument_of_file hfind, discovers_file hfind⟩
    | directory entries =>
      obtain ⟨place, -, hplace⟩ := FileSystem.find?_of_find hfind
      have hnamed := (h.of_find? hplace).1
      exact Or.inl ⟨_, _, rfl, ofArgument_of_directory hfind, discovers_directory hnamed hfind⟩

theorem discovers_of_ofArgument {fs : FileSystem} (h : fs.root.WellNamed) {p : Path}
    {artifacts : List Artifact} (hp : ofArgument fs p = .ok artifacts) :
    Discovers fs p artifacts := by
  rcases ofArgument_cases h p with ⟨t, others, -, hothers, hdiscovers⟩ | ⟨e, -, he⟩
  · obtain rfl := Except.ok.inj (hothers.symm.trans hp)
    exact hdiscovers
  · cases he.symm.trans hp

/-! ### The law -/

theorem ofArguments_eq_ok_iff {fs : FileSystem} {ps : List Path} {artifacts : List Artifact} :
    ofArguments fs ps = .ok artifacts ↔ ∃ blocks,
      List.Forall₂ (fun p block ↦ ofArgument fs p = .ok block) ps blocks ∧
        blocks.flatten = artifacts := by
  induction ps generalizing artifacts with
  | nil => simp [ofArguments]
  | cons p ps ih =>
    simp only [ofArguments, bind_eq_ok, pure_eq_ok, ih, List.forall₂_cons_left_iff]
    constructor
    · rintro ⟨first, hfirst, _, ⟨blocks, hblocks, rfl⟩, rfl⟩
      exact ⟨first :: blocks, ⟨first, blocks, hfirst, hblocks, rfl⟩, rfl⟩
    · rintro ⟨_, ⟨first, blocks, hfirst, hblocks, rfl⟩, rfl⟩
      exact ⟨first, hfirst, blocks.flatten, ⟨blocks, hblocks, rfl⟩, rfl⟩

/-- Paths stand for some artifacts exactly if each of them leads somewhere. -/
theorem exists_ofArguments_eq_ok_iff {fs : FileSystem} {ps : List Path} :
    (∃ artifacts, ofArguments fs ps = .ok artifacts) ↔ ∀ p ∈ ps, ∃ t, fs.find p = .ok t := by
  simp only [← exists_ofArgument_eq_ok_iff, ← Pointwise.exists_forall₂_iff]
  constructor
  · rintro ⟨artifacts, hartifacts⟩
    obtain ⟨blocks, hblocks, -⟩ := ofArguments_eq_ok_iff.mp hartifacts
    exact ⟨blocks, hblocks⟩
  · rintro ⟨blocks, hblocks⟩
    exact ⟨blocks.flatten, ofArguments_eq_ok_iff.mpr ⟨blocks, hblocks, rfl⟩⟩

/-- Paths stand for artifacts exactly if each of them leads somewhere, and then for the artifacts
that each of them stands for, in the order of the paths. -/
theorem ofArguments_discovers (fs : FileSystem) (h : fs.root.WellNamed) (ps : List Path) :
    ((∃ artifacts, ofArguments fs ps = .ok artifacts) ↔ ∀ p ∈ ps, ∃ t, fs.find p = .ok t) ∧
      ∀ artifacts, ofArguments fs ps = .ok artifacts →
        ∃ blocks, List.Forall₂ (Discovers fs) ps blocks ∧ blocks.flatten = artifacts := by
  refine ⟨exists_ofArguments_eq_ok_iff, fun artifacts hartifacts ↦ ?_⟩
  obtain ⟨blocks, hblocks, rfl⟩ := ofArguments_eq_ok_iff.mp hartifacts
  exact ⟨blocks, hblocks.imp fun p block ↦ discovers_of_ofArgument h, rfl⟩

/-- A directory with the name of a build file, a hidden one, and two of which the names stand in
another order than the paths below them. -/
def shelves : List (String × FileTree) :=
  [("a-b", .directory [("x.yaml", .file [])]),
    ("a", .directory [("x.YML", .file []), (".y.yaml", .file [])]),
    (".git", .directory [("config.yaml", .file [])]),
    ("Dockerfile.d", .directory [("notes.txt", .file []), ("api.dockerfile.yaml", .file [])])]

theorem ofArguments_discovers_shelves :
    (FileTree.directory shelves).WellNamed ∧
      ∃ blocks, List.Forall₂ (Discovers ⟨.directory shelves, []⟩)
        [.ofText "./", .ofText ".git", .ofText "a/.y.yaml"] blocks ∧ blocks.flatten =
          [⟨.ofText "./Dockerfile.d/api.dockerfile.yaml", .buildFile⟩,
            ⟨.ofText "./a/x.YML", .manifest⟩, ⟨.ofText "./a-b/x.yaml", .manifest⟩,
            ⟨.ofText ".git/config.yaml", .manifest⟩, ⟨.ofText "a/.y.yaml", .manifest⟩] := by
  have hnamed : (FileTree.directory shelves).WellNamed := by
    simp [shelves, FileTree.wellNamed_directory_iff, FileTree.WellNamed.file, Path.IsName,
      Path.isStep]
  have hwalk : (FileTree.directory shelves).walk = [["Dockerfile.d", "api.dockerfile.yaml"],
      ["Dockerfile.d", "notes.txt"], ["a", "x.YML"], ["a-b", "x.yaml"]] := by
    simp [shelves, FileTree.walk, FileTree.branches, FileTree.isHidden, FileTree.inOrder,
      List.mergeSort, List.MergeSort.Internal.splitInTwo]
  have hhidden : (FileTree.directory [("config.yaml", .file [])]).walk = [["config.yaml"]] := by
    simp [FileTree.walk, FileTree.branches, FileTree.isHidden]
  have hrun : ofArguments ⟨.directory shelves, []⟩
      [.ofText "./", .ofText ".git", .ofText "a/.y.yaml"] = .ok _ :=
    ofArguments_eq_ok_iff.mpr ⟨_, .cons (ofArgument_of_directory rfl)
      (.cons (ofArgument_of_directory rfl) (.cons (ofArgument_of_file rfl) .nil)), rfl⟩
  rw [hwalk, hhidden] at hrun
  obtain ⟨blocks, hblocks, hflatten⟩ := (ofArguments_discovers _ hnamed _).2 _ hrun
  exact ⟨hnamed, blocks, hblocks, hflatten.trans (by decide +kernel)⟩

end Artifact

end ShutdownLint

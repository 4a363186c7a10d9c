import ShutdownLint.Proofs.Files.Discovery
/-!
What there is in the places of a file system. A view of a place tells a file with its content from a
directory, but not what is in the directory, since that is seen from other places. So whatever is
done to a file system is told by the places that look different afterwards, and to put something
into a directory changes the look of one place.
-/

set_option autoImplicit false

namespace ShutdownLint

open Success

namespace FileTree

/-- What a place looks like that has something in it. -/
inductive Entry where
  | file (content : List UInt8)
  | directory
  deriving DecidableEq

def entry : FileTree → Entry
  | file content => .file content
  | directory _ => .directory

/-- What there is where names lead to. -/
def view (t : FileTree) (names : List String) : Option Entry :=
  (t.find? names).map entry

@[simp] theorem view_nil (t : FileTree) : t.view [] = some t.entry :=
  rfl

theorem view_eq_directory_iff {t : FileTree} {names : List String} :
    t.view names = some .directory ↔ ∃ entries, t.find? names = some (directory entries) := by
  rw [view, Option.map_eq_some_iff]
  constructor
  · rintro ⟨u, hu, hentry⟩
    cases u with
    | file content => cases hentry
    | directory entries => exact ⟨entries, hu⟩
  · rintro ⟨entries, hentries⟩
    exact ⟨_, hentries, rfl⟩

theorem view_eq_file_iff {t : FileTree} {names : List String} {content : List UInt8} :
    t.view names = some (.file content) ↔ t.find? names = some (file content) := by
  rw [view, Option.map_eq_some_iff]
  constructor
  · rintro ⟨u, hu, hentry⟩
    cases u with
    | file other => rw [hu, Entry.file.inj hentry]
    | directory entries => cases hentry
  · intro h
    exact ⟨_, h, rfl⟩

theorem leadsToVisibleFile_iff_view {t : FileTree} {names : List String} :
    t.LeadsToVisibleFile names ↔
      (∃ content, t.view names = some (.file content)) ∧ ∀ n ∈ names, isHidden n = false := by
  simp only [LeadsToVisibleFile, view_eq_file_iff]

/-- Below what is no directory there is nothing. -/
theorem view_append_eq_none {t : FileTree} {names : List String}
    (h : t.view names ≠ some .directory) (name : String) (rest : List String) :
    t.view (names ++ name :: rest) = none := by
  rw [view, find?_append]
  match hfind : t.find? names with
  | none => rfl
  | some (file content) => rfl
  | some (directory entries) => exact absurd (view_eq_directory_iff.mpr ⟨entries, hfind⟩) h

/-! ### To put something into a directory -/

theorem lookup_cons (other name : String) (t : FileTree) (entries : List (String × FileTree)) :
    ((name, t) :: entries).lookup other =
      if other = name then some t else entries.lookup other := by
  rw [List.lookup_cons]
  by_cases h : other = name
  · rw [if_pos h, beq_iff_eq.mpr h]
  · rw [if_neg h, beq_false_of_ne h]

theorem lookup_replace (entries : List (String × FileTree)) (name other : String)
    (new : FileTree) : (entries.filter (·.1 != name) ++ [(name, new)]).lookup other =
      if other = name then some new else entries.lookup other := by
  induction entries with
  | nil => exact lookup_cons other name new []
  | cons e entries ih =>
    obtain ⟨first, t⟩ := e
    rw [lookup_cons]
    by_cases hfirst : first = name
    · subst hfirst
      rw [List.filter_cons_of_neg (by simp), ih]
      by_cases h : other = first
      · rw [if_pos h, if_pos h]
      · rw [if_neg h, if_neg h, if_neg h]
    · rw [List.filter_cons_of_pos (by simpa using hfirst), List.cons_append, lookup_cons, ih]
      by_cases h : other = first
      · subst h
        rw [if_pos rfl, if_neg hfirst, if_pos rfl]
      · rw [if_neg h, if_neg h]

theorem lookup_modify (entries : List (String × FileTree)) (name other : String)
    (f : FileTree → FileTree) :
    (entries.map fun e ↦ if e.1 == name then (name, f e.2) else e).lookup other =
      if other = name then (entries.lookup name).map f else entries.lookup other := by
  induction entries with
  | nil => exact (ite_self none).symm
  | cons e entries ih =>
    obtain ⟨first, t⟩ := e
    rw [List.map_cons, lookup_cons, lookup_cons]
    by_cases hfirst : first = name
    · subst hfirst
      rw [if_pos (beq_self_eq_true first), lookup_cons, ih, if_pos rfl]
      by_cases h : other = first
      · rw [if_pos h, if_pos h, Option.map_some]
      · rw [if_neg h, if_neg h, if_neg h, if_neg h]
    · rw [if_neg (mt beq_iff_eq.mp hfirst), lookup_cons, ih, if_neg (Ne.symm hfirst)]
      by_cases h : other = first
      · subst h
        rw [if_pos rfl, if_neg hfirst, if_pos rfl]
      · rw [if_neg h, if_neg h]

theorem put_cons (new : FileTree) {name : String} {names : List String} (h : names ≠ [])
    (entries : List (String × FileTree)) : put new (name :: names) (directory entries) =
      directory (entries.map fun e ↦ if e.1 == name then (name, put new names e.2) else e) := by
  cases names with
  | nil => exact absurd rfl h
  | cons next names => rfl

/-- Where something has been put, it is seen with all that is below it. -/
theorem view_put_below {t : FileTree} {dir : List String} (h : t.view dir = some .directory)
    (new : FileTree) (name : String) (rest : List String) :
    (put new (dir ++ [name]) t).view (dir ++ name :: rest) = new.view rest := by
  obtain ⟨entries, hentries⟩ := view_eq_directory_iff.mp h
  induction dir generalizing t with
  | nil =>
    obtain rfl := Option.some.inj hentries
    rw [view, List.nil_append, List.nil_append, put, find?, lookup_replace, if_pos rfl]
    rfl
  | cons first dir ih =>
    cases t with
    | file content => cases hentries
    | directory others =>
      obtain ⟨u, hlookup, hu⟩ := Option.bind_eq_some_iff.mp hentries
      rw [List.cons_append, List.cons_append, put_cons new (by simp), view, find?, lookup_modify,
        if_pos rfl, hlookup]
      exact ih (view_eq_directory_iff.mpr ⟨entries, hu⟩) hu

/-- Where nothing has been put and nothing above, there is what there was. -/
theorem view_put_elsewhere {t : FileTree} {dir : List String}
    (h : t.view dir = some .directory) (new : FileTree) {name : String} {place : List String}
    (hplace : ¬dir ++ [name] <+: place) :
    (put new (dir ++ [name]) t).view place = t.view place := by
  obtain ⟨entries, hentries⟩ := view_eq_directory_iff.mp h
  induction dir generalizing t place with
  | nil =>
    obtain rfl := Option.some.inj hentries
    cases place with
    | nil => rfl
    | cons other place =>
      have hother : other ≠ name := by
        rintro rfl
        exact hplace (List.prefix_append [other] place)
      rw [view, List.nil_append, put, find?, lookup_replace, if_neg hother]
      rfl
  | cons first dir ih =>
    cases t with
    | file content => cases hentries
    | directory others =>
      obtain ⟨u, hlookup, hu⟩ := Option.bind_eq_some_iff.mp hentries
      rw [List.cons_append, put_cons new (by simp)]
      cases place with
      | nil => rfl
      | cons other place =>
        rw [view, find?, lookup_modify]
        by_cases hother : other = first
        · subst hother
          rw [if_pos rfl, view, find?, hlookup]
          rw [List.cons_append, List.cons_prefix_cons] at hplace
          exact ih (view_eq_directory_iff.mpr ⟨entries, hu⟩) (fun hprefix ↦ hplace ⟨rfl, hprefix⟩)
            hu
        · rw [if_neg hother]
          rfl

/-- To put a file or an empty directory where there is no directory changes one place. -/
theorem view_put {t : FileTree} {dir : List String} {name : String}
    (hdir : t.view dir = some .directory) (hold : t.view (dir ++ [name]) ≠ some .directory)
    {new : FileTree} (hnew : ∀ other rest, new.view (other :: rest) = none)
    (place : List String) : (put new (dir ++ [name]) t).view place =
      if place = dir ++ [name] then some new.entry else t.view place := by
  by_cases hprefix : dir ++ [name] <+: place
  · obtain ⟨rest, rfl⟩ := hprefix
    rw [List.append_assoc, List.singleton_append, view_put_below hdir]
    cases rest with
    | nil => rw [if_pos rfl, view_nil]
    | cons other rest =>
      rw [if_neg (by simp), hnew, ← view_append_eq_none hold other rest, List.append_assoc,
        List.singleton_append]
  · rw [view_put_elsewhere hdir new hprefix, if_neg]
    rintro rfl
    exact hprefix (List.prefix_refl _)

end FileTree

namespace FileSystem

/-! ### Places and paths -/

/-- What there is in a place. -/
def viewAt (fs : FileSystem) (place : List String) : Option FileTree.Entry :=
  fs.root.view place

theorem follow_eq_view (fs : FileSystem) (place : List String) (segment : String) :
    fs.follow place segment =
      match fs.viewAt place with
      | none => .error .notFound
      | some (.file _) => .error .notDirectory
      | some .directory =>
        if !Path.isStep segment then .ok place
        else if segment = ".." then .ok place.dropLast
        else if nameLimit < segment.utf8ByteSize then .error .nameTooLong
        else if (fs.viewAt (place ++ [segment])).isSome then .ok (place ++ [segment])
        else .error .notFound := by
  unfold follow viewAt FileTree.view
  rw [FileTree.find?_append]
  match fs.root.find? place with
  | none => rfl
  | some (.file content) => rfl
  | some (.directory entries) =>
    simp only [Option.map_some, FileTree.entry, Option.bind_some, FileTree.find?,
      Option.bind_fun_some, Option.isSome_map]

/-- To follow a segment needs a directory, and a name needs to be in it. -/
theorem follow_eq_ok_iff {fs : FileSystem} {place next : List String} {segment : String} :
    fs.follow place segment = .ok next ↔ fs.viewAt place = some .directory ∧
      (Path.isStep segment = false ∧ next = place ∨ segment = ".." ∧ next = place.dropLast ∨
        Path.IsName segment ∧ segment.utf8ByteSize ≤ nameLimit ∧ next = place ++ [segment] ∧
          fs.viewAt (place ++ [segment]) ≠ none) := by
  rw [follow_eq_view]
  match hplace : fs.viewAt place with
  | none => simp
  | some (.file content) => simp
  | some .directory =>
    simp only [true_and, Path.IsName]
    by_cases hidle : Path.isStep segment = true
    · by_cases hup : segment = ".."
      · subst hup
        simp [hidle, @eq_comm _ next]
      · by_cases hlong : nameLimit < segment.utf8ByteSize
        · simp [hidle, hup, hlong]
        · cases hnext : fs.viewAt (place ++ [segment]) with
          | none => simp [hidle, hup, hlong]
          | some entry => simp [hidle, hup, hlong, Nat.le_of_not_lt hlong, @eq_comm _ next]
    · have hup : segment ≠ ".." := by
        rintro rfl
        exact hidle (by decide)
      simp [hidle, hup, @eq_comm _ next]

theorem find_eq_ok_iff {fs : FileSystem} {p : Path} {t : FileTree} :
    fs.find p = .ok t ↔ ∃ place, fs.resolve p = .ok place ∧ fs.root.find? place = some t := by
  constructor
  · exact find?_of_find
  · rintro ⟨place, hplace, ht⟩
    rw [find, hplace]
    simp only [bind, Except.bind, ht]
    rfl

theorem isDirectory_iff {fs : FileSystem} {p : Path} :
    fs.isDirectory p = true ↔
      ∃ place, fs.resolve p = .ok place ∧ fs.viewAt place = some .directory := by
  have hfound : fs.isDirectory p = true ↔ ∃ entries, fs.find p = .ok (.directory entries) := by
    unfold isDirectory
    match fs.find p with
    | .error e => simp
    | .ok (.file content) => simp [FileTree.isDirectory]
    | .ok (.directory entries) => simp [FileTree.isDirectory]
  simp only [hfound, find_eq_ok_iff, viewAt, FileTree.view_eq_directory_iff]
  rw [exists_comm]
  simp only [exists_and_left]

theorem read_eq_view (fs : FileSystem) (p : Path) :
    fs.read p = (fs.resolve p).bind fun place ↦
      match fs.viewAt place with
      | none => .error .notFound
      | some (.file content) => .ok content
      | some .directory => .error .isDirectory := by
  unfold read find viewAt FileTree.view
  cases fs.resolve p with
  | error e => rfl
  | ok place =>
    simp only [bind, Except.bind]
    match fs.root.find? place with
    | none => rfl
    | some (.file content) => rfl
    | some (.directory entries) => rfl

theorem read_eq_ok_iff {fs : FileSystem} {p : Path} {content : List UInt8} :
    fs.read p = .ok content ↔
      ∃ place, fs.resolve p = .ok place ∧ fs.viewAt place = some (.file content) := by
  rw [read_eq_view]
  cases fs.resolve p with
  | error e => simp [Except.bind]
  | ok place =>
    simp only [Except.bind, Except.ok.injEq, exists_eq_left']
    match fs.viewAt place with
    | none => simp
    | some (.file content) => simp
    | some .directory => simp

theorem resolve_eq_ok_iff {fs : FileSystem} {p : Path} {place : List String} :
    fs.resolve p = .ok place ↔
      checkPath p = .ok () ∧ (fs.start p).2.foldlM fs.follow (fs.start p).1 = .ok place := by
  unfold resolve
  rw [bind_eq_ok]
  constructor
  · rintro ⟨⟨⟩, hcheck, hfold⟩
    exact ⟨hcheck, hfold⟩
  · rintro ⟨hcheck, hfold⟩
    exact ⟨(), hcheck, hfold⟩

theorem checkPath_eq_ok_iff {p : Path} : checkPath p = .ok () ↔
    '\x00' ∉ p.text.toList ∧ p.text ≠ "" ∧ p.text.utf8ByteSize ≤ pathLimit := by
  unfold checkPath
  split_ifs with hnull hempty hlong
  · simp_all
  · simp_all
  · simp_all
  · simp_all [Nat.le_of_not_lt hlong]

/-! ### Growth -/

/-- One place has something new in it, and all others are as they were. -/
structure Replaces (before after : FileSystem) (place : List String) (entry : FileTree.Entry) :
    Prop where
  workingDirectory : after.workingDirectory = before.workingDirectory
  viewAt : ∀ other, after.viewAt other = if other = place then some entry else before.viewAt other

/-- Directories remain, and there is still something where there was something. -/
structure Grows (before after : FileSystem) : Prop where
  workingDirectory : after.workingDirectory = before.workingDirectory
  directories : ∀ place, before.viewAt place = some .directory →
    after.viewAt place = some .directory
  entries : ∀ place, before.viewAt place ≠ none → after.viewAt place ≠ none

theorem Replaces.grows {before after : FileSystem} {place : List String} {entry : FileTree.Entry}
    (h : Replaces before after place entry) (hold : before.viewAt place ≠ some .directory) :
    Grows before after where
  workingDirectory := h.workingDirectory
  directories other hother := by
    rw [h.viewAt, if_neg, hother]
    rintro rfl
    exact hold hother
  entries other hother := by
    rw [h.viewAt]
    by_cases hplace : other = place
    · rw [if_pos hplace]
      exact Option.some_ne_none entry
    · rwa [if_neg hplace]

namespace Grows

variable {before after : FileSystem}

theorem follow (h : Grows before after) {place next : List String} {segment : String}
    (hfollow : before.follow place segment = .ok next) :
    after.follow place segment = .ok next := by
  rw [follow_eq_ok_iff] at hfollow ⊢
  refine ⟨h.directories place hfollow.1, ?_⟩
  obtain ⟨-, hidle | hup | ⟨hname, hlength, hnext, hthere⟩⟩ := hfollow
  · exact Or.inl hidle
  · exact Or.inr (Or.inl hup)
  · exact Or.inr (Or.inr ⟨hname, hlength, hnext, h.entries _ hthere⟩)

theorem foldlM_follow (h : Grows before after) {segments place last : List String}
    (hfold : segments.foldlM before.follow place = .ok last) :
    segments.foldlM after.follow place = .ok last := by
  induction segments generalizing place with
  | nil => exact hfold
  | cons segment segments ih =>
    rw [List.foldlM_cons, bind_eq_ok] at hfold ⊢
    obtain ⟨next, hnext, hrest⟩ := hfold
    exact ⟨next, h.follow hnext, ih hrest⟩

theorem start (h : Grows before after) (p : Path) : after.start p = before.start p := by
  unfold FileSystem.start
  rw [h.workingDirectory]

/-- Paths that lead somewhere go on to lead there. -/
theorem resolve (h : Grows before after) {p : Path} {place : List String}
    (hplace : before.resolve p = .ok place) : after.resolve p = .ok place := by
  obtain ⟨hcheck, hfold⟩ := resolve_eq_ok_iff.mp hplace
  refine resolve_eq_ok_iff.mpr ⟨hcheck, ?_⟩
  rw [h.start]
  exact h.foldlM_follow hfold

theorem isDirectory (h : Grows before after) {p : Path} (hp : before.isDirectory p = true) :
    after.isDirectory p = true := by
  obtain ⟨place, hplace, hview⟩ := isDirectory_iff.mp hp
  exact isDirectory_iff.mpr ⟨place, h.resolve hplace, h.directories place hview⟩

end Grows

end FileSystem

end ShutdownLint

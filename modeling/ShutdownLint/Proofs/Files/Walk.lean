import Mathlib.Data.List.Lex
import ShutdownLint.Files.System
import ShutdownLint.Proofs.KeyOrder
/-!
What a walk through a tree of files comes upon. It finds a file exactly if no name on the way to it
is hidden, and it finds the files in the order of the names on the way, where the first names that
differ decide. So no file is found twice.
-/

set_option autoImplicit false

namespace ShutdownLint

/-- A text can be the name of something in a directory. -/
def Path.IsName (name : String) : Prop :=
  isStep name = true ∧ name ≠ ".."

instance (name : String) : Decidable (Path.IsName name) :=
  inferInstanceAs (Decidable (_ ∧ _))

namespace FileTree

/-- The names in each directory of a tree are names, and distinct. -/
inductive WellNamed : FileTree → Prop
  | file (content : List UInt8) : WellNamed (.file content)
  | directory {entries : List (String × FileTree)} (distinct : (entries.map Prod.fst).Nodup)
      (names : ∀ e ∈ entries, Path.IsName e.1) (below : ∀ e ∈ entries, WellNamed e.2) :
      WellNamed (.directory entries)

theorem wellNamed_directory_iff {entries : List (String × FileTree)} :
    (directory entries).WellNamed ↔ (entries.map Prod.fst).Nodup ∧
      (∀ e ∈ entries, Path.IsName e.1) ∧ ∀ e ∈ entries, e.2.WellNamed := by
  constructor
  · rintro (_ | ⟨distinct, names, below⟩)
    exact ⟨distinct, names, below⟩
  · rintro ⟨distinct, names, below⟩
    exact .directory distinct names below

/-! ### Lookup -/

theorem lookup_eq_some_iff_mem {entries : List (String × FileTree)}
    (distinct : (entries.map Prod.fst).Nodup) {name : String} {t : FileTree} :
    entries.lookup name = some t ↔ (name, t) ∈ entries := by
  induction entries with
  | nil => simp
  | cons e entries ih =>
    obtain ⟨other, u⟩ := e
    rw [List.map_cons, List.nodup_cons] at distinct
    by_cases hname : name = other
    · subst hname
      have hnone : (name, t) ∉ entries := fun h ↦
        distinct.1 (List.mem_map.mpr ⟨_, h, rfl⟩)
      simp [hnone, eq_comm]
    · rw [List.lookup_cons, beq_false_of_ne hname, List.mem_cons]
      simp [hname, ih distinct.2]

theorem find?_append (names others : List String) (t : FileTree) :
    find? (names ++ others) t = (find? names t).bind (find? others) := by
  induction names generalizing t with
  | nil => rfl
  | cons name names ih =>
    cases t with
    | file content => rfl
    | directory entries =>
      rw [List.cons_append, find?, find?, Option.bind_assoc]
      congr 1
      funext u
      exact ih u

theorem WellNamed.of_find? {t u : FileTree} {names : List String} (h : t.WellNamed)
    (hfind : t.find? names = some u) : u.WellNamed ∧ ∀ n ∈ names, Path.IsName n := by
  induction names generalizing t with
  | nil =>
    obtain rfl : t = u := Option.some.inj hfind
    exact ⟨h, fun n hn ↦ absurd hn List.not_mem_nil⟩
  | cons name names ih =>
    cases h with
    | file content => cases hfind
    | directory distinct hnames hbelow =>
      obtain ⟨v, hv, hfind⟩ := Option.bind_eq_some_iff.mp hfind
      have hmem := (lookup_eq_some_iff_mem distinct).mp hv
      obtain ⟨hu, hrest⟩ := ih (hbelow _ hmem) hfind
      exact ⟨hu, List.forall_mem_cons.mpr ⟨hnames _ hmem, hrest⟩⟩

/-! ### The walk -/

theorem branches_eq (entries : List (String × FileTree)) :
    branches entries = (entries.filter (!isHidden ·.1)).map fun e ↦ (e.1, e.2.walk) := by
  induction entries with
  | nil => rfl
  | cons e entries ih =>
    obtain ⟨name, t⟩ := e
    rw [branches, ih, List.filter_cons]
    cases isHidden name <;> rfl

/-- The branches of a directory in the order of their names. -/
def sortedBranches (entries : List (String × FileTree)) : List (String × List (List String)) :=
  (branches entries).mergeSort inOrder

theorem walk_directory (entries : List (String × FileTree)) :
    (directory entries).walk = (sortedBranches entries).flatMap fun b ↦ b.2.map (b.1 :: ·) :=
  rfl

theorem mem_sortedBranches_iff {entries : List (String × FileTree)}
    {b : String × List (List String)} :
    b ∈ sortedBranches entries ↔
      ∃ t, (b.1, t) ∈ entries ∧ isHidden b.1 = false ∧ t.walk = b.2 := by
  rw [sortedBranches, List.mem_mergeSort, branches_eq, List.mem_map]
  constructor
  · rintro ⟨e, he, rfl⟩
    obtain ⟨hmem, hvisible⟩ := List.mem_filter.mp he
    exact ⟨e.2, hmem, by simpa using hvisible, rfl⟩
  · rintro ⟨t, hmem, hvisible, hwalk⟩
    exact ⟨(b.1, t), List.mem_filter.mpr ⟨hmem, by simpa using hvisible⟩, by rw [hwalk]⟩

/-- Where names are distinct, branches stand in strictly ascending order. -/
theorem pairwise_sortedBranches {entries : List (String × FileTree)}
    (distinct : (entries.map Prod.fst).Nodup) :
    (sortedBranches entries).Pairwise fun a b ↦ a.1 < b.1 := by
  have hsublist : ((branches entries).map Prod.fst).Sublist (entries.map Prod.fst) := by
    rw [branches_eq, List.map_map]
    exact List.filter_sublist.map Prod.fst
  exact KeyOrder.pairwise_mergeSort (distinct.sublist hsublist)

theorem mem_walk_directory_iff {entries : List (String × FileTree)} {names : List String} :
    names ∈ (directory entries).walk ↔ ∃ name rest t, name :: rest = names ∧
      (name, t) ∈ entries ∧ isHidden name = false ∧ rest ∈ t.walk := by
  rw [walk_directory, List.mem_flatMap]
  constructor
  · rintro ⟨b, hb, hnames⟩
    obtain ⟨rest, hrest, rfl⟩ := List.mem_map.mp hnames
    obtain ⟨t, hmem, hvisible, hwalk⟩ := mem_sortedBranches_iff.mp hb
    exact ⟨b.1, rest, t, rfl, hmem, hvisible, hwalk ▸ hrest⟩
  · rintro ⟨name, rest, t, rfl, hmem, hvisible, hrest⟩
    exact ⟨(name, t.walk), mem_sortedBranches_iff.mpr ⟨t, hmem, hvisible, rfl⟩,
      List.mem_map.mpr ⟨rest, hrest, rfl⟩⟩

/-- Names lead to a file, and none of them is hidden. -/
def LeadsToVisibleFile (t : FileTree) (names : List String) : Prop :=
  (∃ content, t.find? names = some (.file content)) ∧ ∀ n ∈ names, isHidden n = false

theorem mem_walk_iff {t : FileTree} (h : t.WellNamed) {names : List String} :
    names ∈ t.walk ↔ t.LeadsToVisibleFile names := by
  induction h generalizing names with
  | file content =>
    rw [walk, List.mem_singleton]
    cases names with
    | nil => exact iff_of_true rfl ⟨⟨content, rfl⟩, fun n hn ↦ absurd hn List.not_mem_nil⟩
    | cons name rest =>
      exact iff_of_false (List.cons_ne_nil _ _) fun ⟨⟨_, hfind⟩, _⟩ ↦ nomatch hfind
  | directory distinct _ _ ih =>
    rw [mem_walk_directory_iff]
    constructor
    · rintro ⟨name, rest, t, rfl, hmem, hvisible, hrest⟩
      obtain ⟨⟨content, hfind⟩, hall⟩ := (ih _ hmem).mp hrest
      refine ⟨⟨content, ?_⟩, List.forall_mem_cons.mpr ⟨hvisible, hall⟩⟩
      rw [find?, (lookup_eq_some_iff_mem distinct).mpr hmem, Option.bind_some, hfind]
    · rintro ⟨⟨content, hfind⟩, hall⟩
      cases names with
      | nil => cases hfind
      | cons name rest =>
        obtain ⟨hvisible, hall⟩ := List.forall_mem_cons.mp hall
        obtain ⟨t, hlookup, hfind⟩ := Option.bind_eq_some_iff.mp hfind
        have hmem := (lookup_eq_some_iff_mem distinct).mp hlookup
        exact ⟨name, rest, t, rfl, hmem, hvisible, (ih _ hmem).mpr ⟨⟨content, hfind⟩, hall⟩⟩

/-- The files come in the order of the names that lead to them. -/
theorem pairwise_walk {t : FileTree} (h : t.WellNamed) : t.walk.Pairwise (· < ·) := by
  induction h with
  | file content => exact List.pairwise_singleton _ _
  | directory distinct _ _ ih =>
    rw [walk_directory, List.pairwise_flatMap]
    refine ⟨fun b hb ↦ ?_,
      (pairwise_sortedBranches distinct).imp fun hlt names hnames others hothers ↦ ?_⟩
    · obtain ⟨t, hmem, -, hwalk⟩ := mem_sortedBranches_iff.mp hb
      rw [← hwalk, List.pairwise_map]
      exact (ih _ hmem).imp fun hlt ↦ List.cons_lt_cons_iff.mpr (Or.inr ⟨rfl, hlt⟩)
    · obtain ⟨rest, -, rfl⟩ := List.mem_map.mp hnames
      obtain ⟨rest', -, rfl⟩ := List.mem_map.mp hothers
      exact List.cons_lt_cons_iff.mpr (Or.inl hlt)

end FileTree

end ShutdownLint

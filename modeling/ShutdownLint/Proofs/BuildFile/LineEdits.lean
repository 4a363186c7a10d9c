import ShutdownLint.Proofs.BuildFile.LineFindings
import Mathlib.Data.List.Forall2
/-!
Build files put together from parts.

A line feed between two texts ends a line, so the findings on the whole are those on the first text
and those on the second one, further down. What an edit does to the findings follows from that: each
line answers for itself, and the lines behind an inserted one change nothing but their numbers.

A byte-order mark is dropped at the start of a text only. In the middle it belongs to its line.
-/

set_option autoImplicit false

namespace ShutdownLint.BuildFile

open Text

variable {content file : String} {k m : Nat} {line : List Char}
  {before after xs ys : List (List Char)}

/-! ### Findings on numbered lines -/

/-- The finding on the line with the number `k`, if there is one. -/
def lineFinding? (file : String) (k : Nat) (line : List Char) : Option Finding :=
  (violation? line).map fun r ↦ r.atLine file (UInt32.ofNat k)

theorem findingsFrom_cons : findingsFrom file (UInt32.ofNat k) (line :: xs) =
    (lineFinding? file k line).toList ++ findingsFrom file (UInt32.ofNat (k + 1)) xs := by
  rw [findingsFrom, UInt32.ofNat_add]
  rfl

theorem findingsFrom_append : findingsFrom file (UInt32.ofNat k) (xs ++ ys) =
    findingsFrom file (UInt32.ofNat k) xs ++
      findingsFrom file (UInt32.ofNat (k + xs.length)) ys := by
  induction xs generalizing k with
  | nil => rfl
  | cons line xs ih =>
    rw [List.cons_append, findingsFrom_cons, ih, findingsFrom_cons, List.append_assoc,
      List.length_cons, Nat.add_assoc, Nat.add_comm 1]

/-- An empty piece at the end is no line, but there would be no finding on it either. -/
theorem findingsFrom_dropEmptyEnd (pieces : List (List Char)) :
    findingsFrom file (UInt32.ofNat k) (dropEmptyEnd pieces) =
      findingsFrom file (UInt32.ofNat k) pieces := by
  unfold dropEmptyEnd
  split_ifs with hlast
  · obtain ⟨front, rfl⟩ := List.getLast?_eq_some_iff.mp hlast
    have hempty : violation? [] = none := by decide
    rw [List.dropLast_concat, findingsFrom_append, findingsFrom_cons, lineFinding?, hempty]
    simp [findingsFrom]
  · rfl

/-- The finding is on a line whose number has the property. -/
def IsOn (p : Nat → Prop) (f : Finding) : Prop :=
  ∃ number : UInt32, f.line = some number ∧ p number.toNat

/-- A finding on a line that stands `m` lines further down, otherwise the same. -/
structure MovesDown (m : Nat) (f g : Finding) : Prop where
  line : ∃ old new : UInt32, f.line = some old ∧ g.line = some new ∧ new.toNat = old.toNat + m
  same : g = { f with line := g.line }

theorem isOn_of_mem_findingsFrom (h : k + xs.length ≤ 2 ^ 32) {f : Finding}
    (hf : f ∈ findingsFrom file (UInt32.ofNat k) xs) :
    IsOn (fun l ↦ k ≤ l ∧ l < k + xs.length) f := by
  obtain ⟨j, line, r, hj, -, rfl⟩ := mem_findingsFrom_iff.mp hf
  have hlt : j < xs.length := (List.getElem?_eq_some_iff.mp hj).1
  refine ⟨_, rfl, ?_⟩
  rw [← UInt32.ofNat_add, UInt32.toNat_ofNat_of_lt' (show k + j < 2 ^ 32 by omega)]
  omega

theorem movesDown_lineFinding? (h : k + m < 2 ^ 32) :
    List.Forall₂ (MovesDown m) (lineFinding? file k line).toList
      (lineFinding? file (k + m) line).toList := by
  unfold lineFinding?
  cases violation? line with
  | none => exact .nil
  | some r =>
    refine .cons ⟨⟨_, _, rfl, rfl, ?_⟩, rfl⟩ .nil
    rw [UInt32.toNat_ofNat_of_lt' h, UInt32.toNat_ofNat_of_lt' (show k < 2 ^ 32 by omega)]

/-- Lines that stand further down have the same findings further down. -/
theorem movesDown_findingsFrom (h : k + m + xs.length ≤ 2 ^ 32) :
    List.Forall₂ (MovesDown m) (findingsFrom file (UInt32.ofNat k) xs)
      (findingsFrom file (UInt32.ofNat (k + m)) xs) := by
  induction xs generalizing k with
  | nil => exact .nil
  | cons line xs ih =>
    rw [List.length_cons] at h
    have hrest := @ih (k + 1) (by omega)
    rw [Nat.add_right_comm] at hrest
    rw [findingsFrom_cons, findingsFrom_cons]
    exact List.rel_append (movesDown_lineFinding? (by omega)) hrest

/-! ### Pieces of a text -/

theorem linePieces_append (xs ys : List Char) :
    linePieces (xs ++ '\n' :: ys) = xs.splitOn '\n' ++ linePieces ys := by
  rw [linePieces, List.splitOn_append_cons_self]
  induction xs.splitOn '\n' with
  | nil => rfl
  | cons piece pieces ih =>
    have hne : pieces ++ ys.splitOn '\n' ≠ [] :=
      List.append_ne_nil_of_right_ne_nil _ (List.splitOn_ne_nil '\n' ys)
    rw [List.cons_append, dropEmptyEnd_cons _ hne, ih, List.cons_append]

theorem withoutMark_eq_self {cs : List Char} (h : cs.head? ≠ some '\ufeff') :
    withoutMark cs = cs := by
  cases cs with
  | nil => rfl
  | cons c cs => exact withoutMark.eq_2 (c :: cs) fun ds hds ↦ h (by rw [hds, List.head?_cons])

/-- Only the first piece of a text can lose a mark. -/
theorem splitOn_withoutMark (cs : List Char) :
    (withoutMark cs).splitOn '\n' = (cs.splitOn '\n').modifyHead withoutMark := by
  cases cs with
  | nil => rfl
  | cons c cs =>
    obtain ⟨first, more, hsplit⟩ := List.exists_cons_of_ne_nil (List.splitOn_ne_nil '\n' cs)
    by_cases hmark : c = '\ufeff'
    · rw [hmark, withoutMark, List.splitOn_cons_eq_if_modifyHead, if_neg (by decide), hsplit]
      rfl
    · have hhead : (c :: cs).head? ≠ some '\ufeff' := by simpa using hmark
      rw [withoutMark_eq_self hhead, List.splitOn_cons_eq_if_modifyHead, hsplit]
      split_ifs
      · rfl
      · rw [List.modifyHead_cons, List.modifyHead_cons, withoutMark_eq_self (by simpa using hmark)]

theorem findings_eq_findingsFrom : findings content file =
    findingsFrom file (UInt32.ofNat 1) ((content.toList.splitOn '\n').modifyHead withoutMark) := by
  rw [findings_eq, linePieces, ← splitOn_withoutMark]
  exact findingsFrom_dropEmptyEnd _

/-- A line as it is read behind some others: the first of all loses a mark. -/
def readBehind : List (List Char) → List Char → List Char
  | [], line => withoutMark line
  | _ :: _, line => line

theorem modifyHead_withoutMark_append : (before ++ line :: after).modifyHead withoutMark =
    before.modifyHead withoutMark ++ readBehind before line :: after := by
  cases before <;> rfl

/-- The findings on the lines in front of a line, on itself, and on those behind it. -/
theorem findings_of_splitOn (h : content.toList.splitOn '\n' = before ++ line :: after) :
    findings content file =
      findingsFrom file (UInt32.ofNat 1) (before.modifyHead withoutMark) ++
        (lineFinding? file (before.length + 1) (readBehind before line)).toList ++
          findingsFrom file (UInt32.ofNat (before.length + 1 + 1)) after := by
  rw [findings_eq_findingsFrom, h, modifyHead_withoutMark_append, findingsFrom_append,
    findingsFrom_cons, List.length_modifyHead, Nat.add_comm 1, List.append_assoc]

/-- The number of lines of a text. -/
def lineCount (content : String) : Nat :=
  (linePieces (withoutMark content.toList)).length

theorem length_dropEmptyEnd_append (xs : List (List Char)) (hys : ys ≠ []) :
    (dropEmptyEnd (xs ++ ys)).length = xs.length + (dropEmptyEnd ys).length := by
  induction xs with
  | nil => simp
  | cons x xs ih =>
    rw [List.cons_append, dropEmptyEnd_cons _ (List.append_ne_nil_of_right_ne_nil xs hys),
      List.length_cons, ih, List.length_cons, Nat.add_right_comm]

theorem le_lineCount_of_splitOn (h : content.toList.splitOn '\n' = before ++ line :: after) :
    before.length ≤ lineCount content := by
  rw [lineCount, linePieces, splitOn_withoutMark, h, modifyHead_withoutMark_append,
    length_dropEmptyEnd_append _ (List.cons_ne_nil _ _), List.length_modifyHead]
  exact Nat.le_add_right _ _

theorem lineCount_of_splitOn (h : content.toList.splitOn '\n' = before ++ line :: after)
    (hafter : after ≠ []) :
    lineCount content = before.length + 1 + (dropEmptyEnd after).length := by
  rw [lineCount, linePieces, splitOn_withoutMark, h, modifyHead_withoutMark_append,
    List.append_cons, length_dropEmptyEnd_append _ hafter, List.length_append,
    List.length_modifyHead, List.length_singleton]

/-! ### The law -/

theorem withoutMark_append_lineFeed (xs ys : List Char) :
    withoutMark (xs ++ '\n' :: ys) = withoutMark xs ++ '\n' :: ys := by
  cases xs with
  | nil => rfl
  | cons x xs =>
    by_cases hmark : x = '\ufeff'
    · rw [hmark]
      rfl
    · rw [withoutMark_eq_self (by simpa using hmark), withoutMark_eq_self (by simpa using hmark)]

theorem count_withoutMark (cs : List Char) : (withoutMark cs).count '\n' = cs.count '\n' := by
  unfold withoutMark
  split
  · rw [List.count_cons_of_ne (by decide)]
  · rfl

theorem findings_append_lineFeed {a b : String} (hb : b.toList.head? ≠ some '\ufeff')
    (hlines : lineCount (a ++ "\n" ++ b) < 2 ^ 32) :
    ∃ moved, List.Forall₂ (MovesDown (1 + a.toList.count '\n')) (findings b file) moved ∧
      findings (a ++ "\n" ++ b) file = findings a file ++ moved := by
  have htext : (a ++ "\n" ++ b).toList = a.toList ++ '\n' :: b.toList := by
    simp [String.toList_append]
  have hlength : ((withoutMark a.toList).splitOn '\n').length = 1 + a.toList.count '\n' := by
    rw [length_splitOn, count_withoutMark, Nat.add_comm]
  have hpieces : linePieces (withoutMark (a ++ "\n" ++ b).toList) =
      (withoutMark a.toList).splitOn '\n' ++ linePieces b.toList := by
    rw [htext, withoutMark_append_lineFeed, linePieces_append]
  rw [lineCount, hpieces, List.length_append, hlength] at hlines
  have hfirst : findings a file =
      findingsFrom file (UInt32.ofNat 1) ((withoutMark a.toList).splitOn '\n') := by
    rw [findings_eq_findingsFrom, splitOn_withoutMark]
  have hsecond : findings b file = findingsFrom file (UInt32.ofNat 1) (linePieces b.toList) := by
    rw [findings_eq, withoutMark_eq_self hb]
    rfl
  refine ⟨findingsFrom file (UInt32.ofNat (1 + (1 + a.toList.count '\n')))
    (linePieces b.toList), ?_, ?_⟩
  · rw [hsecond]
    exact movesDown_findingsFrom (by omega)
  · rw [findings_eq, hpieces, hfirst, ← hlength]
    exact findingsFrom_append

theorem splitOn_of_unmarked {cs : List Char} (h : cs.splitOn '\n' = before ++ after)
    (hmark : before = [] → cs.head? ≠ some '\ufeff') :
    (cs.splitOn '\n').modifyHead withoutMark = before.modifyHead withoutMark ++ after := by
  cases before with
  | nil =>
    rw [← splitOn_withoutMark, withoutMark_eq_self (hmark rfl), h]
    rfl
  | cons first more =>
    rw [h]
    rfl

theorem findings_insert {content' : String} (h : content.toList.splitOn '\n' = before ++ after)
    (h' : content'.toList.splitOn '\n' = before ++ line :: after)
    (hmark : before = [] → content.toList.head? ≠ some '\ufeff')
    (hlines : lineCount content' < 2 ^ 32) :
    ∃ front back moved, findings content file = front ++ back ∧
      findings content' file =
        front ++ (lineFinding? file (before.length + 1) (readBehind before line)).toList ++ moved ∧
      (∀ f ∈ front, IsOn (· ≤ before.length) f) ∧ (∀ f ∈ back, IsOn (before.length < ·) f) ∧
      List.Forall₂ (MovesDown 1) back moved := by
  have hfindings : findings content file =
      findingsFrom file (UInt32.ofNat 1) (before.modifyHead withoutMark) ++
        findingsFrom file (UInt32.ofNat (before.length + 1)) after := by
    rw [findings_eq_findingsFrom, splitOn_of_unmarked h hmark, findingsFrom_append,
      List.length_modifyHead, Nat.add_comm 1]
  have hle : before.length ≤ lineCount content' := le_lineCount_of_splitOn h'
  refine ⟨_, _, _, hfindings, findings_of_splitOn h', fun f hf ↦ ?_, ?_⟩
  · have hbound : 1 + (before.modifyHead withoutMark).length ≤ 2 ^ 32 := by
      rw [List.length_modifyHead]
      omega
    obtain ⟨number, hnumber, -, hlt⟩ := isOn_of_mem_findingsFrom hbound hf
    rw [List.length_modifyHead] at hlt
    exact ⟨number, hnumber, by omega⟩
  -- An empty piece at the end does not count, so the bound is one on the lines without it.
  by_cases hafter : after = []
  · subst hafter
    exact ⟨fun f hf ↦ absurd hf List.not_mem_nil, .nil⟩
  rw [lineCount_of_splitOn h' hafter] at hlines
  rw [← findingsFrom_dropEmptyEnd after, ← findingsFrom_dropEmptyEnd after]
  refine ⟨fun f hf ↦ ?_, movesDown_findingsFrom (by omega)⟩
  obtain ⟨number, hnumber, hlt, -⟩ := isOn_of_mem_findingsFrom (by omega) hf
  exact ⟨number, hnumber, hlt⟩

/-- Findings on texts that are put together. A line feed between two texts leaves the findings on
both as they are, apart from the numbers of the lines of the second one, which grow by the number of
lines in front of them. So another line in the place of one line changes the finding on this line
only, and an inserted line adds its own finding and moves those behind it down by one. -/
theorem findings_concatenation_law (file : String) :
    (∀ a b : String, b.toList.head? ≠ some '\ufeff' → lineCount (a ++ "\n" ++ b) < 2 ^ 32 →
      ∃ moved, List.Forall₂ (MovesDown (1 + a.toList.count '\n')) (findings b file) moved ∧
        findings (a ++ "\n" ++ b) file = findings a file ++ moved) ∧
    (∀ (content content' : String) (before after : List (List Char)) (line line' : List Char),
      content.toList.splitOn '\n' = before ++ line :: after →
      content'.toList.splitOn '\n' = before ++ line' :: after →
      ∃ front back,
        findings content file =
          front ++ (lineFinding? file (before.length + 1) (readBehind before line)).toList ++ back ∧
        findings content' file =
          front ++ (lineFinding? file (before.length + 1) (readBehind before line')).toList ++
            back) ∧
    ∀ (content content' : String) (before after : List (List Char)) (line : List Char),
      content.toList.splitOn '\n' = before ++ after →
      content'.toList.splitOn '\n' = before ++ line :: after →
      (before = [] → content.toList.head? ≠ some '\ufeff') → lineCount content' < 2 ^ 32 →
      ∃ front back moved, findings content file = front ++ back ∧
        findings content' file =
          front ++ (lineFinding? file (before.length + 1) (readBehind before line)).toList ++
            moved ∧
        (∀ f ∈ front, IsOn (· ≤ before.length) f) ∧ (∀ f ∈ back, IsOn (before.length < ·) f) ∧
        List.Forall₂ (MovesDown 1) back moved := by
  refine ⟨fun a b hb hlines ↦ findings_append_lineFeed hb hlines, ?_, ?_⟩
  · intro content content' before after line line' h h'
    exact ⟨_, _, findings_of_splitOn h, findings_of_splitOn h'⟩
  · intro content content' before after line h h' hmark hlines
    exact findings_insert h h' hmark hlines

/-- At the seam stand a carriage return and two line feeds. The empty line between these is edited,
and then one is inserted in its place. -/
theorem findings_concatenation_law_atSeam :
    let first := "\ufeffCMD a\r\n"
    let second := "ENTRYPOINT b"
    let edited := first ++ "CMD x\n" ++ second
    (second.toList.head? ≠ some '\ufeff' ∧ lineCount (first ++ "\n" ++ second) < 2 ^ 32 ∧
      ∃ moved, List.Forall₂ (MovesDown 2) (findings second "Dockerfile") moved ∧
        findings (first ++ "\n" ++ second) "Dockerfile" =
          findings first "Dockerfile" ++ moved) ∧
    (∃ front back, findings (first ++ "\n" ++ second) "Dockerfile" = front ++ back ∧
      findings edited "Dockerfile" =
        front ++ [Rule.shellCommand.atLine "Dockerfile" 2] ++ back) ∧
    lineCount edited < 2 ^ 32 ∧
      ∃ front back moved, findings (first ++ second) "Dockerfile" = front ++ back ∧
        findings edited "Dockerfile" =
          front ++ [Rule.shellCommand.atLine "Dockerfile" 2] ++ moved ∧
        List.Forall₂ (MovesDown 1) back moved := by
  intro first second edited
  have hunmarked : second.toList.head? ≠ some '\ufeff' := by decide
  have hlines : lineCount (first ++ "\n" ++ second) < 2 ^ 32 := by decide
  have hedited : lineCount edited < 2 ^ 32 := by decide
  have hcount : 1 + first.toList.count '\n' = 2 := by decide
  obtain ⟨hjoin, hedit, hinsert⟩ := findings_concatenation_law "Dockerfile"
  refine ⟨⟨hunmarked, hlines, hcount ▸ hjoin first second hunmarked hlines⟩, ?_, hedited, ?_⟩
  · obtain ⟨front, back, hold, hnew⟩ :=
      hedit (first ++ "\n" ++ second) edited ["\ufeffCMD a\r".toList] [second.toList] []
        "CMD x".toList (by decide) (by decide)
    exact ⟨front, back, hold.trans (by rw [List.append_assoc]; rfl), hnew⟩
  · obtain ⟨front, back, moved, hbefore, hafter, -, -, hmoved⟩ :=
      hinsert (first ++ second) edited ["\ufeffCMD a\r".toList] [second.toList] "CMD x".toList
        (by decide) (by decide) nofun hedited
    exact ⟨front, back, moved, hbefore, hafter, hmoved⟩

end ShutdownLint.BuildFile

import Mathlib.Data.List.DropRight
import Mathlib.Logic.Relation
import ShutdownLint.Proofs.Files.Views
/-!
The paths above a path. A path above another one begins in the same place and has some of its
segments, so it leads to a directory whenever the other one leads somewhere.
-/

set_option autoImplicit false

namespace ShutdownLint

open Success

namespace Path

/-- One path is reached from another by leaving out last steps, one or several. -/
def IsAbove (q p : Path) : Prop :=
  Relation.TransGen (fun p q ↦ p.parent? = some q) p q

/-! ### The segments of a parent -/

theorem splitLead_append (segments : List String) :
    (splitLead segments).1 ++ (splitLead segments).2 = segments := by
  unfold splitLead
  split <;> rfl

theorem splitLead_fst_cases (segments : List String) :
    (splitLead segments).1 = [""] ∨ (splitLead segments).1 = ["."] ∨
      (splitLead segments).1 = [] := by
  unfold splitLead
  split
  · exact Or.inl rfl
  · exact Or.inr (Or.inl rfl)
  · exact Or.inr (Or.inr rfl)

theorem dropIdle_prefix (segments : List String) : dropIdle segments <+: segments :=
  List.rdropWhile_prefix (!isStep ·) segments

/-- The steps without the last one, and what there is behind them. -/
theorem exists_dropIdle_dropLast_append {body : List String} (h : dropIdle body ≠ []) :
    ∃ segment rest, dropIdle (dropIdle body).dropLast ++ segment :: rest = body := by
  obtain ⟨idle, hidle⟩ := dropIdle_prefix body
  obtain ⟨others, hothers⟩ := dropIdle_prefix (dropIdle body).dropLast
  have hbody : dropIdle (dropIdle body).dropLast ++
      (others ++ (dropIdle body).getLast h :: idle) = body := by
    calc dropIdle (dropIdle body).dropLast ++ (others ++ (dropIdle body).getLast h :: idle)
        = (dropIdle body).dropLast ++ [(dropIdle body).getLast h] ++ idle := by
          rw [← List.append_assoc, hothers, List.append_assoc, List.singleton_append]
      _ = body := by rw [List.dropLast_append_getLast h, hidle]
  cases others with
  | nil => exact ⟨_, _, hbody⟩
  | cons segment others => exact ⟨segment, _, hbody⟩

/-- A parent is the empty path or the root, or has the first segments of the path. -/
theorem parent?_cases {p q : Path} (h : p.parent? = some q) :
    q.text = "" ∨ (q.segments = ["", ""] ∧ ∃ segment rest, p.segments = "" :: segment :: rest) ∨
      q.segments ≠ [] ∧ ∃ segment rest, p.segments = q.segments ++ segment :: rest := by
  have hsegments := splitLead_append p.segments
  have hlead := splitLead_fst_cases p.segments
  unfold parent? at h
  dsimp only at h
  generalize splitLead p.segments = pair at h hsegments hlead
  obtain ⟨lead, body⟩ := pair
  dsimp only at h hsegments hlead
  have hbody : dropIdle body ≠ [] →
      ∃ segment rest, dropIdle (dropIdle body).dropLast ++ segment :: rest = body :=
    exists_dropIdle_dropLast_append
  generalize dropIdle (dropIdle body).dropLast = above at h hbody
  generalize dropIdle body = steps at h hbody
  cases steps with
  | nil =>
    rcases hlead with rfl | rfl | rfl
    · cases h
    · obtain rfl := Option.some.inj h
      exact Or.inl rfl
    · cases h
  | cons step steps =>
    obtain ⟨segment, rest, rfl⟩ := hbody (List.cons_ne_nil step steps)
    rw [← hsegments]
    rcases hlead with rfl | rfl | rfl
    · cases above with
      | nil =>
        obtain rfl := Option.some.inj h
        exact Or.inr (Or.inl ⟨rfl, segment, rest, rfl⟩)
      | cons first above =>
        obtain rfl := Option.some.inj h
        exact Or.inr (Or.inr ⟨List.cons_ne_nil _ _, segment, rest, rfl⟩)
    · obtain rfl := Option.some.inj h
      exact Or.inr (Or.inr ⟨List.cons_ne_nil _ _, segment, rest, rfl⟩)
    · cases above with
      | nil =>
        obtain rfl := Option.some.inj h
        exact Or.inl rfl
      | cons first above =>
        obtain rfl := Option.some.inj h
        exact Or.inr (Or.inr ⟨List.cons_ne_nil _ _, segment, rest, rfl⟩)

/-! ### The text of a parent -/

theorem text_append (front : List String) (segment : String) (rest : List String)
    (hfront : front ≠ []) :
    (Path.mk (front ++ segment :: rest)).text =
      (Path.mk front).text ++ "/" ++ (Path.mk (segment :: rest)).text := by
  induction front with
  | nil => exact absurd rfl hfront
  | cons first front ih =>
    cases front with
    | nil => exact String.intercalate_cons_cons
    | cons second front =>
      have hrest := ih (List.cons_ne_nil _ _)
      simp only [text, List.cons_append, String.intercalate_cons_cons] at hrest ⊢
      rw [hrest]
      simp only [String.append_assoc]

/-- There is nothing above the empty path. -/
theorem parent?_eq_none_of_text {p : Path} (h : p.text = "") : p.parent? = none := by
  obtain ⟨_ | ⟨first, _ | ⟨second, more⟩⟩⟩ := p
  · rfl
  · obtain rfl : first = "" := String.intercalate_singleton.symm.trans h
    rfl
  · rw [text, String.intercalate_cons_cons] at h
    simp at h

end Path

namespace FileSystem

/-! ### Where parents lead -/

/-- To leave out last steps does no harm to a path. -/
theorem checkPath_of_segments {p q : Path} (hp : checkPath p = .ok ()) (hq : q.text ≠ "")
    (hsegments : q.segments ≠ []) {segment : String} {rest : List String}
    (h : p.segments = q.segments ++ segment :: rest) : checkPath q = .ok () := by
  have htext : p.text = q.text ++ "/" ++ (Path.mk (segment :: rest)).text := by
    rw [← Path.text_append q.segments segment rest hsegments, ← h]
  obtain ⟨hnull, -, hlength⟩ := checkPath_eq_ok_iff.mp hp
  rw [htext] at hnull hlength
  refine checkPath_eq_ok_iff.mpr ⟨fun hmem ↦ hnull ?_, hq, ?_⟩
  · simp [hmem]
  · simp only [String.utf8ByteSize_append] at hlength
    omega

theorem start_of_segments (fs : FileSystem) {p q : Path} (hq : q.text ≠ "")
    (hsegments : q.segments ≠ []) {segment : String} {rest : List String}
    (h : p.segments = q.segments ++ segment :: rest) :
    fs.start p = ((fs.start q).1, (fs.start q).2 ++ segment :: rest) := by
  obtain ⟨_ | ⟨first, _ | ⟨second, more⟩⟩⟩ := q
  · exact absurd rfl hsegments
  · have hfirst : first ≠ "" := by
      rintro rfl
      exact hq rfl
    simp [start, h, hfirst]
  · by_cases hfirst : first = ""
    · simp [start, h, hfirst]
    · simp [start, h, hfirst]

/-- The parent of a path that leads somewhere is empty or leads to a directory. -/
theorem isDirectory_parent {fs : FileSystem} {p q : Path} {place : List String}
    (hp : fs.resolve p = .ok place) (h : p.parent? = some q) :
    q.text = "" ∨ fs.isDirectory q = true := by
  by_cases hq : q.text = ""
  · exact Or.inl hq
  refine Or.inr (isDirectory_iff.mpr ?_)
  obtain ⟨hcheck, hfold⟩ := resolve_eq_ok_iff.mp hp
  rcases Path.parent?_cases h with hempty | ⟨hroot, segment, rest, hsegments⟩ |
    ⟨hne, segment, rest, hsegments⟩
  · exact absurd hempty hq
  · have hstart : fs.start p = ([], segment :: rest) := by
      simp [start, hsegments]
    rw [hstart, List.foldlM_cons, bind_eq_ok] at hfold
    obtain ⟨next, hnext, -⟩ := hfold
    have hview := (follow_eq_ok_iff.mp hnext).1
    obtain ⟨segments⟩ := q
    obtain rfl : segments = ["", ""] := hroot
    refine ⟨[], resolve_eq_ok_iff.mpr ⟨by decide, ?_⟩, hview⟩
    have hslash : fs.follow [] "" = .ok [] :=
      follow_eq_ok_iff.mpr ⟨hview, Or.inl ⟨by decide, rfl⟩⟩
    simp [start, hslash]
  · rw [start_of_segments fs hq hne hsegments, List.foldlM_append, bind_eq_ok] at hfold
    obtain ⟨middle, hmiddle, hrest⟩ := hfold
    rw [List.foldlM_cons, bind_eq_ok] at hrest
    obtain ⟨next, hnext, -⟩ := hrest
    exact ⟨middle, resolve_eq_ok_iff.mpr ⟨checkPath_of_segments hcheck hq hne hsegments, hmiddle⟩,
      (follow_eq_ok_iff.mp hnext).1⟩

/-- If the parent of a path leads to a directory, then so do all paths above it. -/
theorem isDirectory_above {fs : FileSystem} {p : Path}
    (hparent : ∀ q, p.parent? = some q → q.text = "" ∨ fs.isDirectory q = true) {q : Path}
    (h : q.IsAbove p) : q.text = "" ∨ fs.isDirectory q = true := by
  induction h with
  | single hq => exact hparent _ hq
  | tail _ hq ih =>
    rcases ih with hempty | hdirectory
    · rw [Path.parent?_eq_none_of_text hempty] at hq
      cases hq
    · obtain ⟨place, hplace, -⟩ := isDirectory_iff.mp hdirectory
      exact isDirectory_parent hplace hq

end FileSystem

end ShutdownLint

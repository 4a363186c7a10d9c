import Mathlib.Data.List.Forall2
import ShutdownLint.Text.Lines
/-!
Lines as pieces. Cutting a text at each line feed and leaving out the empty piece behind a final one
gives the lines of the text, but for the carriage returns in front of the line feeds.
-/

set_option autoImplicit false

namespace ShutdownLint.Text

theorem length_splitOn {α : Type} [BEq α] [LawfulBEq α] (a : α) (xs : List α) :
    (xs.splitOn a).length = xs.count a + 1 := by
  induction xs with
  | nil => rfl
  | cons x xs ih =>
    rw [List.splitOn_cons_eq_if_modifyHead, List.count_cons]
    split
    · rw [List.length_cons, ih]
    · rw [List.length_modifyHead, ih, Nat.add_zero]

/-- Induction from the last piece to the first, along what cuts the pieces off. -/
@[elab_as_elim]
theorem pieces_induction {α : Type} (a : α) {P : List α → Prop}
    (last : ∀ piece, a ∉ piece → P piece)
    (cut : ∀ piece rest, a ∉ piece → P rest → P (piece ++ a :: rest)) (xs : List α) : P xs := by
  by_cases h : a ∈ xs
  · obtain ⟨piece, rest, hsplit, hpiece⟩ := List.eq_append_cons_of_mem h
    have hlt : rest.length < xs.length := by
      rw [hsplit, List.length_append, List.length_cons]
      omega
    rw [hsplit]
    exact cut piece rest hpiece (pieces_induction a last cut rest)
  · exact last xs h
termination_by xs.length

/-- The pieces without an empty one at the end. -/
def dropEmptyEnd (pieces : List (List Char)) : List (List Char) :=
  if pieces.getLast? = some [] then pieces.dropLast else pieces

/-- The pieces of a text between its line feeds, where an empty one at the end does not count. -/
def linePieces (cs : List Char) : List (List Char) :=
  dropEmptyEnd (cs.splitOn '\n')

theorem dropEmptyEnd_cons (piece : List Char) {pieces : List (List Char)} (h : pieces ≠ []) :
    dropEmptyEnd (piece :: pieces) = piece :: dropEmptyEnd pieces := by
  obtain ⟨p, ps, rfl⟩ := List.exists_cons_of_ne_nil h
  unfold dropEmptyEnd
  rw [List.getLast?_cons_cons, List.dropLast_cons_of_ne_nil h]
  split <;> rfl

theorem linePieces_lineFeed (cs : List Char) : linePieces ('\n' :: cs) = [] :: linePieces cs := by
  rw [linePieces, List.splitOn_cons_eq_if_modifyHead, if_pos (by simp),
    dropEmptyEnd_cons _ (List.splitOn_ne_nil _ _), linePieces]

/-- A character that is no line feed goes to the first line, which it makes if there is none. -/
theorem linePieces_cons {c : Char} (hc : c ≠ '\n') (cs : List Char) :
    linePieces (c :: cs) =
      match linePieces cs with
      | [] => [[c]]
      | first :: more => (c :: first) :: more := by
  obtain ⟨p, ps, hsplit⟩ := List.exists_cons_of_ne_nil (List.splitOn_ne_nil '\n' cs)
  rw [linePieces, List.splitOn_cons_eq_if_modifyHead, if_neg (by simpa using hc), linePieces,
    hsplit, List.modifyHead_cons]
  by_cases hps : ps = []
  · subst hps
    cases p <;> simp [dropEmptyEnd]
  · rw [dropEmptyEnd_cons _ hps, dropEmptyEnd_cons _ hps]

/-- The line is the piece, or the piece without a carriage return at its end. -/
def IsCutFrom (line piece : List Char) : Prop :=
  piece = line ∨ piece = line ++ ['\r']

theorem IsCutFrom.cons {line piece : List Char} (h : IsCutFrom line piece) (c : Char) :
    IsCutFrom (c :: line) (c :: piece) :=
  h.imp (congrArg (c :: ·)) (congrArg (c :: ·))

/-- The lines are the pieces without the carriage returns in front of the line feeds. -/
theorem forall₂_lines_linePieces (cs : List Char) :
    List.Forall₂ IsCutFrom (lines cs) (linePieces cs) := by
  fun_induction lines cs with
  | case1 => simp [linePieces, dropEmptyEnd]
  | case2 cs ih =>
    rw [linePieces_lineFeed]
    exact .cons (Or.inl rfl) ih
  | case3 cs ih =>
    rw [linePieces_cons (by decide), linePieces_lineFeed]
    exact .cons (Or.inr rfl) ih
  | case4 c cs hc _ hlines ih =>
    rw [hlines, List.forall₂_nil_left_iff] at ih
    rw [linePieces_cons hc, ih]
    exact .cons (Or.inl rfl) .nil
  | case5 c cs hc _ first more hlines ih =>
    rw [hlines] at ih
    obtain ⟨piece, pieces, hfirst, hmore, hpieces⟩ := List.forall₂_cons_left_iff.mp ih
    rw [linePieces_cons hc, hpieces]
    exact .cons (hfirst.cons c) hmore

end ShutdownLint.Text

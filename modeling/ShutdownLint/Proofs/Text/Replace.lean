import ShutdownLint.Text.Lines
/-!
What it means to replace a text. Reading goes from left to right, an occurrence of the pattern is
left behind as a whole when it has been replaced, and of what is put in for it nothing is read. So
the number of the occurrences and the outcome are determined, and `replaceFrom` finds them.

Where the character that a pattern begins with does not occur, nothing is replaced, so what is put
in for the only occurrence stands between the text in front of it and the text behind it, whatever
it is. A pattern of one character is replaced character by character.
-/

set_option autoImplicit false

namespace ShutdownLint.Text

/-- `Substitution pattern replacement n s t`: in `s` there are `n` occurrences of the pattern one
behind the other, and with the replacement in their places it is `t`. -/
inductive Substitution (pattern replacement : List Char) : Nat → List Char → List Char → Prop
  /-- Nothing is left to be read. -/
  | nil : Substitution pattern replacement 0 [] []
  /-- No occurrence begins here. -/
  | pass {n : Nat} {c : Char} {s t : List Char} (hnone : ¬pattern <+: c :: s)
      (hrest : Substitution pattern replacement n s t) :
      Substitution pattern replacement n (c :: s) (c :: t)
  /-- Here is an occurrence, and reading goes on behind it. -/
  | put {n : Nat} {s t : List Char} (hrest : Substitution pattern replacement n s t) :
      Substitution pattern replacement (n + 1) (pattern ++ s) (replacement ++ t)

variable {pattern replacement : List Char}

/-- By induction on the first of two substitutions: where one finds an occurrence the other has to
find it, too. -/
theorem Substitution.unique (hpattern : pattern ≠ []) {m n : Nat} {s t u : List Char}
    (ht : Substitution pattern replacement m s t) (hu : Substitution pattern replacement n s u) :
    m = n ∧ t = u := by
  induction ht generalizing n u with
  | nil =>
    generalize hs : [] = s at hu
    cases hu with
    | nil => exact ⟨rfl, rfl⟩
    | pass => cases hs
    | put => exact absurd (List.append_eq_nil_iff.mp hs.symm).1 hpattern
  | pass hnone _ ih =>
    generalize hs : _ :: _ = s at hu
    cases hu with
    | nil => cases hs
    | pass _ hrest =>
      obtain ⟨rfl, rfl⟩ := List.cons.inj hs
      obtain ⟨rfl, rfl⟩ := ih hrest
      exact ⟨rfl, rfl⟩
    | put => exact absurd ⟨_, hs.symm⟩ hnone
  | put _ ih =>
    generalize hs : pattern ++ _ = s at hu
    cases hu with
    | nil => exact absurd (List.append_eq_nil_iff.mp hs).1 hpattern
    | pass hnone => exact absurd ⟨_, hs⟩ hnone
    | put hrest =>
      obtain rfl := List.append_cancel_left hs
      obtain ⟨rfl, rfl⟩ := ih hrest
      exact ⟨rfl, rfl⟩

/-! ### How occurrences are found -/

theorem replaceFrom_skip (pattern replacement skipped more : List Char) :
    replaceFrom pattern replacement skipped.length (skipped ++ more) =
      replaceFrom pattern replacement 0 more := by
  induction skipped with
  | nil => rfl
  | cons c skipped ih => exact ih

theorem replaceFrom_pattern_append (hpattern : pattern ≠ []) (s : List Char) :
    replaceFrom pattern replacement 0 (pattern ++ s) =
      replacement ++ replaceFrom pattern replacement 0 s := by
  obtain ⟨c, rest, rfl⟩ := List.exists_cons_of_ne_nil hpattern
  have hprefix : (c :: rest).isPrefixOf (c :: (rest ++ s)) = true :=
    List.isPrefixOf_iff_prefix.mpr (List.prefix_append (c :: rest) s)
  rw [List.cons_append, replaceFrom, hprefix, if_pos rfl, List.length_cons, Nat.add_sub_cancel,
    replaceFrom_skip]

/-- What `replaceFrom` does is a substitution. -/
theorem exists_substitution_replaceFrom (hpattern : pattern ≠ []) (replacement s : List Char) :
    ∃ n, Substitution pattern replacement n s (replaceFrom pattern replacement 0 s) := by
  cases s with
  | nil => exact ⟨0, .nil⟩
  | cons c s =>
    by_cases hprefix : pattern <+: c :: s
    · obtain ⟨rest, hrest⟩ := hprefix
      -- The rest is shorter since the pattern is not empty.
      have hshorter : rest.length < (c :: s).length := by
        rw [← hrest, List.length_append]
        exact Nat.lt_add_of_pos_left (List.length_pos_iff.mpr hpattern)
      obtain ⟨n, hn⟩ := exists_substitution_replaceFrom hpattern replacement rest
      rw [← hrest, replaceFrom_pattern_append hpattern]
      exact ⟨n + 1, .put hn⟩
    · obtain ⟨n, hn⟩ := exists_substitution_replaceFrom hpattern replacement s
      rw [replaceFrom, if_neg (mt List.isPrefixOf_iff_prefix.mp hprefix)]
      exact ⟨n, .pass hprefix hn⟩
termination_by s.length
decreasing_by
  · exact hshorter
  · exact Nat.lt_succ_self _

/-- The substitution in a text is the one that `replace` makes. -/
theorem Substitution.eq_replace {p r s : String} (hp : p.toList ≠ []) {n : Nat} {t : List Char}
    (h : Substitution p.toList r.toList n s.toList t) : replace p r s = String.ofList t := by
  obtain ⟨m, hm⟩ := exists_substitution_replaceFrom hp r.toList s.toList
  rw [replace, (hm.unique hp h).2]

/-! ### A single occurrence -/

/-- Where the first character of the pattern does not occur, nothing is replaced. -/
theorem Substitution.append {c : Char} {n : Nat} {before s t : List Char} (hbefore : c ∉ before)
    (h : Substitution (c :: pattern) replacement n s t) :
    Substitution (c :: pattern) replacement n (before ++ s) (before ++ t) := by
  induction before with
  | nil => exact h
  | cons d before ih =>
    obtain ⟨hd, hbefore⟩ := not_or.mp (mt List.mem_cons.mpr hbefore)
    exact .pass (fun hprefix ↦ hd (List.cons_prefix_cons.mp hprefix).1) (ih hbefore)

/-- A pattern that stands in one place is replaced once. -/
theorem Substitution.around {c : Char} {before after : List Char} (hbefore : c ∉ before)
    (hafter : c ∉ after) : Substitution (c :: pattern) replacement 1
      (before ++ (c :: pattern ++ after)) (before ++ (replacement ++ after)) := by
  have hrest : Substitution (c :: pattern) replacement 0 after after := by
    simpa using Substitution.append hafter .nil
  exact .append hbefore (.put hrest)

/-! ### A single character as the pattern -/

/-- Such occurrences cannot overlap, so each character is looked at on its own. -/
theorem replaceFrom_singleton (c : Char) (replacement s : List Char) :
    replaceFrom [c] replacement 0 s = s.flatMap fun d ↦ if d = c then replacement else [d] := by
  induction s with
  | nil => rfl
  | cons d s ih =>
    rw [replaceFrom, List.flatMap_cons, List.length_singleton, ih]
    by_cases h : d = c
    · simp [h]
    · simp [h, Ne.symm h]

theorem toList_replace_singleton {p : String} {c : Char} (hp : p.toList = [c]) (r s : String) :
    (replace p r s).toList = s.toList.flatMap fun d ↦ if d = c then r.toList else [d] := by
  rw [replace, String.toList_ofList, hp, replaceFrom_singleton]

/-! ### The characters of a literal

A literal is quickly looked through as a list, but not as the bytes that a string is made of. -/

variable {p : Char → Bool}

theorem all_toList_ofList {cs : List Char} (h : cs.all p = true) :
    (String.ofList cs).toList.all p = true := by
  rwa [String.toList_ofList]

theorem all_toList_append {s t : String} (hs : s.toList.all p = true)
    (ht : t.toList.all p = true) : (s ++ t).toList.all p = true := by
  rw [String.toList_append, List.all_append, hs, ht]
  rfl

theorem notMem_of_all {c : Char} {cs : List Char} (h : cs.all (· != c) = true) : c ∉ cs := by
  rw [List.all_bne'] at h
  simpa using h

end ShutdownLint.Text

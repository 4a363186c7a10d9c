import Mathlib.Algebra.GroupWithZero.Nat
import ShutdownLint.Proofs.Report.JunitReadBack
/-!
The tags in a JUnit suite, counted in its text.

Escaping leaves no angle bracket in a value, so tags are only opened where they are written. The
exception is the identifier of a rule, which is written as it is: it opens the tags that it contains
itself, which for the identifiers of the rules are none.
-/

set_option autoImplicit false

namespace ShutdownLint.Report.Junit

/-! ### Counting -/

/-- How often a tag is opened in a text: in how many places its name stands behind a bracket. -/
def openings (tag : String) : List Char → Nat
  | [] => 0
  | c :: cs => (if ('<' :: tag.toList).isPrefixOf (c :: cs) then 1 else 0) + openings tag cs

theorem isPrefixOf_append_cons {c : Char} {word : List Char} (h : c ∉ word) (cs ds : List Char) :
    word.isPrefixOf (cs ++ c :: ds) = word.isPrefixOf cs := by
  induction cs generalizing word with
  | nil =>
    cases word with
    | nil => rfl
    | cons d word =>
      have hd : d ≠ c := fun hd ↦ h (hd ▸ List.mem_cons_self)
      simp [List.isPrefixOf, hd]
  | cons d cs ih =>
    cases word with
    | nil => rfl
    | cons e word =>
      rw [List.cons_append, List.isPrefixOf, List.isPrefixOf,
        ih fun hc ↦ h (List.mem_cons_of_mem e hc)]

variable {tag : String}

theorem openings_cons_of_ne {c : Char} (h : c ≠ '<') (cs : List Char) :
    openings tag (c :: cs) = openings tag cs := by
  have hprefix : ('<' :: tag.toList).isPrefixOf (c :: cs) = false := by
    simp [List.isPrefixOf, h.symm]
  rw [openings, hprefix, if_neg Bool.false_ne_true, Nat.zero_add]

/-- Without an angle bracket no tag is opened. -/
theorem openings_append_of_notMem {cs : List Char} (h : '<' ∉ cs) (ds : List Char) :
    openings tag (cs ++ ds) = openings tag ds := by
  induction cs with
  | nil => rfl
  | cons c cs ih =>
    obtain ⟨hc, hcs⟩ := not_or.mp (mt List.mem_cons.mpr h)
    rw [List.cons_append, openings_cons_of_ne (Ne.symm hc), ih hcs]

/-- No tag reaches over a character that is not part of it. -/
theorem openings_append_cons {c : Char} (h : c ∉ '<' :: tag.toList) (cs ds : List Char) :
    openings tag (cs ++ c :: ds) = openings tag cs + openings tag ds := by
  induction cs with
  | nil =>
    obtain ⟨hc, -⟩ := not_or.mp (mt List.mem_cons.mpr h)
    rw [List.nil_append, openings_cons_of_ne hc, openings, Nat.zero_add]
  | cons d cs ih =>
    rw [List.cons_append, openings, ← List.cons_append, isPrefixOf_append_cons h, ih, openings,
      Nat.add_assoc]

/-! ### Values -/

theorem bracket_notMem_attr {name : String} (h : '<' ∉ name.toList) (s : String) :
    '<' ∉ (attr name (escape s)).toList := by
  simp [attr, h, notMem_escape]

theorem bracket_notMem_id (r : Rule) : '<' ∉ r.id.toList := by
  cases r <;> decide

/-! ### Test cases -/

/-- The two tags that findings give rise to. -/
def findingTags : List String :=
  ["testcase", "failure"]

/-- How often a finding opens a tag: as its test case, in the identifier of its rule, and as a
failure if it is an error. -/
def openingsOf (tag : String) (f : Finding) : Nat :=
  openings tag "<testcase".toList + openings tag f.rule.toList +
    if f.severity = .error then openings tag "<failure".toList else 0

theorem separator_notMem (htag : tag ∈ findingTags) {c : Char} (hc : c ∈ [' ', ':', '\n']) :
    c ∉ '<' :: tag.toList := by
  simp only [findingTags, List.mem_cons, List.not_mem_nil, or_false] at htag hc
  rcases htag with rfl | rfl <;> rcases hc with rfl | rfl | rfl <;> decide

/-- No tag reaches into an attribute. -/
theorem openings_append_attr (htag : tag ∈ findingTags) {name : String} (hname : '<' ∉ name.toList)
    (s : String) (cs ds : List Char) :
    openings tag (cs ++ ((attr name (escape s)).toList ++ ds)) =
      openings tag cs + openings tag ds := by
  obtain ⟨rest, hattr⟩ : ∃ rest, (attr name (escape s)).toList = ' ' :: rest := by simp [attr]
  have hrest : '<' ∉ rest := fun h ↦
    bracket_notMem_attr hname s (hattr ▸ List.mem_cons_of_mem ' ' h)
  rw [hattr, List.cons_append, openings_append_cons (separator_notMem htag (by decide)),
    openings_append_of_notMem hrest]

theorem openings_failure_append (htag : tag ∈ findingTags) (f : Finding) (cs : List Char) :
    openings tag ((failure f).toList ++ cs) =
      (if f.severity = .error then openings tag "<failure".toList else 0) + openings tag cs := by
  by_cases herror : f.severity = .error
  · have hfailure : (failure f).toList ++ cs = "<failure".toList ++
        ((attr "message" (escape f.message)).toList ++ ("/>".toList ++ cs)) := by
      simp [failure, herror]
    rw [hfailure, if_pos herror, openings_append_attr htag (by decide),
      openings_append_of_notMem (by decide)]
  · have hfailure : failure f = "" := if_neg herror
    rw [hfailure, if_neg herror, Nat.zero_add]
    rfl

theorem openings_testCase_append (htag : tag ∈ findingTags) (f : Finding) (cs : List Char) :
    openings tag ((testCase f).toList ++ cs) = openingsOf tag f + openings tag cs := by
  have htext : (testCase f).toList ++ cs = "    ".toList ++ ("<testcase".toList ++ ' ' ::
      ("name=\"".toList ++ (f.rule.toList ++ ':' ::
        ((" " ++ escape (shorten f.message) ++ "\"").toList ++
          ((attr "classname" (escape f.file)).toList ++ (">".toList ++
            ((failure f).toList ++ ("</testcase>".toList ++ '\n' :: cs)))))))) := by
    unfold testCase attr
    simp only [String.toList_append, List.append_assoc]
    rfl
  have hname : '<' ∉ (" " ++ escape (shorten f.message) ++ "\"").toList := by
    simp [notMem_escape]
  have hclosing : ∀ tag ∈ findingTags, openings tag "</testcase>".toList = 0 := by decide
  rw [htext, openings_append_of_notMem (by decide),
    openings_append_cons (separator_notMem htag (by decide)),
    openings_append_of_notMem (by decide),
    openings_append_cons (separator_notMem htag (by decide)), openings_append_of_notMem hname,
    openings_append_of_notMem (bracket_notMem_attr (by decide) _),
    openings_append_of_notMem (by decide), openings_failure_append htag,
    openings_append_cons (separator_notMem htag (by decide)), hclosing tag htag, openingsOf]
  omega

theorem openings_testCases_append (htag : tag ∈ findingTags) (fs : List Finding) (cs : List Char) :
    openings tag ((fs.flatMap fun f ↦ (testCase f).toList) ++ cs) =
      (fs.map (openingsOf tag)).sum + openings tag cs := by
  induction fs with
  | nil => simp
  | cons f fs ih =>
    rw [List.flatMap_cons, List.append_assoc, openings_testCase_append htag, ih, List.map_cons,
      List.sum_cons, Nat.add_assoc]

/-! ### Suites -/

theorem openings_renderJunit (htag : tag ∈ findingTags) (fs : List Finding) :
    openings tag (renderJunit fs).toList = (fs.map (openingsOf tag)).sum := by
  have hheader : ∀ tag ∈ findingTags, openings tag
      "<?xml version=\"1.0\"?>\n<testsuites>\n  <testsuite".toList = 0 := by decide
  have hfooter : ∀ tag ∈ findingTags, openings tag footer.toList = 0 := by decide
  rw [toList_renderJunit, openings_append_attr htag (by decide), hheader tag htag,
    openings_append_of_notMem (bracket_notMem_attr (by decide) _),
    openings_append_of_notMem (bracket_notMem_attr (by decide) _),
    openings_append_of_notMem (by decide), openings_testCases_append htag, hfooter tag htag]
  omega

/-- How often the identifiers of the rules open a tag. -/
def openingsOfRules (tag : String) (fs : List Finding) : Nat :=
  (fs.map fun f ↦ openings tag f.rule.toList).sum

/-- There is a test case for each finding. -/
theorem openings_testcase_renderJunit (fs : List Finding) :
    openings "testcase" (renderJunit fs).toList = fs.length + openingsOfRules "testcase" fs := by
  have hone (f : Finding) :
      openingsOf "testcase" f = 1 + openings "testcase" f.rule.toList := by
    have htestcase : openings "testcase" "<testcase".toList = 1 := by decide
    have hfailure : openings "testcase" "<failure".toList = 0 := by decide
    rw [openingsOf, htestcase, hfailure, ite_self, Nat.add_zero]
  rw [openings_renderJunit (by decide), openingsOfRules]
  induction fs with
  | nil => rfl
  | cons f fs ih =>
    simp only [List.map_cons, List.sum_cons, List.length_cons, ih, hone]
    omega

/-- There is a failure for each error. -/
theorem openings_failure_renderJunit (fs : List Finding) :
    openings "failure" (renderJunit fs).toList =
      fs.countP (·.severity == .error) + openingsOfRules "failure" fs := by
  have hone (f : Finding) : openingsOf "failure" f =
      (if f.severity == .error then 1 else 0) + openings "failure" f.rule.toList := by
    have htestcase : openings "failure" "<testcase".toList = 0 := by decide
    have hfailure : openings "failure" "<failure".toList = 1 := by decide
    simp only [openingsOf, htestcase, hfailure, beq_iff_eq]
    omega
  rw [openings_renderJunit (by decide), openingsOfRules]
  induction fs with
  | nil => rfl
  | cons f fs ih =>
    simp only [List.map_cons, List.sum_cons, List.countP_cons, ih, hone]
    omega

/-- The identifiers of the rules open no tags. -/
theorem openingsOfRules_eq_zero {fs : List Finding} (h : ∀ f ∈ fs, f.rule ∈ Rule.allIds) :
    openingsOfRules tag fs = 0 := by
  refine List.sum_eq_zero_iff_forall_eq_nat.mpr fun n hn ↦ ?_
  obtain ⟨f, hf, rfl⟩ := List.mem_map.mp hn
  obtain ⟨r, hr⟩ := Rule.mem_allIds_iff.mp (h f hf)
  have hbracket : '<' ∉ f.rule.toList := hr ▸ bracket_notMem_id r
  rw [← List.append_nil f.rule.toList, openings_append_of_notMem hbracket, openings]

end ShutdownLint.Report.Junit

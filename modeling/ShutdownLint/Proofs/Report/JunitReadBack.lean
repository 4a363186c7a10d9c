import Mathlib.Data.List.TakeWhile
import ShutdownLint.Proofs.Check.Severity
import ShutdownLint.Proofs.Decimal.Digits
import ShutdownLint.Proofs.Text.Replace
import ShutdownLint.Report.Junit
/-!
JUnit suites are read back.

`read?` reads a suite by its grammar: a header with the two counters, test cases as long as there
are any, and a footer. The value of an attribute goes up to the next quote, and its entities are
decoded. Escaping is undone by this and leaves no quote in a value, so each attribute that is
written is read where it stands, whatever stands behind it. The identifier of a rule is written as
it is, and none of the rules has one that would need to be escaped.
-/

set_option autoImplicit false

namespace ShutdownLint.Report.Junit

/-! ### The grammar -/

/-- A test case. It has the message of its failure if it has failed. -/
structure TestCase where
  name : String
  className : String
  failure : Option String
  deriving DecidableEq, Inhabited, Repr

structure Suite where
  name : String
  tests : Nat
  failures : Nat
  cases : List TestCase
  deriving DecidableEq, Inhabited, Repr

/-- What a value stands for. An ampersand that begins none of the four entities is an error. -/
def decode? : List Char → Option (List Char)
  | [] => some []
  | '&' :: 'q' :: 'u' :: 'o' :: 't' :: ';' :: cs => (decode? cs).map ('\x22' :: ·)
  | '&' :: 'l' :: 't' :: ';' :: cs => (decode? cs).map ('<' :: ·)
  | '&' :: 'g' :: 't' :: ';' :: cs => (decode? cs).map ('>' :: ·)
  | '&' :: 'a' :: 'm' :: 'p' :: ';' :: cs => (decode? cs).map ('&' :: ·)
  | c :: cs => if c = '&' then none else (decode? cs).map (c :: ·)

/-- The value in front of the next quote, and what stands behind this quote. -/
def readValue? (cs : List Char) : Option (String × List Char) :=
  match cs.dropWhile (· != '\x22') with
  | [] => none
  | _ :: rest =>
    (decode? (cs.takeWhile (· != '\x22'))).map fun value ↦ (String.ofList value, rest)

/-- What stands behind a text. -/
def skip? (word : String) (cs : List Char) : Option (List Char) :=
  word.toList.isPrefixOf? cs

def readAttr? (name : String) (cs : List Char) : Option (String × List Char) :=
  (skip? (" " ++ name ++ "=\"") cs).bind readValue?

/-- The failure of a test case, which may be missing. -/
def readFailure? (cs : List Char) : Option (Option String × List Char) :=
  match skip? "<failure" cs with
  | none => some (none, cs)
  | some cs => do
    let (message, cs) ← readAttr? "message" cs
    let cs ← skip? "/>" cs
    return (some message, cs)

def readCase? (cs : List Char) : Option (TestCase × List Char) := do
  let cs ← skip? "    <testcase" cs
  let (name, cs) ← readAttr? "name" cs
  let (className, cs) ← readAttr? "classname" cs
  let cs ← skip? ">" cs
  let (failure, cs) ← readFailure? cs
  let cs ← skip? "</testcase>\n" cs
  return (⟨name, className, failure⟩, cs)

theorem skip?_eq_some_iff {word : String} {cs rest : List Char} :
    skip? word cs = some rest ↔ word.toList ++ rest = cs :=
  List.isPrefixOf?_eq_some_iff_append_eq

theorem length_readValue?_le {cs rest : List Char} {value : String}
    (h : readValue? cs = some (value, rest)) : rest.length ≤ cs.length := by
  have hdrop : (cs.dropWhile (· != '\x22')).length ≤ cs.length := List.length_dropWhile_le ..
  unfold readValue? at h
  split at h
  · cases h
  · rename_i quote behind hcut
    obtain ⟨_, -, hvalue⟩ := Option.map_eq_some_iff.mp h
    obtain rfl : behind = rest := (Prod.mk.inj hvalue).2
    rw [hcut, List.length_cons] at hdrop
    omega

theorem length_skip?_le {word : String} {cs rest : List Char} (h : skip? word cs = some rest) :
    rest.length ≤ cs.length := by
  rw [← skip?_eq_some_iff.mp h, List.length_append]
  omega

theorem length_readAttr?_le {name value : String} {cs rest : List Char}
    (h : readAttr? name cs = some (value, rest)) : rest.length ≤ cs.length := by
  obtain ⟨behind, hskip, hvalue⟩ := Option.bind_eq_some_iff.mp h
  exact (length_readValue?_le hvalue).trans (length_skip?_le hskip)

theorem length_readFailure?_le {cs rest : List Char} {failure : Option String}
    (h : readFailure? cs = some (failure, rest)) : rest.length ≤ cs.length := by
  unfold readFailure? at h
  split at h
  · cases h
    exact le_rfl
  · rename_i behind hskip
    simp only [Option.bind_eq_bind, Option.bind_eq_some_iff, Option.pure_def] at h
    obtain ⟨⟨message, last⟩, hattr, end', hend, ⟨⟩⟩ := h
    exact ((length_skip?_le hend).trans (length_readAttr?_le hattr)).trans (length_skip?_le hskip)

/-- Reading a test case takes something off the text. -/
theorem length_readCase?_lt {cs rest : List Char} {c : TestCase}
    (h : readCase? cs = some (c, rest)) : rest.length < cs.length := by
  simp only [readCase?, Option.bind_eq_bind, Option.bind_eq_some_iff, Option.pure_def] at h
  obtain ⟨behind, hskip, ⟨name, cs₁⟩, hname, ⟨className, cs₂⟩, hclass, cs₃, hangle,
    ⟨failure, cs₄⟩, hfailure, cs₅, hend, ⟨⟩⟩ := h
  have hbehind : behind.length < cs.length := by
    rw [← skip?_eq_some_iff.mp hskip, List.length_append]
    exact Nat.lt_add_of_pos_left (by decide)
  calc rest.length
      ≤ cs₄.length := length_skip?_le hend
    _ ≤ cs₃.length := length_readFailure?_le hfailure
    _ ≤ cs₂.length := length_skip?_le hangle
    _ ≤ cs₁.length := length_readAttr?_le hclass
    _ ≤ behind.length := length_readAttr?_le hname
    _ < cs.length := hbehind

/-- The test cases at the front of a text, and what stands behind the last one. -/
def readCases (cs : List Char) : List TestCase × List Char :=
  match _h : readCase? cs with
  | none => ([], cs)
  | some (c, rest) => (c :: (readCases rest).1, (readCases rest).2)
termination_by cs.length
decreasing_by all_goals exact length_readCase?_lt _h

/-- A number in digits. -/
def readNumber? (s : String) : Option Nat :=
  if s.toList ≠ [] ∧ s.toList.all Decimal.isDigit then some (Decimal.value s.toList) else none

def read? (text : String) : Option Suite := do
  let cs ← skip? "<?xml version=\"1.0\"?>\n<testsuites>\n  <testsuite" text.toList
  let (name, cs) ← readAttr? "name" cs
  let (tests, cs) ← readAttr? "tests" cs
  let tests ← readNumber? tests
  let (failures, cs) ← readAttr? "failures" cs
  let failures ← readNumber? failures
  let cs ← skip? ">\n" cs
  let (cases, cs) := readCases cs
  let cs ← skip? "  </testsuite>\n</testsuites>\n" cs
  if cs.isEmpty then return { name, tests, failures, cases } else none

/-! ### Values -/

/-- A character in the value of an attribute. -/
def escapeChar (c : Char) : List Char :=
  match c with
  | '&' => "&amp;".toList
  | '\x22' => "&quot;".toList
  | '<' => "&lt;".toList
  | '>' => "&gt;".toList
  | c => [c]

theorem escapeChar_eq_self {c : Char} (h : c ∉ ['&', '\x22', '<', '>']) : escapeChar c = [c] := by
  simp only [List.mem_cons, List.not_mem_nil, or_false, not_or] at h
  obtain ⟨hamp, hquote, hless, hgreater⟩ := h
  unfold escapeChar
  split
  · exact absurd rfl hamp
  · exact absurd rfl hquote
  · exact absurd rfl hless
  · exact absurd rfl hgreater
  · rfl

/-- The four replacements after one another do the same as a single one. None of them finds anything
in what an earlier one has put in, since ampersands are replaced first. -/
theorem toList_escape (s : String) : (escape s).toList = s.toList.flatMap escapeChar := by
  unfold escape
  rw [Text.toList_replace_singleton (c := '>') rfl, Text.toList_replace_singleton (c := '<') rfl,
    Text.toList_replace_singleton (c := '\x22') rfl, Text.toList_replace_singleton (c := '&') rfl,
    List.flatMap_assoc, List.flatMap_assoc, List.flatMap_assoc]
  refine List.flatMap_congr fun c _ ↦ ?_
  by_cases hspecial : c ∈ ['&', '\x22', '<', '>']
  · simp only [List.mem_cons, List.not_mem_nil, or_false] at hspecial
    rcases hspecial with rfl | rfl | rfl | rfl <;> rfl
  · rw [escapeChar_eq_self hspecial]
    simp only [List.mem_cons, List.not_mem_nil, or_false, not_or] at hspecial
    obtain ⟨hamp, hquote, hless, hgreater⟩ := hspecial
    simp only [hamp, hquote, hless, hgreater, if_false, List.flatMap_singleton]

theorem decode?_cons {c : Char} (hc : c ≠ '&') (cs : List Char) :
    decode? (c :: cs) = (decode? cs).map (c :: ·) := by
  conv_lhs => unfold decode?
  split <;> simp_all

theorem decode?_escapeChar_append (c : Char) (cs : List Char) :
    decode? (escapeChar c ++ cs) = (decode? cs).map (c :: ·) := by
  unfold escapeChar
  split
  · rfl
  · rfl
  · rfl
  · rfl
  case h_5 hamp _ _ _ => exact decode?_cons hamp cs

/-- Decoding undoes escaping. -/
theorem decode?_escape (s : String) : decode? (escape s).toList = some s.toList := by
  rw [toList_escape]
  induction s.toList with
  | nil => rfl
  | cons c cs ih => rw [List.flatMap_cons, decode?_escapeChar_append, ih, Option.map_some]

theorem notMem_escapeChar {special : Char} (h : special ∈ ['\x22', '<', '>']) (c : Char) :
    special ∉ escapeChar c := by
  simp only [List.mem_cons, List.not_mem_nil, or_false] at h
  unfold escapeChar
  split
  case h_5 _ hquote hless hgreater =>
    rw [List.mem_singleton]
    rintro rfl
    rcases h with h | h | h
    · exact hquote h
    · exact hless h
    · exact hgreater h
  all_goals rcases h with rfl | rfl | rfl <;> decide

/-- No quote and no angle bracket is left in a value. -/
theorem notMem_escape {special : Char} (h : special ∈ ['\x22', '<', '>']) (s : String) :
    special ∉ (escape s).toList := by
  rw [toList_escape, List.mem_flatMap]
  rintro ⟨c, -, hc⟩
  exact notMem_escapeChar h c hc

theorem escape_append (s t : String) : escape (s ++ t) = escape s ++ escape t := by
  simp [← String.toList_inj, toList_escape]

/-! ### Parts of the text -/

theorem skip?_append (word : String) (cs : List Char) :
    skip? word (word.toList ++ cs) = some cs :=
  skip?_eq_some_iff.mpr rfl

theorem readValue?_append {value : List Char} (h : '\x22' ∉ value) (cs : List Char) :
    readValue? (value ++ '\x22' :: cs) =
      (decode? value).map fun decoded ↦ (String.ofList decoded, cs) := by
  have hvalue : ∀ c ∈ value, (c != '\x22') = true := fun c hc ↦
    bne_iff_ne.mpr (ne_of_mem_of_not_mem hc h)
  rw [readValue?, List.dropWhile_append_of_pos hvalue, List.takeWhile_append_of_pos hvalue]
  simp

/-- An attribute with an escaped value is read where it stands. -/
theorem readAttr?_attr (name s : String) (cs : List Char) :
    readAttr? name ((attr name (escape s)).toList ++ cs) = some (s, cs) := by
  have hattr : (attr name (escape s)).toList ++ cs =
      (" " ++ name ++ "=\"").toList ++ ((escape s).toList ++ '\x22' :: cs) := by
    simp [attr]
  rw [readAttr?, hattr, skip?_append, Option.bind_some,
    readValue?_append (notMem_escape (by decide) s), decode?_escape]
  simp

/-- Nothing is escaped in a text without special characters. -/
theorem escape_eq_self {s : String} (h : ∀ c ∈ s.toList, escapeChar c = [c]) : escape s = s := by
  rw [← String.toList_inj, toList_escape, List.flatMap_congr h, List.flatMap_singleton']

theorem escapeChar_of_isDigit {c : Char} (h : Decimal.isDigit c = true) : escapeChar c = [c] := by
  unfold escapeChar
  split
  · cases h
  · cases h
  · cases h
  · cases h
  · rfl

theorem readNumber?_text (n : Nat) : readNumber? (Decimal.text n) = some n := by
  have hdigits : (Decimal.digits n).all Decimal.isDigit = true :=
    List.all_eq_true.mpr fun _ hc ↦ Decimal.isDigit_of_mem_digits hc
  rw [readNumber?, Decimal.text, String.toList_ofList,
    if_pos ⟨Decimal.digits_ne_nil n, hdigits⟩, Decimal.value_digits]

/-! ### Test cases -/

/-- The test case of a finding. -/
def caseOf (f : Finding) : TestCase where
  name := f.rule ++ ": " ++ String.ofList (f.message.toList.take 60)
  className := f.file
  failure := if f.severity = .error then some f.message else none

theorem escape_of_mem_allIds {id : String} (h : id ∈ Rule.allIds) : escape id = id := by
  obtain ⟨r, rfl⟩ := Rule.mem_allIds_iff.mp h
  cases r <;> rfl

theorem readFailure?_failure (f : Finding) (cs : List Char) :
    readFailure? ((failure f).toList ++ ("</testcase>\n".toList ++ cs)) =
      some ((caseOf f).failure, "</testcase>\n".toList ++ cs) := by
  by_cases herror : f.severity = .error
  · have hfailure : (failure f).toList ++ ("</testcase>\n".toList ++ cs) =
        "<failure".toList ++ ((attr "message" (escape f.message)).toList ++
          ("/>".toList ++ ("</testcase>\n".toList ++ cs))) := by
      simp [failure, herror]
    rw [readFailure?, hfailure, skip?_append]
    simp only [Option.bind_eq_bind, readAttr?_attr, Option.bind_some, skip?_append,
      Option.pure_def, caseOf, if_pos herror]
  · have hnone : skip? "<failure" ((failure f).toList ++ ("</testcase>\n".toList ++ cs)) =
        none := by
      simp [failure, herror, skip?, List.isPrefixOf?]
    rw [readFailure?, hnone]
    simp only [failure, caseOf, if_neg herror, String.toList_empty, List.nil_append]

theorem readCase?_testCase {f : Finding} (h : f.rule ∈ Rule.allIds) (cs : List Char) :
    readCase? ((testCase f).toList ++ cs) = some (caseOf f, cs) := by
  have hname : f.rule ++ ": " ++ escape (shorten f.message) = escape (caseOf f).name := by
    rw [caseOf, escape_append, escape_append, escape_of_mem_allIds h]
    rfl
  have htext : (testCase f).toList ++ cs = "    <testcase".toList ++
      ((attr "name" (escape (caseOf f).name)).toList ++
        ((attr "classname" (escape f.file)).toList ++ (">".toList ++
          ((failure f).toList ++ ("</testcase>\n".toList ++ cs))))) := by
    unfold testCase
    simp only [hname, String.toList_append, List.append_assoc]
  rw [htext, readCase?, skip?_append]
  simp only [Option.bind_eq_bind, Option.bind_some, readAttr?_attr, skip?_append,
    readFailure?_failure, Option.pure_def]
  rfl

theorem readCases_of_none {cs : List Char} (h : readCase? cs = none) : readCases cs = ([], cs) := by
  rw [readCases]
  split
  case h_1 => rfl
  case h_2 hsome => cases h.symm.trans hsome

theorem readCases_of_some {cs rest : List Char} {c : TestCase}
    (h : readCase? cs = some (c, rest)) :
    readCases cs = (c :: (readCases rest).1, (readCases rest).2) := by
  rw [readCases]
  split
  case h_1 hnone => cases h.symm.trans hnone
  case h_2 hsome =>
    cases h.symm.trans hsome
    rfl

/-- The test cases of findings end where no other test case begins. -/
theorem readCases_testCases {fs : List Finding} (h : ∀ f ∈ fs, f.rule ∈ Rule.allIds)
    {cs : List Char} (hcs : readCase? cs = none) :
    readCases ((fs.flatMap fun f ↦ (testCase f).toList) ++ cs) = (fs.map caseOf, cs) := by
  induction fs with
  | nil => exact readCases_of_none hcs
  | cons f fs ih =>
    obtain ⟨hf, hfs⟩ := List.forall_mem_cons.mp h
    rw [List.flatMap_cons, List.append_assoc, readCases_of_some (readCase?_testCase hf _), ih hfs]
    rfl

/-! ### Suites -/

theorem escape_text (n : Nat) : escape (Decimal.text n) = Decimal.text n := by
  refine escape_eq_self fun c hc ↦ escapeChar_of_isDigit (Decimal.isDigit_of_mem_digits (n := n) ?_)
  rwa [Decimal.text, String.toList_ofList] at hc

theorem toList_renderJunit (fs : List Finding) : (renderJunit fs).toList =
    "<?xml version=\"1.0\"?>\n<testsuites>\n  <testsuite".toList ++
      ((attr "name" (escape displayName)).toList ++
        ((attr "tests" (escape (Decimal.text fs.length))).toList ++
          ((attr "failures" (escape (Decimal.text (fs.countP (·.severity == .error))))).toList ++
            (">\n".toList ++
              ((fs.flatMap fun f ↦ (testCase f).toList) ++ footer.toList))))) := by
  have hname : escape displayName = displayName := by decide +kernel
  rw [hname, escape_text, escape_text]
  unfold renderJunit header
  simp only [String.toList_append, String.toList_join, List.flatMap_map, List.append_assoc]

/-- All findings have identifiers of rules, and whatever else their texts are, reading the suite of
such findings succeeds. It tells how many findings and how many errors there are, and has a test
case for each finding in their order: with the beginning of the message behind the rule, with the
file, and with the whole message as a failure exactly if the finding is an error. -/
theorem read?_renderJunit :
    (∀ (kind : ArtifactKind) (content file : String),
      ∀ f ∈ kind.findings content file, f.rule ∈ Rule.allIds) ∧
    ∀ fs : List Finding, (∀ f ∈ fs, f.rule ∈ Rule.allIds) →
      read? (renderJunit fs) = some
        { name := "DrainGuard"
          tests := fs.length
          failures := fs.countP (·.severity == .error)
          cases := fs.map fun f ↦
            { name := f.rule ++ ": " ++ String.ofList (f.message.toList.take 60)
              className := f.file
              failure := if f.severity = .error then some f.message else none } } := by
  constructor
  · intro kind content file f hf
    obtain ⟨r, -, hrule, -⟩ := ArtifactKind.exists_rule_of_mem hf
    exact Rule.mem_allIds_iff.mpr ⟨r, hrule.symm⟩
  · intro fs h
    have hfooter : readCase? footer.toList = none := by decide
    rw [read?, toList_renderJunit, skip?_append]
    simp only [Option.bind_eq_bind, Option.bind_some, readAttr?_attr, readNumber?_text,
      skip?_append, readCases_testCases h hfooter]
    rfl

/-- Markup in a message, of which the part in the name ends with the first of two ampersands, and
a file that looks like an entity. -/
def markup : List Finding :=
  [⟨"DG001", .error, "</testcase>&amp;\"" ++ String.ofList (List.replicate 42 'x') ++ "&&", "<a>",
      some 1⟩,
    ⟨"DG103", .warning, "\u00e9\n", "&quot;", none⟩]

theorem read?_renderJunit_markup : (∀ f ∈ markup, f.rule ∈ Rule.allIds) ∧
    read? (renderJunit markup) = some
      { name := "DrainGuard"
        tests := 2
        failures := 1
        cases :=
          [{ name := "DG001: </testcase>&amp;\"" ++ String.ofList (List.replicate 42 'x') ++ "&"
             className := "<a>"
             failure := some
              ("</testcase>&amp;\"" ++ String.ofList (List.replicate 42 'x') ++ "&&") },
            { name := "DG103: \u00e9\n", className := "&quot;", failure := none }] } := by
  have hrules : ∀ f ∈ markup, f.rule ∈ Rule.allIds := by decide
  refine ⟨hrules, (read?_renderJunit.2 markup hrules).trans ?_⟩
  decide +kernel

end ShutdownLint.Report.Junit

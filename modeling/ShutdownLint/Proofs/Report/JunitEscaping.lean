import ShutdownLint.Proofs.Check.Composition
import ShutdownLint.Proofs.Report.JunitTags
import ShutdownLint.Proofs.Report.Markup
/-!
The values in a JUnit suite. A suite is put together from tags whose values are escaped texts of
findings, with one exception: the name of a test case begins with the identifier of the rule as it
is. So a suite is read as the tags that it has been put together from exactly if all identifiers of
rules happen to be escaped.
-/

set_option autoImplicit false

namespace ShutdownLint.Report.Junit

open Markup

/-! ### A suite in pieces -/

def caseTag (f : Finding) : Tag where
  name := "testcase"
  attributes :=
    [("name", f.rule ++ ": " ++ escape (shorten f.message)), ("classname", escape f.file)]

def failureTag (f : Finding) : Tag where
  name := "failure"
  attributes := [("message", escape f.message)]

def suiteTag (fs : List Finding) : Tag where
  name := "testsuite"
  attributes :=
    [("name", displayName), ("tests", Decimal.text fs.length),
      ("failures", Decimal.text (fs.countP (·.severity == .error)))]

def casePieces (f : Finding) : List Piece :=
  [.text "    ", .opening (caseTag f)] ++
    (if f.severity = .error then [.empty (failureTag f)] else []) ++
    [.aside "/testcase", .text "\n"]

/-- What stands in front of the tag of a suite. -/
def frontPieces : List Piece :=
  [.aside "?xml version=\"1.0\"?", .text "\n", .opening ⟨"testsuites", []⟩, .text "\n  "]

def footerPieces : List Piece :=
  [.text "  ", .aside "/testsuite", .text "\n", .aside "/testsuites", .text "\n"]

def pieces (fs : List Finding) : List Piece :=
  frontPieces ++ [.opening (suiteTag fs), .text "\n"] ++ fs.flatMap casePieces ++ footerPieces

theorem print_append (ps qs : List Piece) : print (ps ++ qs) = print ps ++ print qs := by
  simp [print]

theorem print_casePieces (f : Finding) : print (casePieces f) = testCase f := by
  unfold casePieces testCase failure
  split_ifs <;> simp [print, Piece.print, Tag.print, printAttributes, caseTag, failureTag,
    ← String.toList_inj]

theorem print_headerPieces (fs : List Finding) :
    print (frontPieces ++ [.opening (suiteTag fs), .text "\n"]) = header fs := by
  have hfront : print frontPieces ++ "<testsuite" =
      "<?xml version=\"1.0\"?>\n<testsuites>\n  <testsuite" := by decide +kernel
  have hend : ">\n" = ">" ++ "\n" := by decide
  have htag : print [.opening (suiteTag fs), .text "\n"] = "<testsuite" ++
      (attr "name" displayName ++ (attr "tests" (Decimal.text fs.length) ++
        (attr "failures" (Decimal.text (fs.countP (·.severity == .error))) ++ ">\n"))) := by
    simp [print, Piece.print, Tag.print, printAttributes, suiteTag, hend, String.append_assoc]
  unfold header
  rw [print_append, htag, ← String.append_assoc, hfront]
  simp only [String.append_assoc]

/-- The pieces are a suite, so the values in them are those in its attributes. -/
theorem print_pieces (fs : List Finding) : print (pieces fs) = renderJunit fs := by
  have hcases : print (fs.flatMap casePieces) = String.join (fs.map testCase) := by
    induction fs with
    | nil => rfl
    | cons f fs ih =>
      rw [List.flatMap_cons, print_append, ih, print_casePieces, List.map_cons, String.join_cons]
  have hfooter : print footerPieces = footer := by decide +kernel
  unfold pieces renderJunit
  rw [print_append, print_append, print_headerPieces, hcases, hfooter]

/-! ### The tags of a suite -/

theorem tags_casePieces (f : Finding) : tags (casePieces f) =
    caseTag f :: if f.severity = .error then [failureTag f] else [] := by
  unfold casePieces
  split_ifs <;> rfl

theorem tags_append (ps qs : List Piece) : tags (ps ++ qs) = tags ps ++ tags qs :=
  List.filterMap_append

theorem tags_pieces (fs : List Finding) : tags (pieces fs) =
    ⟨"testsuites", []⟩ :: suiteTag fs ::
      fs.flatMap fun f ↦ caseTag f :: if f.severity = .error then [failureTag f] else [] := by
  have hcases : tags (fs.flatMap casePieces) =
      fs.flatMap fun f ↦ caseTag f :: if f.severity = .error then [failureTag f] else [] := by
    rw [tags, List.filterMap_flatMap]
    exact List.flatMap_congr fun f _ ↦ tags_casePieces f
  unfold pieces
  rw [tags_append, tags_append, hcases]
  exact List.append_nil _

/-- What holds of the tags of a suite is what holds of those of its cases. -/
theorem forall_mem_tags_iff {P : Tag → Prop} {fs : List Finding} (hsuites : P ⟨"testsuites", []⟩)
    (hsuite : P (suiteTag fs)) : (∀ t ∈ tags (pieces fs), P t) ↔
      ∀ f ∈ fs, P (caseTag f) ∧ (f.severity = .error → P (failureTag f)) := by
  rw [tags_pieces, List.forall_mem_cons, List.forall_mem_cons, List.forall_mem_flatMap]
  constructor
  · rintro ⟨-, -, hcases⟩ f hf
    obtain ⟨hcase, hfailure⟩ := List.forall_mem_cons.mp (hcases f hf)
    refine ⟨hcase, fun herror ↦ ?_⟩
    rw [if_pos herror] at hfailure
    exact List.forall_mem_singleton.mp hfailure
  · intro hcases
    refine ⟨hsuites, hsuite, fun f hf ↦ List.forall_mem_cons.mpr ⟨(hcases f hf).1, ?_⟩⟩
    split_ifs with herror
    · exact List.forall_mem_singleton.mpr ((hcases f hf).2 herror)
    · exact List.forall_mem_nil _

theorem isProper_of_mem_casePieces (f : Finding) : ∀ p ∈ casePieces f, p.IsProper := by
  have hcase : (caseTag f).IsNamed :=
    (by decide +kernel : ∀ s ∈ ["testcase", "name", "classname"], IsName s)
  have hfailure : (failureTag f).IsNamed :=
    (by decide +kernel : ∀ s ∈ ["failure", "message"], IsName s)
  have hspace : (Piece.text "    ").IsProper := by decide
  have hend : ∀ p ∈ [Piece.aside "/testcase", .text "\n"], p.IsProper := by decide +kernel
  unfold casePieces
  rw [List.forall_mem_append, List.forall_mem_append]
  refine ⟨⟨List.forall_mem_cons.mpr ⟨hspace, List.forall_mem_singleton.mpr hcase⟩, ?_⟩, hend⟩
  split_ifs
  · exact List.forall_mem_singleton.mpr hfailure
  · exact List.forall_mem_nil _

theorem isProper_of_mem_pieces (fs : List Finding) : ∀ p ∈ pieces fs, p.IsProper := by
  have hfront : ∀ p ∈ frontPieces, p.IsProper := by decide +kernel
  have hsuite : (suiteTag fs).IsNamed :=
    (by decide +kernel : ∀ s ∈ ["testsuite", "name", "tests", "failures"], IsName s)
  have hbreak : (Piece.text "\n").IsProper := by decide
  have hfooter : ∀ p ∈ footerPieces, p.IsProper := by decide +kernel
  unfold pieces
  rw [List.forall_mem_append, List.forall_mem_append, List.forall_mem_append,
    List.forall_mem_flatMap]
  exact ⟨⟨⟨hfront, List.forall_mem_cons.mpr ⟨hsuite, List.forall_mem_singleton.mpr hbreak⟩⟩,
    fun f _ ↦ isProper_of_mem_casePieces f⟩, hfooter⟩

/-! ### Values -/

theorem isEscaped_cons_of_plain {c : Char} (hc : c ∉ ['\x22', '<', '>', '&']) {cs : List Char} :
    IsEscaped (c :: cs) ↔ IsEscaped cs := by
  have hplain : c ∉ ['\x22', '<', '>'] := fun h ↦ hc (List.mem_append_left ['&'] h)
  have hamp : c ≠ '&' := by
    rintro rfl
    exact hc (by decide)
  rw [isEscaped_cons]
  exact ⟨fun h ↦ h.2.2, fun h ↦ ⟨hplain, fun heq ↦ absurd heq hamp, h⟩⟩

/-- No entity reaches over a character that is not part of one. -/
theorem isEscaped_append_cons {c : Char} (hc : c ∉ ['\x22', '<', '>', '&'])
    (hentities : ∀ e ∈ entities, c ∉ e.toList) (cs ds : List Char) :
    IsEscaped (cs ++ c :: ds) ↔ IsEscaped cs ∧ IsEscaped ds := by
  induction cs with
  | nil => rw [List.nil_append, isEscaped_cons_of_plain hc, and_iff_right isEscaped_nil]
  | cons d cs ih =>
    have hprefix : (∃ e ∈ entities, e.toList <+: d :: (cs ++ c :: ds)) ↔
        ∃ e ∈ entities, e.toList <+: d :: cs :=
      exists_congr fun e ↦ and_congr_right fun he ↦ by
        rw [← List.cons_append, ← List.isPrefixOf_iff_prefix,
          isPrefixOf_append_cons (hentities e he), List.isPrefixOf_iff_prefix]
    rw [List.cons_append, isEscaped_cons, isEscaped_cons, hprefix, ih, and_assoc, and_assoc]

theorem isEscaped_plain_append {word cs : List Char}
    (hword : ∀ c ∈ word, c ∉ ['\x22', '<', '>', '&']) (h : IsEscaped cs) :
    IsEscaped (word ++ cs) := by
  induction word with
  | nil => exact h
  | cons c word ih =>
    obtain ⟨hc, hword⟩ := List.forall_mem_cons.mp hword
    exact (isEscaped_cons_of_plain hc).mpr (ih hword)

/-- An entity is an ampersand and a word. -/
theorem exists_word_of_mem_entities {e : String} (he : e ∈ entities) :
    ∃ word, e.toList = '&' :: word ∧ ∀ c ∈ word, c ∉ ['\x22', '<', '>', '&'] := by
  rcases List.mem_cons.mp he with rfl | he
  · exact ⟨"amp;".toList, rfl, by simp⟩
  rcases List.mem_cons.mp he with rfl | he
  · exact ⟨"quot;".toList, rfl, by simp⟩
  rcases List.mem_cons.mp he with rfl | he
  · exact ⟨"lt;".toList, rfl, by simp⟩
  · obtain rfl := List.mem_singleton.mp he
    exact ⟨"gt;".toList, rfl, by simp⟩

theorem isEscaped_entity_append {e : String} (he : e ∈ entities) {cs : List Char}
    (h : IsEscaped cs) : IsEscaped (e.toList ++ cs) := by
  obtain ⟨word, htext, hword⟩ := exists_word_of_mem_entities he
  have hprefix : e.toList <+: '&' :: (word ++ cs) := ⟨cs, by rw [htext, List.cons_append]⟩
  rw [htext, List.cons_append, isEscaped_cons]
  exact ⟨by decide, fun _ ↦ ⟨e, he, hprefix⟩, isEscaped_plain_append hword h⟩

theorem isEscaped_escapeChar_append (c : Char) {cs : List Char} (h : IsEscaped cs) :
    IsEscaped (escapeChar c ++ cs) := by
  unfold escapeChar
  split
  case h_1 => exact isEscaped_entity_append (by decide) h
  case h_2 => exact isEscaped_entity_append (by decide) h
  case h_3 => exact isEscaped_entity_append (by decide) h
  case h_4 => exact isEscaped_entity_append (by decide) h
  case h_5 hamp hquote hless hgreater =>
    refine isEscaped_plain_append (List.forall_mem_singleton.mpr ?_) h
    simpa using ⟨hquote, hless, hgreater, hamp⟩

theorem isEscaped_escape (s : String) : IsEscaped (escape s).toList := by
  rw [toList_escape]
  induction s.toList with
  | nil => exact isEscaped_nil
  | cons c cs ih => exact isEscaped_escapeChar_append c ih

/-- Digits need no escaping. -/
theorem isEscaped_text (n : Nat) : IsEscaped (Decimal.text n).toList := by
  rw [← escape_text]
  exact isEscaped_escape _

/-- The name of a test case is escaped if the identifier of the rule is. -/
theorem isEscaped_caseTag_iff (f : Finding) :
    (caseTag f).IsEscaped ↔ IsEscaped f.rule.toList := by
  have hname : (f.rule ++ ": " ++ escape (shorten f.message)).toList =
      f.rule.toList ++ ':' :: ([] ++ ' ' :: (escape (shorten f.message)).toList) := by simp
  have hvalue : IsEscaped (f.rule ++ ": " ++ escape (shorten f.message)).toList ↔
      IsEscaped f.rule.toList := by
    rw [hname, isEscaped_append_cons (by decide) (by decide),
      isEscaped_append_cons (by decide) (by decide)]
    exact and_iff_left ⟨isEscaped_nil, isEscaped_escape _⟩
  rw [Tag.IsEscaped, caseTag, List.forall_mem_cons, List.forall_mem_singleton, hvalue]
  exact and_iff_left (isEscaped_escape _)

theorem isEscaped_failureTag (f : Finding) : (failureTag f).IsEscaped :=
  List.forall_mem_singleton.mpr (isEscaped_escape _)

theorem isEscaped_suiteTag (fs : List Finding) : (suiteTag fs).IsEscaped :=
  List.forall_mem_cons.mpr ⟨by decide, List.forall_mem_cons.mpr ⟨isEscaped_text _,
    List.forall_mem_singleton.mpr (isEscaped_text _)⟩⟩

theorem isEscaped_id (r : Rule) : IsEscaped r.id.toList := by
  cases r <;> decide

theorem countP_testcase (fs : List Finding) :
    (tags (pieces fs)).countP (·.name == "testcase") = fs.length := by
  rw [tags_pieces, List.countP_cons_of_neg (by simp), List.countP_cons_of_neg (by simp [suiteTag])]
  induction fs with
  | nil => rfl
  | cons f fs ih =>
    have hrest : (if f.severity = .error then [failureTag f] else []).countP
        (·.name == "testcase") = 0 := by
      split_ifs <;> rfl
    rw [List.flatMap_cons, List.countP_append, ih, List.countP_cons_of_pos rfl, hrest,
      List.length_cons, Nat.zero_add, Nat.add_comm]

/-- A suite is put together from tags with one test case for each finding. All values in them are
escaped, and so a suite is read as these very tags, exactly if the identifiers of the rules are
escaped texts themselves, as those of all findings on files are. Whatever the identifiers are, the
values of all attributes but the names are escaped. -/
theorem attributes_escaped_law (fs : List Finding) :
    print (pieces fs) = renderJunit fs ∧
    (tags (pieces fs)).countP (·.name == "testcase") = fs.length ∧
    ((∀ t ∈ tags (pieces fs), t.IsEscaped) ↔ ∀ f ∈ fs, IsEscaped f.rule.toList) ∧
    (Markup.read? (renderJunit fs) = some (tags (pieces fs)) ↔
      ∀ f ∈ fs, IsEscaped f.rule.toList) ∧
    (∀ t ∈ tags (pieces fs), ∀ a ∈ t.attributes, a.1 ≠ "name" → IsEscaped a.2.toList) ∧
    ∀ (kind : ArtifactKind) (content file : String), ∀ f ∈ kind.findings content file,
      IsEscaped f.rule.toList := by
  have hescaped : (∀ t ∈ tags (pieces fs), t.IsEscaped) ↔ ∀ f ∈ fs, IsEscaped f.rule.toList := by
    rw [forall_mem_tags_iff (List.forall_mem_nil _) (isEscaped_suiteTag fs)]
    simp only [isEscaped_caseTag_iff, isEscaped_failureTag, implies_true, and_true]
  refine ⟨print_pieces fs, countP_testcase fs, hescaped, ?_, ?_, ?_⟩
  · rw [← print_pieces, read?_print_iff (isProper_of_mem_pieces fs), hescaped]
  · refine (forall_mem_tags_iff (List.forall_mem_nil _)
      fun a ha _ ↦ isEscaped_suiteTag fs a ha).mpr fun f _ ↦ ⟨?_, fun _ a ha _ ↦
        isEscaped_failureTag f a ha⟩
    exact List.forall_mem_cons.mpr ⟨fun h ↦ absurd rfl h,
      List.forall_mem_singleton.mpr fun _ ↦ isEscaped_escape _⟩
  · intro kind content file f hf
    obtain ⟨r, -, hrule, -⟩ := ArtifactKind.exists_rule_of_mem hf
    exact hrule ▸ isEscaped_id r

/-- A finding whose rule goes by the end of a test case and the beginning of another one. -/
def forgedCase : List Finding :=
  [⟨"x\"/><testcase name=\"y", .warning, "m", "f", none⟩]

theorem not_escaped_forgedCase :
    ¬(∀ t ∈ tags (pieces forgedCase), t.IsEscaped) ∧
      Markup.read? (renderJunit forgedCase) = some
        [⟨"testsuites", []⟩, suiteTag forgedCase, ⟨"testcase", [("name", "x")]⟩,
          ⟨"testcase", [("name", "y: m"), ("classname", "f")]⟩] := by
  decide +kernel

end ShutdownLint.Report.Junit

import Mathlib.Data.List.Forall2
import ShutdownLint.Proofs.Yaml.LineTokens
import ShutdownLint.Yaml.Stream
/-!
Streams of documents that consist of lines, with a mark between each two.

No line looks like a mark, so a stream is cut into the texts that it was made of, and its trees are
those that the documents describe one by one.
-/

set_option autoImplicit false

namespace ShutdownLint.Yaml

/-! ### Characters of lines -/

namespace Lines

/-- Whether a character is printable and no break. -/
def staysOnLine (c : Char) : Bool :=
  isPrintable c && !isBreak c

theorem staysOnLine_iff {c : Char} :
    staysOnLine c = true ↔ isPrintable c = true ∧ isBreak c = false := by
  simp [staysOnLine]

theorem staysOnLine_of_mem_word {w : Word} {c : Char} (h : c ∈ w.text.toList) :
    staysOnLine c = true := by
  have hsolid : isSolid c = true := List.all_eq_true.mp w.solid c h
  simp only [isSolid, Bool.and_eq_true, Bool.not_eq_true'] at hsolid
  exact staysOnLine_iff.mpr ⟨hsolid.1.1, hsolid.2⟩

theorem staysOnLine_of_mem_value {v : LineValue} {c : Char} (h : c ∈ v.chars) :
    staysOnLine c = true := by
  cases v with
  | word w =>
    rcases List.mem_cons.mp h with rfl | h
    · rfl
    · exact staysOnLine_of_mem_word h
  | emptyList =>
    have hall : [' ', '[', ']'].all staysOnLine = true := rfl
    exact List.all_eq_true.mp hall c h
  | nothing => cases h

theorem staysOnLine_of_mem_line {l : Line} {c : Char}
    (h : c ∈ List.replicate l.column ' ' ++ l.chars) : staysOnLine c = true := by
  have hitem : (if l.isItem then ['-', ' '] else []).all staysOnLine = true := by
    cases l.isItem <;> rfl
  simp only [Line.chars, List.mem_append, List.mem_cons] at h
  rcases h with h | h | h | rfl | h
  · rw [List.eq_of_mem_replicate h]
    rfl
  · exact List.all_eq_true.mp hitem c h
  · exact staysOnLine_of_mem_word h
  · rfl
  · exact staysOnLine_of_mem_value h

theorem all_isPrintable_chars (ls : List Line) : (chars ls).all isPrintable = true := by
  refine List.all_eq_true.mpr fun c hc ↦ ?_
  obtain ⟨l, -, hc⟩ := List.mem_flatMap.mp hc
  rw [← List.append_assoc] at hc
  rcases List.mem_append.mp hc with hc | hc
  · exact (staysOnLine_iff.mp (staysOnLine_of_mem_line hc)).1
  · rw [List.mem_singleton.mp hc]
    rfl

/-- What a document mark on a line of its own is. -/
def markLine : List Char :=
  ['-', '-', '-', '\n']

/-- The text of documents with a mark between each two. -/
def streamChars (docs : List (List Line)) : List Char :=
  markLine.intercalate (docs.map chars)

theorem streamChars_singleton (ls : List Line) : streamChars [ls] = chars ls := by
  simp [streamChars]

theorem streamChars_cons_cons (ls next : List Line) (docs : List (List Line)) :
    streamChars (ls :: next :: docs) = chars ls ++ (markLine ++ streamChars (next :: docs)) := by
  simp [streamChars, List.intercalate]

theorem all_isPrintable_streamChars (docs : List (List Line)) :
    (streamChars docs).all isPrintable = true := by
  match docs with
  | [] => rfl
  | [ls] => rw [streamChars_singleton, all_isPrintable_chars]
  | ls :: next :: docs =>
    rw [streamChars_cons_cons, List.all_append, List.all_append, all_isPrintable_chars,
      all_isPrintable_streamChars (next :: docs)]
    rfl

end Lines

/-! ### Marks -/

/-- Where no mark begins, a text is cut behind its first character. -/
theorem cutAtMarks_cons {lineStart : Bool} {c : Char} {r : List Char}
    (h : lineStart = true → (c = '-' → ∃ t, r = ' ' :: t) ∧ c ≠ '.') :
    cutAtMarks lineStart (c :: r) =
      (c :: (cutAtMarks (isBreak c) r).1, (cutAtMarks (isBreak c) r).2) := by
  rw [cutAtMarks]
  · rintro t hstart rfl rfl
    obtain ⟨u, hu⟩ := (h hstart).1 rfl
    cases hu
  · rintro t hstart rfl -
    exact (h hstart).2 rfl

theorem cutAtMarks_unbroken {cs : List Char} (h : ∀ c ∈ cs, isBreak c = false)
    (more : List Char) : cutAtMarks false (cs ++ '\n' :: more) =
      (cs ++ '\n' :: (cutAtMarks true more).1, (cutAtMarks true more).2) := by
  induction cs with
  | nil => exact cutAtMarks_cons fun h ↦ absurd h Bool.false_ne_true
  | cons c cs ih =>
    obtain ⟨hc, hcs⟩ := List.forall_mem_cons.mp h
    rw [List.cons_append, cutAtMarks_cons fun h ↦ absurd h Bool.false_ne_true, hc, ih hcs]
    rfl

theorem cutAtMarks_markLine (more : List Char) : cutAtMarks true (Lines.markLine ++ more) =
    ([], (.documentStart, '\n' :: (cutAtMarks true more).1) :: (cutAtMarks true more).2) := by
  have hbreak : cutAtMarks false ('\n' :: more) =
      ('\n' :: (cutAtMarks true more).1, (cutAtMarks true more).2) :=
    cutAtMarks_cons fun h ↦ absurd h Bool.false_ne_true
  show cutAtMarks true ('-' :: '-' :: '-' :: '\n' :: more) = _
  rw [cutAtMarks, hbreak]
  rfl

/-- How a line begins. -/
theorem line_cases (l : Line) : ∃ c cs, List.replicate l.column ' ' ++ l.chars = c :: cs ∧
    (c = '-' → ∃ r, cs = ' ' :: r) ∧ c ≠ '.' := by
  obtain ⟨c, cs, hkey, hc⟩ := l.key.exists_cons
  cases hcolumn : l.column with
  | succ n => exact ⟨' ', _, rfl, fun h ↦ absurd h (by decide), by decide⟩
  | zero =>
    cases hitem : l.isItem with
    | true =>
      refine ⟨'-', ' ' :: (l.key.text.toList ++ ':' :: l.value.chars), ?_, fun _ ↦ ⟨_, rfl⟩,
        by decide⟩
      simp [Line.chars, hitem]
    | false =>
      refine ⟨c, cs ++ ':' :: l.value.chars, ?_, fun h ↦ ?_, ne_of_kind hc rfl⟩
      · simp [Line.chars, hitem, hkey]
      · exact absurd h (ne_of_kind hc rfl)

theorem cutAtMarks_chars (ls : List Line) (more : List Char) :
    cutAtMarks true (Lines.chars ls ++ more) =
      (Lines.chars ls ++ (cutAtMarks true more).1, (cutAtMarks true more).2) := by
  induction ls with
  | nil => rfl
  | cons l ls ih =>
    obtain ⟨c, cs, hline, hdash, hdot⟩ := line_cases l
    have hunbroken : ∀ d ∈ c :: cs, isBreak d = false :=
      fun d hd ↦ (Lines.staysOnLine_iff.mp (Lines.staysOnLine_of_mem_line (hline ▸ hd))).2
    obtain ⟨hc, hcs⟩ := List.forall_mem_cons.mp hunbroken
    have hchars : Lines.chars (l :: ls) = c :: (cs ++ '\n' :: Lines.chars ls) := by
      rw [← List.cons_append, ← hline]
      simp [Lines.chars]
    rw [hchars, List.cons_append, List.append_assoc, List.cons_append, cutAtMarks_cons, hc,
      cutAtMarks_unbroken hcs, ih]
    · simp
    · refine fun _ ↦ ⟨fun h ↦ ?_, hdot⟩
      obtain ⟨r, rfl⟩ := hdash h
      exact ⟨_, rfl⟩

theorem cutAtMarks_streamChars (ls : List Line) (docs : List (List Line)) :
    cutAtMarks true (Lines.streamChars (ls :: docs)) =
      (Lines.chars ls, docs.map fun ls ↦ (.documentStart, '\n' :: Lines.chars ls)) := by
  induction docs generalizing ls with
  | nil =>
    rw [Lines.streamChars_singleton, ← List.append_nil (Lines.chars ls), cutAtMarks_chars]
    rfl
  | cons next docs ih =>
    rw [Lines.streamChars_cons_cons, cutAtMarks_chars, cutAtMarks_markLine, ih, List.append_nil]
    rfl

/-! ### Trees -/

/-- The lines describe a document of which this is the tree. -/
structure Lines.Describe (ls : List Line) (n : Node) : Prop where
  indented : WellIndented ls
  document : ∀ afterMark, Node.ofTokens {} afterMark (tokens ls) = .ok (n, [])

/-- Without a mark a document has a first token, and this is no directive. -/
theorem Node.exists_cons_of_ofTokens {d : Directives} {tokens : List Token}
    {r : Node × List Token} (h : ofTokens d false tokens = .ok r) :
    ∃ t ts, tokens = t :: ts ∧ t.isDirective = false := by
  cases tokens with
  | nil => cases h
  | cons t ts =>
    refine ⟨t, ts, rfl, ?_⟩
    cases t with
    | versionDirective major minor => cases h
    | tagDirective handle leading => cases h
    | _ => rfl

theorem Lines.Describe.document_scan {ls : List Line} {n : Node} (h : Lines.Describe ls n)
    (afterMark : Bool) :
    (Segment.scan ⟨false, chars ls⟩).document {} afterMark = .ok ⟨n, [], none⟩ := by
  show (Lexer.run { cursor := ⟨chars ls, {}⟩ }).document {} afterMark = _
  rw [Lexer.run_lines h.indented]
  unfold Scan.document
  rw [h.document]

theorem documentsAfter_of_describe {docs : List (List Line)} {ns : List Node}
    (h : List.Forall₂ Lines.Describe docs ns) :
    documentsAfter none (docs.map fun ls ↦ (.documentStart, ⟨false, Lines.chars ls⟩)) =
      ns.map .ok := by
  induction h with
  | nil => rfl
  | @cons ls n docs ns hls _ ih =>
    rw [List.map_cons, documentsAfter, Option.getD_none, hls.document_scan]
    exact congrArg (Except.ok n :: ·) ih

/-- The trees of a stream are those that its documents describe. -/
theorem nodes_streamChars {docs : List (List Line)} {ns : List Node} (hne : docs ≠ [])
    (h : List.Forall₂ Lines.Describe docs ns) : nodes (Lines.streamChars docs) = ns.map .ok := by
  cases h with
  | nil => exact absurd rfl hne
  | @cons ls n docs ns hls hdocs =>
    obtain ⟨t, ts, hts, ht⟩ := Node.exists_cons_of_ofTokens (hls.document false)
    have htail (ls : List Line) :
        Segment.ofTail ('\n' :: Lines.chars ls) = ⟨false, Lines.chars ls⟩ := rfl
    have hsegments : segments (Lines.streamChars (ls :: docs)) = (⟨false, Lines.chars ls⟩,
        docs.map fun ls ↦ (.documentStart, ⟨false, Lines.chars ls⟩)) := by
      rw [segments, cutAtMarks_streamChars]
      simp [htail]
    have hscan : Segment.scan ⟨false, Lines.chars ls⟩ = ⟨t :: ts, none⟩ :=
      hts ▸ Lexer.run_lines hls.indented
    have hdocument := hls.document_scan false
    rw [hscan] at hdocument
    unfold nodes
    rw [hsegments]
    simp only [hscan, Lines.all_isPrintable_streamChars]
    simp [ht, hdocument, pendingDirectives, documentsAfter_of_describe hdocs]

theorem nodes_nil : nodes [] = [.ok (.empty {})] := by
  have hindented : Lines.WellIndented [] := True.intro
  have hscan : Segment.scan ⟨false, []⟩ = ⟨[], none⟩ := Lexer.run_lines hindented
  have hsegments : segments [] = (⟨false, []⟩, []) := rfl
  unfold nodes
  rw [hsegments]
  simp only [hscan]
  rfl

end ShutdownLint.Yaml

import Mathlib.Data.List.InsertIdx
import ShutdownLint.Proofs.Yaml.Suffixes
import ShutdownLint.Yaml.Segment
/-!
The characters of the scalars in a text without escapes: those of the text, and the space and the
line feed that stand for breaks.
-/

set_option autoImplicit false

namespace ShutdownLint.Yaml

variable {P : Char → Prop}

/-- All characters of a text belong to an alphabet. -/
def Over (P : Char → Prop) (cs : List Char) : Prop :=
  ∀ c ∈ cs, P c

/-- An alphabet that has what breaks become in a scalar. Nothing is escaped in a text over it, since
it has no backslash. -/
structure EscapeFree (P : Char → Prop) : Prop where
  space : P ' '
  lineFeed : P '\n'
  backslash : ¬P '\\'

theorem over_cons {c : Char} {cs : List Char} : Over P (c :: cs) ↔ P c ∧ Over P cs :=
  List.forall_mem_cons

theorem over_append {cs ds : List Char} : Over P (cs ++ ds) ↔ Over P cs ∧ Over P ds :=
  List.forall_mem_append

theorem over_ofList_reverse {cs : List Char} :
    Over P (String.ofList cs.reverse).toList ↔ Over P cs := by
  simp [Over]

theorem Over.of_suffix {cs ds : List Char} (h : Over P cs) (hds : ds <:+ cs) : Over P ds :=
  fun c hc ↦ h c (hds.subset hc)

theorem EscapeFree.loadedBreak (hP : EscapeFree P) {c : Char} (hc : P c) : P (loadedBreak c) := by
  unfold Yaml.loadedBreak
  split
  · exact hc
  · exact hP.lineFeed

/-! ### Gaps -/

namespace Gap

/-- All characters of a gap belong to an alphabet. -/
def Over (P : Char → Prop) : Gap → Prop
  | .inLine blanks => Yaml.Over P blanks
  | .acrossLines first later => Yaml.Over P first.toList ∧ Yaml.Over P later

variable {gap : Gap}

theorem over_nothing : nothing.Over P :=
  List.forall_mem_nil P

theorem Over.addBlank (h : gap.Over P) {c : Char} (hc : P c) : (gap.addBlank c).Over P := by
  cases gap with
  | inLine blanks => exact over_cons.mpr ⟨hc, h⟩
  | acrossLines first later => exact h

theorem Over.addBreak (h : gap.Over P) {b : Char} (hb : P b) : (gap.addBreak b).Over P := by
  cases gap with
  | inLine blanks => exact ⟨List.forall_mem_singleton.mpr hb, List.forall_mem_nil P⟩
  | acrossLines first later => exact ⟨h.1, over_cons.mpr ⟨hb, h.2⟩⟩

theorem Over.appendTo (hP : EscapeFree P) (h : gap.Over P) {text : List Char}
    (htext : Yaml.Over P text) : Yaml.Over P (gap.appendTo text) := by
  cases gap with
  | inLine blanks => exact over_append.mpr ⟨h, htext⟩
  | acrossLines first later =>
    cases first with
    | none => exact over_append.mpr ⟨h.2, htext⟩
    | some b =>
      simp only [Gap.appendTo]
      split_ifs
      · exact over_cons.mpr ⟨hP.space, htext⟩
      · exact over_append.mpr ⟨h.2, htext⟩
      · exact over_append.mpr ⟨h.2, over_cons.mpr ⟨List.forall_mem_singleton.mp h.1, htext⟩⟩

end Gap

/-! ### Scalars -/

theorem over_plainText (hP : EscapeFree P) {inFlow : Bool} {margin : Nat} {cs : List Char}
    {p : Position} {text : List Char} {gap : Gap} {t : PlainText} (hcs : Over P cs)
    (htext : Over P text) (hgap : gap.Over P)
    (h : plainText inFlow margin cs p text gap = .ok t) : Over P t.text := by
  have hlineFeed := hP.lineFeed
  fun_induction plainText inFlow margin cs p text gap <;>
    grind [over_cons, Gap.over_nothing, Gap.Over.addBlank, Gap.Over.addBreak, Gap.Over.appendTo,
      EscapeFree.loadedBreak]

/-- The reader is never inside an escape, as no backslash comes its way. -/
theorem over_quotedText (hP : EscapeFree P) {double : Bool} {cs : List Char} {p : Position}
    {state : QuotedState} {text : List Char} {gap : Gap} {t : List Char × Cursor}
    (hcs : Over P cs) (hstate : state = .text ∨ state = .quote) (htext : Over P text)
    (hgap : gap.Over P) (h : quotedText double cs p state text gap = .ok t) : Over P t.1 := by
  have hlineFeed := hP.lineFeed
  have hbackslash := hP.backslash
  fun_induction quotedText double cs p state text gap <;>
    grind [over_cons, Gap.over_nothing, Gap.Over.addBlank, Gap.Over.addBreak, Gap.Over.appendTo,
      EscapeFree.loadedBreak]

/-- All characters that have been read of a block scalar belong to an alphabet. -/
structure BlockText.Over (P : Char → Prop) (b : BlockText) : Prop where
  text : Yaml.Over P b.text
  ended : Yaml.Over P b.ended.toList
  empty : Yaml.Over P b.empty

namespace BlockText.Over

variable {b : BlockText}

theorem startLine (h : b.Over P) (hP : EscapeFree P) (literal : Bool) {c : Char} (hc : P c) :
    (b.startLine literal c).Over P := by
  have hfolded : Yaml.Over P (' ' :: b.text) := over_cons.mpr ⟨hP.space, h.text⟩
  have hkept : Yaml.Over P (b.ended.toList ++ b.text) := over_append.mpr ⟨h.ended, h.text⟩
  refine ⟨over_cons.mpr ⟨hc, over_append.mpr ⟨h.empty, ?_⟩⟩, nofun, nofun⟩
  split_ifs
  · exact hfolded
  · exact h.text
  · exact hkept

theorem addBreak (h : b.Over P) {c : Char} (hc : P c) : (b.addBreak c).Over P := by
  unfold BlockText.addBreak
  split_ifs
  · exact ⟨h.text, List.forall_mem_singleton.mpr hc, nofun⟩
  · exact ⟨h.text, h.ended, over_cons.mpr ⟨hc, h.empty⟩⟩

theorem finish (h : b.Over P) (chomping : Chomping) : Yaml.Over P (b.finish chomping) := by
  have hclip : Yaml.Over P (b.ended.toList ++ b.text) := over_append.mpr ⟨h.ended, h.text⟩
  cases chomping with
  | strip => exact h.text
  | clip => exact hclip
  | keep => exact over_append.mpr ⟨h.empty, hclip⟩

end BlockText.Over

theorem over_blockText (hP : EscapeFree P) {literal : Bool} {chomping : Chomping} {margin : Nat}
    {cs : List Char} {p : Position} {b : BlockText} {t : List Char × Cursor} (hcs : Over P cs)
    (hb : b.Over P) (h : blockText literal chomping margin cs p b = .ok t) : Over P t.1 := by
  have hlineFeed := hP.lineFeed
  fun_induction blockText literal chomping margin cs p b <;>
    grind [over_cons, BlockText.Over, BlockText.Over.finish, BlockText.Over.addBreak,
      BlockText.Over.startLine, EscapeFree.loadedBreak]

theorem over_blockScalar (hP : EscapeFree P) {literal : Bool} {margin : Nat} {c : Cursor}
    {t : List Char × Cursor} (hc : Over P c.rest) (h : blockScalar literal margin c = .ok t) :
    Over P t.1 := by
  obtain ⟨chomping, indent, d, hd, htext⟩ := blockScalar_cases h
  have hnothing : BlockText.Over P { indent } :=
    ⟨List.forall_mem_nil P, List.forall_mem_nil P, List.forall_mem_nil P⟩
  exact over_blockText hP (hc.of_suffix hd) hnothing htext

/-! ### Tokens -/

/-- The text of a scalar belongs to an alphabet. -/
def Token.Over (P : Char → Prop) : Token → Prop
  | .scalar text _ => Yaml.Over P text.toList
  | _ => True

theorem over_tagToken {inFlow : Bool} {c : Cursor} {t : Token × Cursor}
    (h : tagToken inFlow c = .ok t) : t.1.Over P := by
  unfold tagToken tagBody at h
  grind [Token.Over]

theorem over_directiveToken {c : Cursor} {t : Token × Cursor} (h : directiveToken c = .ok t) :
    t.1.Over P := by
  unfold directiveToken versionDirective tagDirective at h
  simp only [bind, Except.bind, pure, Except.pure] at h
  grind [Token.Over]

namespace Lexer

/-- What a lexer has read and what it will read belong to an alphabet. -/
structure Over (P : Char → Prop) (s : Lexer) : Prop where
  rest : Yaml.Over P s.cursor.rest
  tokens : ∀ t ∈ s.tokens, t.Over P

theorem over_closedBlocks (column : Nat) (blocks : List Nat) {tokens : List Token}
    (h : ∀ t ∈ tokens, t.Over P) : ∀ t ∈ (closedBlocks column blocks tokens).2, t.Over P := by
  fun_induction closedBlocks column blocks tokens with
  | case1 tokens => exact h
  | case2 tokens b blocks _ ih => exact ih (List.forall_mem_cons.mpr ⟨trivial, h⟩)
  | case3 tokens b blocks _ => exact h

theorem over_emit {s : Lexer} {token : Token} {next : Cursor} (hnext : Yaml.Over P next.rest)
    (htoken : token.Over P) (htokens : ∀ t ∈ s.tokens, t.Over P) : (s.emit token next).Over P :=
  ⟨hnext, List.forall_mem_cons.mpr ⟨htoken, htokens⟩⟩

namespace Over

variable {s t : Lexer}

theorem insertToken (h : s.Over P) (number : Nat) {token : Token} (htoken : token.Over P) :
    (s.insertToken number token).Over P := by
  refine ⟨h.rest, fun u hu ↦ ?_⟩
  rcases List.eq_or_mem_of_mem_insertIdx hu with rfl | hu
  · exact htoken
  · exact h.tokens u hu

theorem openBlock (h : s.Over P) (column number : Nat) {start : Token} (hstart : start.Over P) :
    (s.openBlock column number start).Over P := by
  unfold Lexer.openBlock
  split
  · exact ⟨h.rest, (h.insertToken number hstart).tokens⟩
  · exact h

theorem closeAllBlocks (h : s.Over P) : s.closeAllBlocks.Over P := by
  unfold Lexer.closeAllBlocks
  split
  · exact h
  · refine ⟨h.rest, List.forall_mem_append.mpr ⟨fun t ht ↦ ?_, h.tokens⟩⟩
    rw [List.eq_of_mem_replicate ht]
    trivial

theorem closeBlocks (h : s.Over P) (column : Nat) : (s.closeBlocks column).Over P := by
  unfold Lexer.closeBlocks
  split
  · exact h
  · exact ⟨h.rest, over_closedBlocks column s.blocks h.tokens⟩

theorem dropKey (h : s.Over P) (ht : s.dropKey = .ok t) : t.Over P := by
  unfold Lexer.dropKey at ht
  split_ifs at ht
  cases ht
  exact ⟨h.rest, h.tokens⟩

theorem saveKey (h : s.Over P) (ht : s.saveKey = .ok t) : t.Over P := by
  unfold Lexer.saveKey at ht
  dsimp only at ht
  split_ifs at ht
  · cases ht
    exact ⟨h.rest, h.tokens⟩
  · cases ht
    exact h

theorem expireKeys (h : s.Over P) (ht : s.expireKeys = .ok t) : t.Over P := by
  unfold Lexer.expireKeys at ht
  split at ht
  · cases ht
    exact ⟨h.rest, h.tokens⟩
  · cases ht
  · cases ht

theorem toToken (h : s.Over P) (ht : s.toToken = .ok t) : t.Over P := by
  have hgap : (gap s.inFlow s.cursor.rest s.cursor.position s.keyAllowed false).1.rest <:+
      s.cursor.rest := rest_gap_suffix _ _ _ _ _
  unfold Lexer.toToken at ht
  generalize gap s.inFlow s.cursor.rest s.cursor.position s.keyAllowed false = moved at hgap ht
  have hmoved : Lexer.Over P { s with cursor := moved.1, keyAllowed := moved.2 } :=
    ⟨h.rest.of_suffix hgap, h.tokens⟩
  dsimp only at ht
  split at ht
  · rename_i u hu
    cases ht
    exact (hmoved.expireKeys hu).closeBlocks _
  · cases ht

theorem fetchValue (h : s.Over P) {next : Cursor} (hnext : Yaml.Over P next.rest)
    (ht : s.fetchValue next = .ok t) : t.Over P := by
  have hkey : Token.Over P .key := trivial
  have hstart : Token.Over P .blockMappingStart := trivial
  unfold Lexer.fetchValue at ht
  split at ht
  · cases ht
    exact over_emit hnext trivial ((h.insertToken _ hkey).openBlock _ _ hstart).tokens
  · split_ifs at ht
    · cases ht
      exact over_emit hnext trivial h.tokens
    · cases ht
      exact over_emit hnext trivial (h.openBlock _ _ hstart).tokens

/-! What the lexer reads when it knows how the next token begins. -/

section Fetch

variable {c : Char} {r : List Char}

theorem fetch_directive (h : s.Over P) (hr : Yaml.Over P r)
    (hlead : lead s.inFlow s.cursor.position.column c r = .directive)
    (ht : s.fetch c r = .ok t) : t.Over P := by
  simp only [Lexer.fetch, hlead] at ht
  obtain ⟨u, hu, ht⟩ := Success.bind_eq_ok.mp ht
  obtain ⟨⟨token, next⟩, htoken, ht⟩ := Success.bind_eq_ok.mp ht
  cases ht
  exact over_emit (hr.of_suffix (rest_directiveToken_suffix htoken)) (over_directiveToken htoken)
    (h.closeAllBlocks.dropKey hu).tokens

theorem fetch_tag (h : s.Over P) (hr : Yaml.Over P r)
    (hlead : lead s.inFlow s.cursor.position.column c r = .tag)
    (ht : s.fetch c r = .ok t) : t.Over P := by
  simp only [Lexer.fetch, hlead] at ht
  obtain ⟨u, hu, ht⟩ := Success.bind_eq_ok.mp ht
  obtain ⟨⟨token, next⟩, htoken, ht⟩ := Success.bind_eq_ok.mp ht
  cases ht
  exact over_emit (hr.of_suffix (rest_tagToken_suffix htoken)) (over_tagToken htoken)
    (h.saveKey hu).tokens

theorem fetch_block (h : s.Over P) (hP : EscapeFree P) (hr : Yaml.Over P r) {literal : Bool}
    (hlead : lead s.inFlow s.cursor.position.column c r = .block literal)
    (ht : s.fetch c r = .ok t) : t.Over P := by
  simp only [Lexer.fetch, hlead] at ht
  obtain ⟨u, hu, ht⟩ := Success.bind_eq_ok.mp ht
  obtain ⟨⟨text, next⟩, htext, ht⟩ := Success.bind_eq_ok.mp ht
  cases ht
  have hscalar : Yaml.Over P text := over_blockScalar hP hr htext
  exact over_emit (hr.of_suffix (rest_blockScalar_suffix htext)) (over_ofList_reverse.mpr hscalar)
    (h.dropKey hu).tokens

theorem fetch_quoted (h : s.Over P) (hP : EscapeFree P) (hr : Yaml.Over P r) {double : Bool}
    (hlead : lead s.inFlow s.cursor.position.column c r = .quoted double)
    (ht : s.fetch c r = .ok t) : t.Over P := by
  simp only [Lexer.fetch, hlead] at ht
  obtain ⟨u, hu, ht⟩ := Success.bind_eq_ok.mp ht
  obtain ⟨⟨text, next⟩, htext, ht⟩ := Success.bind_eq_ok.mp ht
  cases ht
  have hscalar : Yaml.Over P text :=
    over_quotedText hP hr (Or.inl rfl) (List.forall_mem_nil P) Gap.over_nothing htext
  exact over_emit (hr.of_suffix (rest_quotedText_suffix htext)) (over_ofList_reverse.mpr hscalar)
    (h.saveKey hu).tokens

theorem fetch_plain (h : s.Over P) (hP : EscapeFree P) (hc : P c) (hr : Yaml.Over P r)
    (hlead : lead s.inFlow s.cursor.position.column c r = .plain)
    (ht : s.fetch c r = .ok t) : t.Over P := by
  simp only [Lexer.fetch, hlead] at ht
  obtain ⟨u, hu, ht⟩ := Success.bind_eq_ok.mp ht
  obtain ⟨plain, hplain, ht⟩ := Success.bind_eq_ok.mp ht
  cases ht
  have hscalar : Yaml.Over P plain.text :=
    over_plainText hP hr (List.forall_mem_singleton.mpr hc) Gap.over_nothing hplain
  exact over_emit (hr.of_suffix (rest_plainText_suffix hplain)) (over_ofList_reverse.mpr hscalar)
    (h.saveKey hu).tokens

/-- In front of an entry or a key a block collection may begin. -/
theorem fetch_start (h : s.Over P) (hr : Yaml.Over P r)
    (hlead : lead s.inFlow s.cursor.position.column c r = .entry ∨
      lead s.inFlow s.cursor.position.column c r = .key)
    (ht : s.fetch c r = .ok t) : t.Over P := by
  have hstart : ∀ start ∈ [Token.blockSequenceStart, .blockMappingStart], start.Over P := by
    simp [Token.Over]
  rcases hlead with hlead | hlead <;> simp only [Lexer.fetch, hlead] at ht <;> split_ifs at ht
  all_goals
    obtain ⟨u, hu, ht⟩ := Success.bind_eq_ok.mp ht
    cases ht
    exact over_emit hr trivial ((h.openBlock _ _ (hstart _ (by simp))).dropKey hu).tokens

theorem fetch (h : s.Over P) (hP : EscapeFree P) (hrest : s.cursor.rest = c :: r)
    (ht : s.fetch c r = .ok t) : t.Over P := by
  obtain ⟨hc, hr⟩ := over_cons.mp (hrest ▸ h.rest)
  match hlead : lead s.inFlow s.cursor.position.column c r with
  | .directive => exact h.fetch_directive hr hlead ht
  | .entry => exact h.fetch_start hr (Or.inl hlead) ht
  | .key => exact h.fetch_start hr (Or.inr hlead) ht
  | .tag => exact h.fetch_tag hr hlead ht
  | .block literal => exact h.fetch_block hP hr hlead ht
  | .quoted double => exact h.fetch_quoted hP hr hlead ht
  | .plain => exact h.fetch_plain hP hc hr hlead ht
  | .value =>
    simp only [Lexer.fetch, hlead] at ht
    exact h.fetchValue hr ht
  | .openSequence | .openMapping =>
    simp only [Lexer.fetch, hlead] at ht
    obtain ⟨u, hu, ht⟩ := Success.bind_eq_ok.mp ht
    cases ht
    exact over_emit hr trivial (h.saveKey hu).tokens
  | .closeSequence | .closeMapping | .comma =>
    simp only [Lexer.fetch, hlead] at ht
    obtain ⟨u, hu, ht⟩ := Success.bind_eq_ok.mp ht
    cases ht
    exact over_emit hr trivial (h.dropKey hu).tokens
  | .alias | .anchor =>
    simp only [Lexer.fetch, hlead] at ht
    obtain ⟨u, hu, ht⟩ := Success.bind_eq_ok.mp ht
    obtain ⟨⟨name, next⟩, hname, ht⟩ := Success.bind_eq_ok.mp ht
    cases ht
    exact over_emit (hr.of_suffix (rest_anchorName_suffix hname)) trivial (h.saveKey hu).tokens
  | .nothing =>
    simp only [Lexer.fetch, hlead] at ht
    cases ht

end Fetch

theorem settled (h : s.Over P) : ∀ t ∈ s.settled, t.Over P :=
  fun t ht ↦ h.tokens t (List.mem_reverse.mp (List.mem_of_mem_take ht))

theorem run (h : s.Over P) (hP : EscapeFree P) : ∀ t ∈ s.run.tokens, t.Over P := by
  fun_induction Lexer.run s with
  | case1 s e _ => exact h.settled
  | case2 s u _ _ e _ => exact h.settled
  | case3 s u hu _ v hv =>
    have hclosed : v.Over P := (h.toToken hu).closeAllBlocks.dropKey hv
    exact fun t ht ↦ hclosed.tokens t (List.mem_reverse.mp ht)
  | case4 s u _ c r _ e _ => exact h.settled
  | case5 s u hu c r hrest v hv ih => exact ih ((h.toToken hu).fetch hP hrest hv)

end Over

end Lexer

/-! ### Segments -/

/-- What lies between the marks of a text are parts of it. -/
theorem over_cutAtMarks (lineStart : Bool) {text : List Char} (h : Over P text) :
    Over P (cutAtMarks lineStart text).1 ∧
      ∀ m ∈ (cutAtMarks lineStart text).2, Over P m.2 := by
  fun_induction cutAtMarks lineStart text <;> grind [over_cons, Over]

theorem Segment.text_ofTail_suffix (tail : List Char) : (Segment.ofTail tail).text <:+ tail := by
  unfold Segment.ofTail
  dsimp only
  split
  · exact Cursor.rest_skipLine_suffix
  · exact List.suffix_refl tail

theorem over_segments {text : List Char} (h : Over P text) : Over P (segments text).1.text ∧
    ∀ m ∈ (segments text).2, Over P m.2.text := by
  obtain ⟨hfirst, hmore⟩ := over_cutAtMarks true h
  refine ⟨hfirst, fun m hm ↦ ?_⟩
  obtain ⟨⟨mark, tail⟩, htail, rfl⟩ := List.mem_map.mp hm
  exact (hmore _ htail).of_suffix (Segment.text_ofTail_suffix tail)

/-- The scalars of a segment belong to every alphabet without escapes to which its text does. -/
theorem Segment.over_scan (hP : EscapeFree P) {s : Segment} (h : Over P s.text) :
    ∀ t ∈ s.scan.tokens, t.Over P := by
  unfold Segment.scan
  split
  · exact Lexer.Over.run ⟨h, nofun⟩ hP
  · exact Lexer.Over.run ⟨h, nofun⟩ hP

end ShutdownLint.Yaml

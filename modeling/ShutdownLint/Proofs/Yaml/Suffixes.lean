import Mathlib.Tactic.SplitIfs
import ShutdownLint.Proofs.Success
import ShutdownLint.Yaml.Lexer
/-!
What is left of a text: every reader of the lexer leaves a suffix of what it was given unread.
-/

set_option autoImplicit false

namespace ShutdownLint.Yaml

/-! ### Moves -/

namespace Cursor

variable {c : Cursor}

theorem rest_advance_suffix (n : Nat) : (c.advance n).rest <:+ c.rest :=
  List.drop_suffix n c.rest

theorem rest_skipWhile_suffix (p : Char → Bool) : (c.skipWhile p).rest <:+ c.rest :=
  c.rest_advance_suffix _

theorem rest_skipBlanks_suffix : c.skipBlanks.rest <:+ c.rest :=
  rest_skipWhile_suffix isBlank

theorem rest_skipComment_suffix : c.skipComment.rest <:+ c.rest := by
  unfold skipComment
  split
  · exact rest_skipWhile_suffix _
  · exact List.suffix_refl _

theorem rest_skipBreak_suffix : c.skipBreak.rest <:+ c.rest := by
  unfold skipBreak
  split
  · rename_i r h
    rw [h]
    exact (List.suffix_cons '\n' r).trans (List.suffix_cons '\r' _)
  · rename_i b r _ h
    split_ifs
    · rw [h]
      exact List.suffix_cons b r
    · exact List.suffix_refl _
  · exact List.suffix_refl _

/-- The way to the end of a line on which nothing more may stand. -/
theorem rest_skipLine_suffix : c.skipBlanks.skipComment.skipBreak.rest <:+ c.rest :=
  rest_skipBreak_suffix.trans (rest_skipComment_suffix.trans rest_skipBlanks_suffix)

end Cursor

open Cursor

variable {c : Cursor} {cs : List Char} {p : Position}

theorem rest_gap_suffix (inFlow : Bool) (cs : List Char) (p : Position)
    (keyAllowed comment : Bool) : (Lexer.gap inFlow cs p keyAllowed comment).1.rest <:+ cs := by
  fun_induction Lexer.gap inFlow cs p keyAllowed comment <;> grind [List.suffix_cons_iff]

/-! ### Scalars -/

theorem rest_plainText_suffix {inFlow : Bool} {margin : Nat} {text : List Char} {gap : Gap}
    {t : PlainText} (h : plainText inFlow margin cs p text gap = .ok t) : t.cursor.rest <:+ cs := by
  fun_induction plainText inFlow margin cs p text gap <;> grind [List.suffix_cons_iff]

theorem rest_quotedText_suffix {double : Bool} {state : QuotedState} {text : List Char} {gap : Gap}
    {t : List Char × Cursor} (h : quotedText double cs p state text gap = .ok t) :
    t.2.rest <:+ cs := by
  fun_induction quotedText double cs p state text gap <;> grind [List.suffix_cons_iff]

theorem rest_blockHeader_suffix {t : Chomping × Nat × Cursor} (h : blockHeader c = .ok t) :
    t.2.2.rest <:+ c.rest := by
  have hadvance := @rest_advance_suffix c
  unfold blockHeader at h
  grind

theorem rest_blockText_suffix {literal : Bool} {chomping : Chomping} {margin : Nat} {b : BlockText}
    {t : List Char × Cursor} (h : blockText literal chomping margin cs p b = .ok t) :
    t.2.rest <:+ cs := by
  fun_induction blockText literal chomping margin cs p b <;> grind [List.suffix_cons_iff]

/-- A block scalar is a text behind its header, and begins with the line below. -/
theorem blockScalar_cases {literal : Bool} {margin : Nat} {t : List Char × Cursor}
    (h : blockScalar literal margin c = .ok t) :
    ∃ (chomping : Chomping) (indent : Nat) (d : Cursor), d.rest <:+ c.rest ∧
      blockText literal chomping margin d.rest d.position { indent } = .ok t := by
  unfold blockScalar at h
  obtain ⟨⟨chomping, increment, d⟩, hd, h⟩ := Success.bind_eq_ok.mp h
  dsimp only at h
  split at h
  · exact ⟨chomping, _, _, rest_skipLine_suffix.trans (rest_blockHeader_suffix hd), h⟩
  · cases h

theorem rest_blockScalar_suffix {literal : Bool} {margin : Nat} {t : List Char × Cursor}
    (h : blockScalar literal margin c = .ok t) : t.2.rest <:+ c.rest := by
  obtain ⟨chomping, indent, d, hd, htext⟩ := blockScalar_cases h
  exact (rest_blockText_suffix htext).trans hd

/-! ### Names and tags -/

theorem rest_anchorName_suffix {t : String × Cursor} (h : anchorName c = .ok t) :
    t.2.rest <:+ c.rest := by
  have hword := @rest_skipWhile_suffix c isWordChar
  grind [anchorName]

theorem rest_tagText_suffix {bracketed : Bool} {escape : Option Escape} {text : TagText}
    {t : TagText × Cursor} (h : tagText bracketed cs p escape text = .ok t) : t.2.rest <:+ cs := by
  fun_induction tagText bracketed cs p escape text <;> grind [List.suffix_cons_iff]

theorem rest_tagBody_suffix {t : Token × Cursor} (h : tagBody c = .ok t) :
    t.2.rest <:+ c.rest := by
  have hword : (c.skipWhile isWordChar).rest <:+ c.rest := rest_skipWhile_suffix isWordChar
  unfold tagBody at h
  split at h
  · rename_i r hr
    split at h
    · cases h
    · rename_i text d hd
      have hrest : d.rest <:+ c.rest := (rest_tagText_suffix hd).trans (hr ▸ List.suffix_cons _ r)
      split at h
      · split_ifs at h
        cases h
        exact (rest_advance_suffix 1).trans hrest
      · cases h
  · dsimp only at h
    split at h
    · rename_i r hr
      have hr : r <:+ c.rest := (hr ▸ List.suffix_cons _ r).trans hword
      split at h
      · cases h
      · rename_i text d hd
        split_ifs at h
        cases h
        exact (rest_tagText_suffix hd).trans hr
    · split at h
      · cases h
      · rename_i text d hd
        have hrest : d.rest <:+ c.rest := (rest_tagText_suffix hd).trans hword
        split_ifs at h
        · cases h
          exact hrest
        · cases h
          exact hrest

theorem rest_tagToken_suffix {inFlow : Bool} {t : Token × Cursor}
    (h : tagToken inFlow c = .ok t) : t.2.rest <:+ c.rest := by
  unfold tagToken at h
  grind [rest_tagBody_suffix]

/-! ### Directives -/

theorem rest_versionNumber_suffix {t : Nat × Cursor} (h : versionNumber c = .ok t) :
    t.2.rest <:+ c.rest := by
  have hdigits := @rest_skipWhile_suffix c Decimal.isDigit
  grind [versionNumber]

theorem rest_versionDirective_suffix {t : Token × Cursor} (h : versionDirective c = .ok t) :
    t.2.rest <:+ c.rest := by
  unfold versionDirective at h
  obtain ⟨⟨major, d⟩, hmajor, h⟩ := Success.bind_eq_ok.mp h
  have hd : d.rest <:+ c.rest := (rest_versionNumber_suffix hmajor).trans rest_skipBlanks_suffix
  dsimp only at h
  split_ifs at h
  obtain ⟨⟨minor, e⟩, hminor, h⟩ := Success.bind_eq_ok.mp h
  cases h
  exact (rest_versionNumber_suffix hminor).trans ((rest_advance_suffix 1).trans hd)

theorem rest_directiveHandle_suffix {t : String × Cursor} (h : directiveHandle c = .ok t) :
    t.2.rest <:+ c.rest := by
  have hadvance := @rest_advance_suffix c
  unfold directiveHandle at h
  grind

theorem rest_tagDirective_suffix {t : Token × Cursor} (h : tagDirective c = .ok t) :
    t.2.rest <:+ c.rest := by
  unfold tagDirective at h
  obtain ⟨⟨handle, d⟩, hhandle, h⟩ := Success.bind_eq_ok.mp h
  have hd : d.rest <:+ c.rest := (rest_directiveHandle_suffix hhandle).trans rest_skipBlanks_suffix
  dsimp only at h
  split_ifs at h
  obtain ⟨⟨text, e⟩, htext, h⟩ := Success.bind_eq_ok.mp h
  dsimp only at h
  split_ifs at h
  cases h
  exact (rest_tagText_suffix htext).trans (rest_skipBlanks_suffix.trans hd)

theorem rest_directiveToken_suffix {t : Token × Cursor} (h : directiveToken c = .ok t) :
    t.2.rest <:+ c.rest := by
  have hname : (c.skipWhile isWordChar).rest <:+ c.rest := rest_skipWhile_suffix isWordChar
  unfold directiveToken at h
  dsimp only at h
  split_ifs at h
  · obtain ⟨⟨token, d⟩, hd, h⟩ := Success.bind_eq_ok.mp h
    dsimp only at h
    split_ifs at h
    cases h
    exact rest_skipLine_suffix.trans ((rest_versionDirective_suffix hd).trans hname)
  · obtain ⟨⟨token, d⟩, hd, h⟩ := Success.bind_eq_ok.mp h
    dsimp only at h
    split_ifs at h
    cases h
    exact rest_skipLine_suffix.trans ((rest_tagDirective_suffix hd).trans hname)
  · cases h

end ShutdownLint.Yaml

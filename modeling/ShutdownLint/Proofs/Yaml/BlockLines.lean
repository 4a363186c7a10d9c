import Mathlib.Tactic.SplitIfs
import ShutdownLint.Yaml.Lexer
/-!
Texts that consist of one mapping entry a line.

Such a line may begin an item of a list, and behind its key it has a word, an empty list or nothing.
The tokens of lines come from a fold over them that knows the columns of the open block collections:
a line closes the deeper ones, opens those that begin with it, and adds its own tokens. Words may
be of any length, since no key can begin behind a colon.
-/

set_option autoImplicit false

namespace ShutdownLint.Yaml

/-! ### Words -/

/-- A character that a word may have behind its first one. -/
def isSolid (c : Char) : Bool :=
  isPrintable c && !isBlank c && !isBreak c

/-- A text that is a plain scalar of one line wherever it stands. -/
structure Word where
  text : String
  begins : text.toList.head?.any Char.isAlphanum = true := by decide
  solid : text.toList.all isSolid = true := by decide
  ends : text.toList.getLast? ≠ some ':' := by decide

/-- What begins with a character of some kind is not empty. -/
theorem exists_cons_of_head? {kind : Char → Bool} {cs : List Char}
    (h : cs.head?.any kind = true) : ∃ c rest, cs = c :: rest ∧ kind c = true := by
  cases cs with
  | nil => cases h
  | cons c rest => exact ⟨c, rest, rfl, h⟩

theorem Word.exists_cons (w : Word) : ∃ c cs, w.text.toList = c :: cs ∧ c.isAlphanum = true :=
  exists_cons_of_head? w.begins

/-- Characters differ if one of them is of some kind and the other one is not. -/
theorem ne_of_kind {kind : Char → Bool} {c d : Char} (hc : kind c = true) (hd : kind d = false) :
    c ≠ d := by
  rintro rfl
  rw [hc] at hd
  cases hd

theorem toNat_of_isAlpha {c : Char} (h : c.isAlpha = true) :
    65 ≤ c.toNat ∧ c.toNat ≤ 90 ∨ 97 ≤ c.toNat ∧ c.toNat ≤ 122 := by
  rcases (Bool.or_eq_true ..).mp h with hupper | hlower
  · have hrange : 'A' ≤ c ∧ c ≤ 'Z' := of_decide_eq_true hupper
    exact .inl ⟨UInt32.le_iff_toNat_le.mp hrange.1, UInt32.le_iff_toNat_le.mp hrange.2⟩
  · obtain ⟨hfirst, hlast⟩ := (Bool.and_eq_true ..).mp hlower
    exact .inr ⟨UInt32.le_iff_toNat_le.mp (of_decide_eq_true hfirst),
      UInt32.le_iff_toNat_le.mp (of_decide_eq_true hlast)⟩

theorem toNat_of_isDigit {c : Char} (h : c.isDigit = true) : 48 ≤ c.toNat ∧ c.toNat ≤ 57 := by
  obtain ⟨hfirst, hlast⟩ := (Bool.and_eq_true ..).mp h
  exact ⟨UInt32.le_iff_toNat_le.mp (of_decide_eq_true hfirst),
    UInt32.le_iff_toNat_le.mp (of_decide_eq_true hlast)⟩

/-- Whether a character is visible and of ASCII. -/
def isGraphic (c : Char) : Bool :=
  '!' ≤ c && c ≤ '~'

theorem isGraphic_of_isAlphanum {c : Char} (h : c.isAlphanum = true) : isGraphic c = true := by
  have hrange : 33 ≤ c.toNat ∧ c.toNat ≤ 126 := by
    rcases (Bool.or_eq_true ..).mp h with halpha | hdigit
    · have := toNat_of_isAlpha halpha
      omega
    · have := toNat_of_isDigit hdigit
      omega
  exact (Bool.and_eq_true ..).mpr ⟨decide_eq_true (UInt32.le_iff_toNat_le.mpr hrange.1),
    decide_eq_true (UInt32.le_iff_toNat_le.mpr hrange.2)⟩

theorem isSolid_of_isGraphic {c : Char} (h : isGraphic c = true) : isSolid c = true := by
  have hprintable : isPrintable c = true := by
    simp only [isGraphic, Bool.and_eq_true, decide_eq_true_eq] at h
    have hspace : ' ' ≤ c := Char.le_trans (by decide) h.1
    simp [isPrintable, hspace, h.2]
  have hblank : isBlank c = false := by
    refine Bool.eq_false_iff.mpr fun hc ↦ ?_
    simp only [isBlank, Bool.or_eq_true, beq_iff_eq] at hc
    rcases hc with rfl | rfl <;> cases h
  have hbreak : isBreak c = false := by
    refine Bool.eq_false_iff.mpr fun hc ↦ ?_
    simp only [isBreak, Bool.or_eq_true, beq_iff_eq] at hc
    rcases hc with (((rfl | rfl) | rfl) | rfl) | rfl <;> cases h
  rw [isSolid, hprintable, hblank, hbreak]
  rfl

/-- A text of letters, digits and hyphens that does not begin with a hyphen is a word. -/
def Word.ofName (s : String) (begins : s.toList.head?.any Char.isAlphanum = true)
    (letters : ∀ c ∈ s.toList, c.isAlphanum = true ∨ c = '-') : Word where
  text := s
  begins := begins
  solid := by
    refine List.all_eq_true.mpr fun c hc ↦ isSolid_of_isGraphic ?_
    rcases letters c hc with h | rfl
    · exact isGraphic_of_isAlphanum h
    · rfl
  ends := by
    intro hlast
    rcases letters ':' (List.mem_of_getLast? hlast) with h | h <;> cases h

/-- Whether a token may begin here. -/
def beginsToken (c : Char) : Bool :=
  !isBreak c && !isBlank c && c != '#' && c != '\ufeff'

theorem beginsToken_of_isAlphanum {c : Char} (h : c.isAlphanum = true) : beginsToken c = true := by
  simp [beginsToken, isBreak, isBlank, ne_of_kind h]

/-! ### Lines -/

/-- What stands behind the key of a line. -/
inductive LineValue where
  | word (w : Word)
  | emptyList
  /-- Whatever is in the lines below. -/
  | nothing

/-- An entry of a mapping on a line of its own. -/
structure Line where
  /-- How far the line is indented. -/
  column : Nat
  /-- Whether the entry is the first one in an item of a list. -/
  isItem : Bool := false
  key : Word
  value : LineValue
  fits : key.text.toList.length ≤ 1024 := by decide

namespace LineValue

def chars : LineValue → List Char
  | word w => ' ' :: w.text.toList
  | emptyList => [' ', '[', ']']
  | nothing => []

/-- Newest first. -/
def tokens : LineValue → List Token
  | word w => [.scalar w.text true]
  | emptyList => [.flowSequenceEnd, .flowSequenceStart]
  | nothing => []

end LineValue

namespace Line

def keyColumn (l : Line) : Nat :=
  if l.isItem then l.column + 2 else l.column

/-- The line behind its indentation. -/
def chars (l : Line) : List Char :=
  (if l.isItem then ['-', ' '] else []) ++ (l.key.text.toList ++ ':' :: l.value.chars)

/-- Opens a block collection at a column that lies inside the innermost one. -/
def opened (column : Nat) (start : Token) (blocks : List Nat) (tokens : List Token) :
    List Nat × List Token :=
  if blocks.head?.all (· < column) then (column :: blocks, start :: tokens) else (blocks, tokens)

/-- Adds the tokens of a line. -/
def advance (s : List Nat × List Token) (l : Line) : List Nat × List Token :=
  let (blocks, tokens) := Lexer.closedBlocks l.column s.1 s.2
  let (blocks, tokens) :=
    if l.isItem then
      let (blocks, tokens) := opened l.column .blockSequenceStart blocks tokens
      (blocks, .blockEntry :: tokens)
    else (blocks, tokens)
  let (blocks, tokens) := opened l.keyColumn .blockMappingStart blocks tokens
  (blocks, l.value.tokens ++ .value :: .scalar l.key.text true :: .key :: tokens)

end Line

namespace Lines

/-- The text of lines. -/
def chars (ls : List Line) : List Char :=
  ls.flatMap fun l ↦ List.replicate l.column ' ' ++ (l.chars ++ ['\n'])

def column : List Line → Nat
  | [] => 0
  | l :: _ => l.column

/-- The text of lines behind the first indentation. -/
def tail : List Line → List Char
  | [] => []
  | l :: ls => l.chars ++ '\n' :: chars ls

/-- The tokens of lines. -/
def tokens (ls : List Line) : List Token :=
  let (blocks, tokens) := ls.foldl Line.advance ([], [])
  (List.replicate blocks.length Token.blockEnd ++ tokens).reverse

/-- No word goes on in the next line. -/
def WellIndented : List Line → Prop
  | [] => True
  | l :: ls =>
    (match l.value with | .word _ => column ls ≤ l.keyColumn | _ => True) ∧ WellIndented ls

theorem chars_append (ls ms : List Line) : chars (ls ++ ms) = chars ls ++ chars ms :=
  List.flatMap_append

theorem chars_flatMap {α : Type} (as : List α) (lines : α → List Line) :
    chars (as.flatMap lines) = as.flatMap fun a ↦ chars (lines a) :=
  List.flatMap_assoc

theorem chars_eq (ls : List Line) : chars ls = List.replicate (column ls) ' ' ++ tail ls := by
  cases ls with
  | nil => rfl
  | cons l ls => simp [chars, column, tail]

theorem tail_cases (ls : List Line) :
    tail ls = [] ∧ column ls = 0 ∨ ∃ c r, tail ls = c :: r ∧ beginsToken c = true := by
  cases ls with
  | nil => exact .inl ⟨rfl, rfl⟩
  | cons l ls =>
    obtain ⟨c, cs, hkey, hc⟩ := l.key.exists_cons
    refine .inr ?_
    cases hitem : l.isItem with
    | false =>
      exact ⟨c, _, by simp [tail, Line.chars, hitem, hkey]; rfl, beginsToken_of_isAlphanum hc⟩
    | true => exact ⟨'-', _, by simp [tail, Line.chars, hitem]; rfl, rfl⟩

end Lines

/-! ### White space -/

theorem Position.right_right (p : Position) (m n : Nat) :
    (p.right m).right n = p.right (m + n) := by
  simp [right, Nat.add_assoc]

theorem Position.right_succ (p : Position) (n : Nat) : p.right (n + 1) = (p.right 1).right n := by
  rw [right_right, Nat.add_comm]

namespace Lexer

theorem gap_cons {c : Char} (h : beginsToken c = true) (inFlow keyAllowed : Bool) (r : List Char)
    (p : Position) : gap inFlow (c :: r) p keyAllowed false = (⟨c :: r, p⟩, keyAllowed) := by
  have hc : c ≠ '\r' := by rintro rfl; cases h
  simp [beginsToken, isBlank] at h
  rw [gap]
  · simp [h]
  · exact fun _ h _ ↦ hc h

theorem gap_blanks_append (n : Nat) (cs : List Char) (inFlow keyAllowed : Bool) (p : Position) :
    gap inFlow (List.replicate n ' ' ++ cs) p keyAllowed false =
      gap inFlow cs (p.right n) keyAllowed false := by
  induction n generalizing p with
  | zero => rfl
  | succ n ih =>
    rw [Position.right_succ, ← ih]
    rfl

theorem gap_tail (ls : List Line) (inFlow keyAllowed : Bool) (p : Position) :
    gap inFlow (Lines.tail ls) p keyAllowed false = (⟨Lines.tail ls, p⟩, keyAllowed) := by
  rcases Lines.tail_cases ls with ⟨htail, -⟩ | ⟨c, r, htail, hc⟩
  · rw [htail]
    rfl
  · rw [htail, gap_cons hc]

theorem gap_chars (ls : List Line) (inFlow keyAllowed : Bool) (p : Position) :
    gap inFlow (Lines.chars ls) p keyAllowed false =
      (⟨Lines.tail ls, p.right (Lines.column ls)⟩, keyAllowed) := by
  rw [Lines.chars_eq, gap_blanks_append, gap_tail]

/-! ### Words -/

theorem plainText_cons {c : Char} (hsolid : isSolid c = true) {r : List Char}
    (hcolon : c = ':' → atBoundary r = false) (margin : Nat) (p : Position) (text : List Char) :
    plainText false margin (c :: r) p text .nothing =
      plainText false margin r (p.right 1) (c :: text) .nothing := by
  simp only [isSolid, Bool.and_eq_true, Bool.not_eq_eq_eq_not, Bool.not_true] at hsolid
  obtain ⟨⟨-, hblank⟩, hbreak⟩ := hsolid
  have hc : c ≠ '\r' := by rintro rfl; cases hbreak
  have hend : ¬(c = ':' ∧ atBoundary r = true) := by
    rintro ⟨hc, hr⟩
    rw [hcolon hc] at hr
    cases hr
  rw [plainText]
  · simp [hblank, hbreak, hend, Gap.nothing, Gap.crossesLine, Gap.isNothing, Gap.appendTo]
  · exact fun _ h _ ↦ hc h

theorem plainText_append {cs tail : List Char} (hsolid : cs.all isSolid = true)
    (hends : cs.getLast? = some ':' → atBoundary tail = false) (margin : Nat) (p : Position)
    (text : List Char) :
    plainText false margin (cs ++ tail) p text .nothing =
      plainText false margin tail (p.right cs.length) (cs.reverse ++ text) .nothing := by
  induction cs generalizing p text with
  | nil => rfl
  | cons c cs ih =>
    rw [List.all_cons, Bool.and_eq_true] at hsolid
    have hcolon : c = ':' → atBoundary (cs ++ tail) = false := by
      intro hc
      cases cs with
      | nil => exact hends (congrArg some hc)
      | cons d ds =>
        have hd := (Bool.and_eq_true_iff.mp (List.all_cons ▸ hsolid.2)).1
        simp only [isSolid, Bool.and_eq_true, Bool.not_eq_true'] at hd
        simp [atBoundary, hd]
    have hends' : cs.getLast? = some ':' → atBoundary tail = false := by
      intro h
      refine hends ?_
      rw [List.getLast?_cons, h]
      rfl
    rw [List.cons_append, plainText_cons hsolid.1 hcolon, ih hsolid.2 hends',
      Position.right_right]
    simp [Nat.add_comm]

/-- A word ends in front of the colon that makes it a key. -/
theorem plainText_key (w : Word) {c : Char} {cs r : List Char} (hw : w.text.toList = c :: cs)
    (hr : atBoundary r = true) (margin : Nat) (p : Position) :
    plainText false margin (cs ++ ':' :: r) (p.right 1) [c] .nothing =
      .ok ⟨w.text.toList.reverse, false, ⟨':' :: r, p.right w.text.toList.length⟩⟩ := by
  have hsolid := w.solid
  rw [hw, List.all_cons, Bool.and_eq_true] at hsolid
  rw [plainText_append hsolid.2 fun _ ↦ rfl, hw, Position.right_right, plainText]
  · simp [isBlank, isBreak, Gap.nothing, Gap.crossesLine, Gap.isNothing, hr, Nat.add_comm 1]
  · exact fun _ h ↦ absurd h (by decide)

theorem plainText_blanks_append (n : Nat) (cs : List Char) (margin : Nat) (p : Position)
    (text : List Char) (first : Option Char) (later : List Char) :
    plainText false margin (List.replicate n ' ' ++ cs) p text (.acrossLines first later) =
      plainText false margin cs (p.right n) text (.acrossLines first later) := by
  induction n generalizing p with
  | zero => rfl
  | succ n ih =>
    rw [Position.right_succ, ← ih]
    rfl

/-- A word ends with its line if the next one is not indented as deep as what it is in. -/
theorem plainText_word (w : Word) {c : Char} {cs : List Char} (hw : w.text.toList = c :: cs)
    {ls : List Line} {margin : Nat} (hls : Lines.column ls < margin) (p : Position) :
    ∃ q : Position, q.column = Lines.column ls ∧
      plainText false margin (cs ++ '\n' :: Lines.chars ls) p [c] .nothing =
        .ok ⟨w.text.toList.reverse, true, ⟨Lines.tail ls, q⟩⟩ := by
  have hsolid := w.solid
  rw [hw, List.all_cons, Bool.and_eq_true] at hsolid
  have hends : cs.getLast? = some ':' → atBoundary ('\n' :: Lines.chars ls) = false := by
    intro hlast
    refine absurd ?_ w.ends
    rw [hw, List.getLast?_cons, hlast]
    rfl
  refine ⟨((p.right cs.length).down 1).right (Lines.column ls), Nat.zero_add _, ?_⟩
  have hbreak (p : Position) (text : List Char) :
      plainText false margin ('\n' :: Lines.chars ls) p text .nothing =
        plainText false margin (Lines.chars ls) (p.down 1) text (.acrossLines (some '\n') []) :=
    rfl
  rw [plainText_append hsolid.2 hends, hbreak, Lines.chars_eq, plainText_blanks_append, hw,
    List.reverse_cons]
  rcases Lines.tail_cases ls with ⟨htail, -⟩ | ⟨d, r, htail, hd⟩
  · rw [htail]
    rfl
  · have hne : d ≠ '\r' := by rintro rfl; cases hd
    have hcolumn : (((p.right cs.length).down 1).right (Lines.column ls)).column < margin := by
      simpa [Position.right, Position.down] using hls
    simp only [beginsToken, Bool.and_eq_true, Bool.not_eq_true'] at hd
    rw [htail, plainText]
    · simp [hd, Gap.crossesLine, hcolumn]
    · exact fun _ h _ ↦ hne h

end Lexer

end ShutdownLint.Yaml

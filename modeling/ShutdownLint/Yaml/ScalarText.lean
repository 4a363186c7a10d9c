import ShutdownLint.Yaml.Token
/-!
The three ways of writing a scalar's text: plain, in quotes, and as a block of indented lines.

Each reader goes through the text one character at a time. Text that has been read is kept newest
character first. A `Gap` is the white space between two pieces of a plain or quoted scalar: on one
line it stays as it is, across lines it is folded. The readers only ever leave a suffix of what
they were given, which is what the length lemmas at the end of each section record.
-/

set_option autoImplicit false

namespace ShutdownLint.Yaml

/-! ### Gaps -/

/-- White space that has been read and whose meaning depends on what follows; newest first. -/
inductive Gap where
  | inLine (blanks : List Char)
  /-- The first break is absent when an escape has removed it. -/
  | acrossLines (first : Option Char) (later : List Char)
  deriving DecidableEq, Inhabited

namespace Gap

def nothing : Gap := .inLine []

def isNothing : Gap → Bool
  | .inLine [] => true
  | _ => false

def crossesLine : Gap → Bool
  | .inLine _ => false
  | .acrossLines _ _ => true

/-- Blanks next to a break are dropped. -/
def addBlank (c : Char) : Gap → Gap
  | .inLine blanks => .inLine (c :: blanks)
  | gap => gap

def addBreak (b : Char) : Gap → Gap
  | .inLine _ => .acrossLines (some b) []
  | .acrossLines first later => .acrossLines first (b :: later)

/-- Puts the folded gap behind a text: a lone line feed becomes a space, and of several the first
one is dropped. -/
def appendTo (text : List Char) : Gap → List Char
  | .inLine blanks => blanks ++ text
  | .acrossLines none later => later ++ text
  | .acrossLines (some b) later =>
    if b == '\n' then if later.isEmpty then ' ' :: text else later ++ text
    else later ++ b :: text

end Gap

/-! ### Plain scalars -/

structure PlainText where
  /-- Newest character first. -/
  text : List Char
  /-- Whether the scalar was followed by a line break. -/
  endsLine : Bool
  cursor : Cursor

/-- Indicators that end a plain scalar inside a flow collection. -/
def isFlowIndicator (c : Char) : Bool :=
  c == ',' || c == '[' || c == ']' || c == '{' || c == '}'

/-- What may not stand behind a colon in a flow collection's plain scalar. -/
def isColonClash (c : Char) : Bool :=
  isFlowIndicator c || c == '?'

/-- Reads on in a plain scalar. Outside flow collections a line that begins before column `margin`
is no longer part of it, and neither is a comment. -/
def plainText (inFlow : Bool) (margin : Nat) :
    List Char → Position → List Char → Gap → Except Fault PlainText
  | [], p, text, gap => .ok ⟨text, gap.crossesLine, ⟨[], p⟩⟩
  | '\r' :: '\n' :: r, p, text, gap =>
    plainText inFlow margin r (p.down 2) text (gap.addBreak '\n')
  | c :: r, p, text, gap =>
    if isBlank c then
      if gap.crossesLine && c == '\t' && p.column < margin then .error .tabInIndentation
      else plainText inFlow margin r (p.right 1) text (gap.addBlank c)
    else if isBreak c then
      plainText inFlow margin r (p.down 1) text (gap.addBreak (loadedBreak c))
    else if gap.crossesLine && !inFlow && p.column < margin then
      .ok ⟨text, true, ⟨c :: r, p⟩⟩
    else if !gap.isNothing && c == '#' then
      .ok ⟨text, gap.crossesLine, ⟨c :: r, p⟩⟩
    else if inFlow && c == ':' && r.head?.any isColonClash then
      .error .colonInFlow
    else if (c == ':' && atBoundary r) || (inFlow && isFlowIndicator c) then
      .ok ⟨text, gap.crossesLine, ⟨c :: r, p⟩⟩
    else
      plainText inFlow margin r (p.right 1) (c :: gap.appendTo text) .nothing

theorem length_rest_plainText_le {inFlow : Bool} {margin : Nat} {cs : List Char} {p : Position}
    {text : List Char} {gap : Gap} {t : PlainText}
    (h : plainText inFlow margin cs p text gap = .ok t) : t.cursor.rest.length ≤ cs.length := by
  fun_induction plainText inFlow margin cs p text gap <;> grind

/-! ### Quoted scalars -/

/-- What the reader of a quoted scalar expects next. -/
inductive QuotedState where
  | text
  /-- A backslash has been read. -/
  | escape
  /-- So many digits of an escape are missing; the others spell a value. -/
  | code (missing value : Nat)
  /-- A single quote has been read, which closes the scalar unless another one follows. -/
  | quote
  deriving DecidableEq, Inhabited

/-- The character that a one-letter escape stands for. -/
def escaped? (c : Char) : Option Char :=
  match c with
  | '0' => some '\x00'
  | 'a' => some '\x07'
  | 'b' => some '\x08'
  | 't' => some '\t'
  | '\t' => some '\t'
  | 'n' => some '\n'
  | 'v' => some '\x0b'
  | 'f' => some '\x0c'
  | 'r' => some '\r'
  | 'e' => some '\x1b'
  | ' ' => some ' '
  | '"' => some '"'
  | '/' => some '/'
  | '\\' => some '\\'
  | 'N' => some '\u0085'
  | '_' => some '\u00a0'
  | 'L' => some '\u2028'
  | 'P' => some '\u2029'
  | _ => none

/-- How many hexadecimal digits follow the letter of a numeric escape. -/
def codeLength? (c : Char) : Option Nat :=
  match c with
  | 'x' => some 2
  | 'u' => some 4
  | 'U' => some 8
  | _ => none

/-- The character with a given number, if there is one. -/
def charOfCode? (n : Nat) : Option Char :=
  if n.isValidChar then some (Char.ofNat n) else none

/-- Reads on in a quoted scalar; escapes are known in double quotes only. The text comes newest
character first. -/
def quotedText (double : Bool) :
    List Char → Position → QuotedState → List Char → Gap → Except Fault (List Char × Cursor)
  | [], p, state, text, _ =>
    if state == .quote then .ok (text, ⟨[], p⟩) else .error .unclosedQuote
  | '\r' :: '\n' :: r, p, state, text, gap =>
    match state with
    | .text => quotedText double r (p.down 2) .text text (gap.addBreak '\n')
    | .escape => quotedText double r (p.down 2) .text text (.acrossLines none [])
    | .code _ _ => .error .badEscape
    | .quote => .ok (text, ⟨'\r' :: '\n' :: r, p⟩)
  | c :: r, p, .text, text, gap =>
    if isBlank c then quotedText double r (p.right 1) .text text (gap.addBlank c)
    else if isBreak c then
      quotedText double r (p.down 1) .text text (gap.addBreak (loadedBreak c))
    else if double && c == '"' then .ok (gap.appendTo text, ⟨r, p.right 1⟩)
    else if double && c == '\\' then
      quotedText double r (p.right 1) .escape (gap.appendTo text) .nothing
    else if !double && c == '\x27' then
      quotedText double r (p.right 1) .quote (gap.appendTo text) .nothing
    else quotedText double r (p.right 1) .text (c :: gap.appendTo text) .nothing
  | c :: r, p, .escape, text, _ =>
    if isBreak c then quotedText double r (p.down 1) .text text (.acrossLines none [])
    else
      match escaped? c, codeLength? c with
      | some x, _ => quotedText double r (p.right 1) .text (x :: text) .nothing
      | none, some n => quotedText double r (p.right 1) (.code n 0) text .nothing
      | none, none => .error .badEscape
  | c :: r, p, .code missing value, text, _ =>
    match Text.hexDigit? c with
    | none => .error .badEscape
    | some d =>
      if missing ≤ 1 then
        match charOfCode? (16 * value + d) with
        | some x => quotedText double r (p.right 1) .text (x :: text) .nothing
        | none => .error .badEscape
      else quotedText double r (p.right 1) (.code (missing - 1) (16 * value + d)) text .nothing
  | c :: r, p, .quote, text, _ =>
    if c == '\x27' then quotedText double r (p.right 1) .text (c :: text) .nothing
    else .ok (text, ⟨c :: r, p⟩)

theorem length_rest_quotedText_le {double : Bool} {cs : List Char} {p : Position}
    {state : QuotedState} {text : List Char} {gap : Gap} {t : List Char × Cursor}
    (h : quotedText double cs p state text gap = .ok t) : t.2.rest.length ≤ cs.length := by
  fun_induction quotedText double cs p state text gap <;> grind

/-! ### Block scalars -/

/-- What happens to the breaks at the end of a block scalar. -/
inductive Chomping where
  | strip
  | clip
  | keep
  deriving DecidableEq, Inhabited

namespace Chomping

def ofMark? (c : Char) : Option Chomping :=
  if c == '-' then some .strip else if c == '+' then some .keep else none

end Chomping

/-- The header of a block scalar behind its indicator: how to end it, and how much deeper than its
parent it is indented, which is zero if that is left open. -/
def blockHeader (c : Cursor) : Except Fault (Chomping × Nat × Cursor) :=
  match c.rest with
  | [] => .ok (.clip, 0, c)
  | m :: r =>
    let next := r.headD ' '
    match Chomping.ofMark? m with
    | some chomping =>
      if next == '0' then .error .badBlockHeader
      else if Decimal.isDigit next then .ok (chomping, next.toNat - '0'.toNat, c.advance 2)
      else .ok (chomping, 0, c.advance 1)
    | none =>
      if m == '0' then .error .badBlockHeader
      else if Decimal.isDigit m then
        match Chomping.ofMark? next with
        | some chomping => .ok (chomping, m.toNat - '0'.toNat, c.advance 2)
        | none => .ok (.clip, m.toNat - '0'.toNat, c.advance 1)
      else .ok (.clip, 0, c)

/-- What has been read of a block scalar. -/
structure BlockText where
  /-- The column of the scalar's lines, zero as long as it is not known. -/
  indent : Nat
  /-- The deepest indentation of the lines before it is known. -/
  widest : Nat := 0
  /-- Whether a line of text is being read, or else white space in front of one. -/
  inLine : Bool := false
  /-- Newest character first. -/
  text : List Char := []
  /-- The break at the end of the last line of text. -/
  ended : Option Char := none
  /-- The breaks of the empty lines since, newest first. -/
  empty : List Char := []
  /-- Whether the last line of text began with a blank. -/
  blankLed : Bool := false
  deriving DecidableEq, Inhabited

namespace BlockText

/-- Begins a line of text with the character `c`, joining it to the line before: folding replaces
a line feed between two lines that do not begin with a blank. -/
def startLine (literal : Bool) (b : BlockText) (c : Char) : BlockText :=
  let joined :=
    if !literal && b.ended == some '\n' && !b.blankLed && !isBlank c then
      if b.empty.isEmpty then ' ' :: b.text else b.text
    else b.ended.toList ++ b.text
  { b with
    inLine := true, text := c :: (b.empty ++ joined), ended := none, empty := [],
    blankLed := isBlank c }

def finish (chomping : Chomping) (b : BlockText) : List Char :=
  match chomping with
  | .strip => b.text
  | .clip => b.ended.toList ++ b.text
  | .keep => b.empty ++ (b.ended.toList ++ b.text)

def addBreak (b : BlockText) (c : Char) : BlockText :=
  if b.inLine then { b with inLine := false, ended := some c, empty := [] }
  else { b with empty := c :: b.empty }

/-- The indentation once the first line that is not empty has been reached: that of the widest
line so far, but deeper than the parent's. -/
def settledIndent (margin : Nat) (b : BlockText) : Nat :=
  if b.indent = 0 then max (max b.widest margin) 1 else b.indent

end BlockText

/-- Reads on in a block scalar whose parent's lines begin before column `margin`. The text comes
newest character first. -/
def blockText (literal : Bool) (chomping : Chomping) (margin : Nat) :
    List Char → Position → BlockText → Except Fault (List Char × Cursor)
  | [], p, b => .ok (b.finish chomping, ⟨[], p⟩)
  | '\r' :: '\n' :: r, p, b =>
    blockText literal chomping margin r (p.down 2) (b.addBreak '\n')
  | c :: r, p, b =>
    if isBreak c then
      blockText literal chomping margin r (p.down 1) (b.addBreak (loadedBreak c))
    else if b.inLine then
      blockText literal chomping margin r (p.right 1) { b with text := c :: b.text }
    else if c == ' ' && (b.indent == 0 || p.column < b.indent) then
      blockText literal chomping margin r (p.right 1)
        { b with widest := max b.widest (p.column + 1) }
    else if c == '\t' && (b.indent == 0 || p.column < b.indent) then
      .error .tabInIndentation
    else if p.column = b.settledIndent margin then
      blockText literal chomping margin r (p.right 1)
        ({ b with indent := b.settledIndent margin }.startLine literal c)
    else .ok (b.finish chomping, ⟨c :: r, p⟩)

theorem length_rest_blockText_le {literal : Bool} {chomping : Chomping} {margin : Nat}
    {cs : List Char} {p : Position} {b : BlockText} {t : List Char × Cursor}
    (h : blockText literal chomping margin cs p b = .ok t) : t.2.rest.length ≤ cs.length := by
  fun_induction blockText literal chomping margin cs p b <;> grind

/-- Reads a block scalar behind its indicator. -/
def blockScalar (literal : Bool) (margin : Nat) (c : Cursor) :
    Except Fault (List Char × Cursor) := do
  let (chomping, increment, c) ← blockHeader c
  let c := c.skipBlanks.skipComment
  if c.rest.head?.all isBreak then
    let c := c.skipBreak
    let indent := if increment = 0 then 0 else margin - 1 + increment
    blockText literal chomping margin c.rest c.position { indent }
  else .error .badBlockHeader

end ShutdownLint.Yaml

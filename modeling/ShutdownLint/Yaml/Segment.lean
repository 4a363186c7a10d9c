import ShutdownLint.Yaml.Lexer
/-!
Cutting a text at its document marks.

A mark is three hyphens or three full stops at the start of a line, followed by a blank, a break or
the end. No token reaches across a mark, and no open bracket, quote or indentation survives one, so
the text between two marks can be read on its own.
-/

set_option autoImplicit false

namespace ShutdownLint.Yaml

inductive Mark where
  | documentStart
  | documentEnd
  deriving DecidableEq, Inhabited

/-- The text behind a mark, up to the next one. It begins on the mark's own line, unless only white
space or a comment is left there. -/
structure Segment where
  onMarkLine : Bool
  text : List Char
  deriving DecidableEq, Inhabited

/-- Cuts a text at its marks: what stands in front of the first one, and each mark with the text
behind it. A mark counts only at the start of a line. -/
def cutAtMarks : (lineStart : Bool) → List Char → List Char × List (Mark × List Char)
  | _, [] => ([], [])
  | true, '-' :: '-' :: '-' :: r =>
    let (first, more) := cutAtMarks false r
    if atBoundary r then ([], (.documentStart, first) :: more)
    else ('-' :: '-' :: '-' :: first, more)
  | true, '.' :: '.' :: '.' :: r =>
    let (first, more) := cutAtMarks false r
    if atBoundary r then ([], (.documentEnd, first) :: more)
    else ('.' :: '.' :: '.' :: first, more)
  | _, c :: r =>
    let (first, more) := cutAtMarks (isBreak c) r
    (c :: first, more)

namespace Segment

/-- The segment with the given text behind its mark. -/
def ofTail (tail : List Char) : Segment :=
  let next := ({ rest := tail : Cursor }.skipBlanks).skipComment
  if next.rest.head?.all isBreak then ⟨false, next.skipBreak.rest⟩ else ⟨true, tail⟩

/-- The tokens of a segment. On a mark's own line no key and no list entry may begin. -/
def scan (s : Segment) : Scan :=
  if s.onMarkLine then
    Lexer.run { cursor := ⟨s.text, { index := 3, column := 3 }⟩, keyAllowed := false }
  else Lexer.run { cursor := ⟨s.text, {}⟩ }

end Segment

/-- The segment in front of the first mark of a text, and those behind its marks. -/
def segments (text : List Char) : Segment × List (Mark × Segment) :=
  let (first, more) := cutAtMarks true text
  (⟨false, first⟩, more.map fun (mark, tail) ↦ (mark, Segment.ofTail tail))

end ShutdownLint.Yaml

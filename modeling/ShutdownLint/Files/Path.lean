import ShutdownLint.Text.Pieces
/-!
Paths of files.

A path is what stands between its slashes: an empty segment in front makes it absolute, and empty
segments elsewhere come from slashes that are doubled or stand at the end. Segments that are empty
or a single dot name nothing, except that a dot at the very beginning is a directory to be in.
-/

set_option autoImplicit false

namespace ShutdownLint

/-- The segments are never empty as a list; the empty text has one that is empty. -/
structure Path where
  segments : List String
  deriving DecidableEq, Inhabited, Repr

namespace Path

def ofText (s : String) : Path :=
  ⟨(Text.pieces '/' s.toList).map String.ofList⟩

def text (p : Path) : String :=
  "/".intercalate p.segments

/-- Whether a segment leads anywhere. -/
def isStep (segment : String) : Bool :=
  segment != "" && segment != "."

/-- Removes the segments at the end that name nothing. -/
def dropIdle (segments : List String) : List String :=
  (segments.reverse.dropWhile (!isStep ·)).reverse

/-- The slash or the dot that a path begins with, if it does, and the segments behind it. -/
def splitLead : List String → List String × List String
  | "" :: s :: more => ([""], s :: more)
  | "." :: more => (["."], more)
  | segments => ([], segments)

/-- The name that a path ends in; none if it ends in two dots or names nothing. -/
def fileName? (p : Path) : Option String :=
  ((dropIdle (splitLead p.segments).2).getLast?).filter (· != "..")

/-- The path without its last step. The one of a single name is the empty path, and the root has
none. -/
def parent? (p : Path) : Option Path :=
  let (lead, body) := splitLead p.segments
  let steps := dropIdle body
  let above := dropIdle steps.dropLast
  match lead, steps, above with
  | ["."], [], _ => some ⟨[""]⟩
  | _, [], _ => none
  | ["."], _, above => some ⟨"." :: above⟩
  | lead, _, [] => some ⟨lead ++ [""]⟩
  | lead, _, above => some ⟨lead ++ above⟩

/-- The path of what is found below a directory under some names. -/
def below (p : Path) (names : List String) : Path :=
  if p.segments.getLast? = some "" then ⟨p.segments.dropLast ++ names⟩ else ⟨p.segments ++ names⟩

end Path

end ShutdownLint

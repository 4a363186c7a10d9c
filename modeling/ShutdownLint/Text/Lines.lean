/-!
Texts as lines, and the replacement of one text by another in a third.
-/

set_option autoImplicit false

namespace ShutdownLint.Text

/-- The lines of a text. A line ends in a line feed, in a carriage return and a line feed, or where
the text ends; behind a final line feed there is no other line. -/
def lines : List Char → List (List Char)
  | [] => []
  | '\n' :: cs => [] :: lines cs
  | '\r' :: '\n' :: cs => [] :: lines cs
  | c :: cs =>
    match lines cs with
    | [] => [[c]]
    | first :: more => (c :: first) :: more

/-- Removes the line feeds at the end of a text. -/
def dropLastBreaks (s : String) : String :=
  String.ofList ((s.toList.reverse.dropWhile (· == '\n')).reverse)

/-- Replaces each occurrence of `pattern` by `replacement`, from left to right. What has been put in
is not looked at again; `skip` characters of an occurrence are still to be passed over. -/
def replaceFrom (pattern replacement : List Char) : (skip : Nat) → List Char → List Char
  | _, [] => []
  | skip + 1, _ :: cs => replaceFrom pattern replacement skip cs
  | 0, c :: cs =>
    if pattern.isPrefixOf (c :: cs) then
      replacement ++ replaceFrom pattern replacement (pattern.length - 1) cs
    else c :: replaceFrom pattern replacement 0 cs

/-- Replaces each occurrence of a pattern that is not empty. -/
def replace (pattern replacement s : String) : String :=
  String.ofList (replaceFrom pattern.toList replacement.toList 0 s.toList)

end ShutdownLint.Text

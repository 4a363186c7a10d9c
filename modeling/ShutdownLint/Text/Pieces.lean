/-!
Texts in pieces between separators, and texts as parts of others.
-/

set_option autoImplicit false

namespace ShutdownLint.Text

/-- The pieces of a text between the occurrences of a character; there is always at least one. -/
def pieces (separator : Char) : List Char → List (List Char)
  | [] => [[]]
  | c :: cs =>
    if c = separator then [] :: pieces separator cs
    else
      match pieces separator cs with
      | [] => [[c]]
      | first :: more => (c :: first) :: more

/-- Whether a text is a part of another one. -/
def occursIn (pattern : List Char) : List Char → Bool
  | [] => pattern.isEmpty
  | c :: cs => pattern.isPrefixOf (c :: cs) || occursIn pattern cs

end ShutdownLint.Text

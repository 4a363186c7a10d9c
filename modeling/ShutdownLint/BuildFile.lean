import ShutdownLint.Finding
/-!
Container build files.

A line launches a process if its first word is one of two keywords, in any case, and something
follows it. What follows is a list of words if it begins with a bracket, and a command for a shell
otherwise. Empty lines and comments, which begin with a number sign, are passed over.
-/

set_option autoImplicit false

namespace ShutdownLint.BuildFile

/-- The instructions that launch a process, with the rules against using a shell for it. -/
def launchers : List (String × Rule) :=
  [("ENTRYPOINT", .shellEntrypoint), ("CMD", .shellCommand)]

/-- The rule for a keyword. -/
def launcher? (keyword : List Char) : Option Rule :=
  launchers.lookup (String.ofList (keyword.map Text.upperChar))

/-- The keyword of a trimmed line and what follows the white space behind it, if there is any. -/
def instruction? (line : List Char) : Option (List Char × List Char) :=
  match line.dropWhile (!Text.isWhiteSpace ·) with
  | [] => none
  | _ :: rest => some (line.takeWhile (!Text.isWhiteSpace ·), Text.trimChars rest)

/-- Whether an argument is a list of words. -/
def isExecForm (argument : List Char) : Bool :=
  argument.head? == some '['

/-- The rule that a line violates. -/
def violation? (line : List Char) : Option Rule :=
  let line := Text.trimChars line
  if line.isEmpty || line.head? == some '#' then none
  else do
    let (keyword, argument) ← instruction? line
    let r ← launcher? keyword
    if isExecForm argument then none else some r

/-- A byte-order mark at the start of a text does not belong to its first line. -/
def withoutMark : List Char → List Char
  | '\ufeff' :: cs => cs
  | cs => cs

/-- The findings on lines of which the first has the number `n`. -/
def findingsFrom (file : String) (n : UInt32) : List (List Char) → List Finding
  | [] => []
  | line :: more =>
    ((violation? line).map fun r ↦ r.atLine file n).toList ++ findingsFrom file (n + 1) more

/-- The findings on a build file, in the order of its lines. -/
def findings (content file : String) : List Finding :=
  findingsFrom file 1 (Text.lines (withoutMark content.toList))

end ShutdownLint.BuildFile

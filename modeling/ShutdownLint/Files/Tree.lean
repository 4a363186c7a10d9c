/-!
Trees of files and directories.

The names in a directory are distinct and in no particular order. A name that begins with a dot is
hidden, and so is everything below it. There are no links, so each file stands in one place only.
-/

set_option autoImplicit false

namespace ShutdownLint

inductive FileTree where
  | file (content : List UInt8)
  | directory (entries : List (String × FileTree))
  deriving Inhabited

namespace FileTree

def isDirectory : FileTree → Bool
  | directory _ => true
  | file _ => false

/-- What is found under names, each in the directory before. -/
def find? : List String → FileTree → Option FileTree
  | [], t => some t
  | name :: names, directory entries => (entries.lookup name).bind (find? names)
  | _ :: _, file _ => none

/-- Puts something in a place, whose directory has to exist. -/
def put (new : FileTree) : List String → FileTree → FileTree
  | [], _ => new
  | [name], directory entries =>
    directory (entries.filter (·.1 != name) ++ [(name, new)])
  | name :: names, directory entries =>
    directory (entries.map fun e ↦ if e.1 == name then (name, put new names e.2) else e)
  | _ :: _, t => t

def isHidden (name : String) : Bool :=
  name.toList.head? == some '.'

mutual

/-- All files with their contents, by the names that lead to them. -/
def files : FileTree → List (List String × List UInt8)
  | file content => [([], content)]
  | directory entries => filesIn entries

def filesIn : List (String × FileTree) → List (List String × List UInt8)
  | [] => []
  | (name, t) :: more => t.files.map (fun f ↦ (name :: f.1, f.2)) ++ filesIn more

end

/-- The order in which a directory is walked through. -/
def inOrder (a b : String × List (List String)) : Bool :=
  a.1 ≤ b.1

mutual

/-- The files that are not hidden, by the names that lead to them. A directory is walked through in
the order of its names, and what is below a name comes in the place of the name. It is meant
for trees in which every path is short enough to be opened; what lies behind a longer one is listed
here all the same. -/
def walk : FileTree → List (List String)
  | file _ => [[]]
  | directory entries =>
    ((branches entries).mergeSort inOrder).flatMap fun (name, found) ↦ found.map (name :: ·)

/-- The names that are not hidden, each with what is found below it. -/
def branches : List (String × FileTree) → List (String × List (List String))
  | [] => []
  | (name, t) :: more =>
    if isHidden name then branches more else (name, t.walk) :: branches more

end

end FileTree

end ShutdownLint

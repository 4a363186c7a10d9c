import ShutdownLint.Decimal.Digits
import ShutdownLint.Files.Path
import ShutdownLint.Files.Tree
import ShutdownLint.Text.Utf8
/-!
A file system: a tree and the directory in it from which relative paths lead.

`resolve` follows a path step by step. Every segment but a last name needs a directory to be in, so
that a slash behind the name of a file is an error. Files are read and written as a whole. To write
needs the directory to be there; `createDirectories` makes it and all above it.
-/

set_option autoImplicit false

namespace ShutdownLint

/-- Why something cannot be done with a path. -/
inductive FileError where
  | notFound
  | notDirectory
  | alreadyExists
  | isDirectory
  | nameTooLong
  /-- The null character is not possible in paths. -/
  | nullInPath
  | notUtf8
  deriving DecidableEq, Inhabited, Repr

namespace FileError

def message : FileError → String
  | notFound => "No such file or directory (os error 2)"
  | notDirectory => "Not a directory (os error 20)"
  | alreadyExists => "File exists (os error 17)"
  | isDirectory => "Is a directory (os error 21)"
  | nameTooLong => "File name too long (os error 36)"
  | nullInPath => "file name contained an unexpected NUL byte"
  | notUtf8 => "stream did not contain valid UTF-8"

end FileError

structure FileSystem where
  root : FileTree
  /-- The names that lead from the root to the working directory. -/
  workingDirectory : List String
  deriving Inhabited

namespace FileSystem

/-! ### Paths -/

/-- How many bytes a name may have. -/
def nameLimit : Nat := 255

/-- How many bytes a path may have. -/
def pathLimit : Nat := 4095

/-- Refuses paths that cannot be followed at all. -/
def checkPath (p : Path) : Except FileError Unit :=
  if p.text.toList.contains '\x00' then .error .nullInPath
  else if p.text.isEmpty then .error .notFound
  else if pathLimit < p.text.utf8ByteSize then .error .nameTooLong
  else .ok ()

/-- Follows a segment from the place to which some names lead. -/
def follow (fs : FileSystem) (place : List String) (segment : String) :
    Except FileError (List String) :=
  match fs.root.find? place with
  | none => .error .notFound
  | some (.file _) => .error .notDirectory
  | some (.directory entries) =>
    if !Path.isStep segment then .ok place
    else if segment = ".." then .ok place.dropLast
    else if nameLimit < segment.utf8ByteSize then .error .nameTooLong
    else if (entries.lookup segment).isSome then .ok (place ++ [segment])
    else .error .notFound

/-- Where a path starts, and the segments to follow from there. -/
def start (fs : FileSystem) (p : Path) : List String × List String :=
  match p.segments with
  | "" :: s :: more => ([], s :: more)
  | segments => (fs.workingDirectory, segments)

/-- The names that lead from the root to where a path leads. -/
def resolve (fs : FileSystem) (p : Path) : Except FileError (List String) := do
  checkPath p
  let (place, segments) := fs.start p
  segments.foldlM fs.follow place

def find (fs : FileSystem) (p : Path) : Except FileError FileTree := do
  let place ← fs.resolve p
  match fs.root.find? place with
  | some t => return t
  | none => .error .notFound

def isDirectory (fs : FileSystem) (p : Path) : Bool :=
  match fs.find p with
  | .ok t => t.isDirectory
  | .error _ => false

/-! ### Reading -/

def read (fs : FileSystem) (p : Path) : Except FileError (List UInt8) := do
  match ← fs.find p with
  | .file content => return content
  | .directory _ => .error .isDirectory

def readText (fs : FileSystem) (p : Path) : Except FileError String := do
  match Text.Utf8.strict? (← fs.read p) with
  | some s => return s
  | none => .error .notUtf8

/-! ### Writing -/

/-- The last segment of a path that is not empty, the segments in front of it, and whether a slash
follows it. -/
def splitLast (segments : List String) : Option (List String × String × Bool) :=
  let body := (segments.reverse.dropWhile (· == "")).reverse
  body.getLast?.map fun last ↦ (body.dropLast, last, body.length < segments.length)

/-- What a path wants to make: a name in a directory. -/
structure Target where
  directory : List String
  name : String
  /-- Whether a slash follows. -/
  hasSlash : Bool
  deriving DecidableEq, Inhabited

/-- Finds the directory in which a path wants to make something. A path that ends in dots or in
nothing but slashes names no entry of a directory. -/
def target (fs : FileSystem) (p : Path) : Except FileError (Option Target) := do
  checkPath p
  let (place, segments) := fs.start p
  match splitLast segments with
  | none => return none
  | some (parents, name, hasSlash) =>
    let directory ← parents.foldlM fs.follow place
    let _ ← fs.follow directory "."
    if name = "." || name = ".." then return none
    else return some { directory, name, hasSlash }

/-- Whether there is something at a target already. -/
def entryAt (fs : FileSystem) (t : Target) : Except FileError (Option FileTree) :=
  if nameLimit < t.name.utf8ByteSize then .error .nameTooLong
  else .ok (fs.root.find? (t.directory ++ [t.name]))

def putAt (fs : FileSystem) (t : Target) (new : FileTree) : FileSystem :=
  { fs with root := FileTree.put new (t.directory ++ [t.name]) fs.root }

/-- Makes a directory in one that exists. -/
def createDirectory (fs : FileSystem) (p : Path) : Except FileError FileSystem := do
  match ← fs.target p with
  | none => .error .alreadyExists
  | some t =>
    match ← fs.entryAt t with
    | some _ => .error .alreadyExists
    | none => return fs.putAt t (.directory [])

/-- The path itself and the paths above it, from the longest to the shortest. -/
def withParents : Nat → Path → List Path
  | 0, p => [p]
  | depth + 1, p =>
    match p.parent? with
    | some q => p :: withParents depth q
    | none => [p]

/-- Makes the first directory of a list, and those behind it first if they are missing. Whether this
succeeds or not, the directories that have been made remain. -/
def createAll (fs : FileSystem) : List Path → FileSystem × Except FileError Unit
  | [] => (fs, .ok ())
  | p :: above =>
    if p.text.isEmpty then (fs, .ok ())
    else
      match fs.createDirectory p with
      | .ok fs => (fs, .ok ())
      | .error .notFound =>
        match createAll fs above with
        | (fs, .error e) => (fs, .error e)
        | (fs, .ok ()) =>
          match fs.createDirectory p with
          | .ok fs => (fs, .ok ())
          | .error e => (fs, if fs.isDirectory p then .ok () else .error e)
      | .error e => (fs, if fs.isDirectory p then .ok () else .error e)

/-- Makes a directory and the ones above it, as far as they are missing. -/
def createDirectories (fs : FileSystem) (p : Path) : FileSystem × Except FileError Unit :=
  fs.createAll (withParents p.segments.length p)

/-- Makes a file or replaces its content. -/
def write (fs : FileSystem) (p : Path) (content : List UInt8) : Except FileError FileSystem := do
  match ← fs.target p with
  | none => .error .isDirectory
  | some t =>
    if t.hasSlash then .error .isDirectory
    else
      match ← fs.entryAt t with
      | some (.directory _) => .error .isDirectory
      | _ => return fs.putAt t (.file content)

/-- The files below the working directory that are new or have a new content. -/
def changedFiles (before after : FileSystem) : List (List String × List UInt8) :=
  let files (fs : FileSystem) := ((fs.root.find? fs.workingDirectory).map FileTree.files).getD []
  let old := files before
  (files after).filter fun f ↦ !old.contains f

end FileSystem

end ShutdownLint

import ShutdownLint.CommandLine.Run
import Std.Time.DateTime.Timestamp
/-!
The program: loads the files that the arguments name, runs the command on them and carries out what
it says.
-/

set_option autoImplicit false

namespace ShutdownLint.Program

/-- The present time. -/
def now : IO Timestamp := do
  let nanoseconds := (← Std.Time.Timestamp.now).toNanosecondsSinceUnixEpoch.val.toNat
  return (Timestamp.ofUnixTime? (nanoseconds / 1000000000) (nanoseconds % 1000000000)).getD .epoch

/-! ### Loading files -/

/-- The path on the disk to which names lead from the root. -/
def diskPath (names : List String) : String :=
  "/" ++ "/".intercalate names

/-- Adds something to the tree unless it is there already. -/
def addMissing (fs : FileSystem) (names : List String) (t : FileTree) : FileSystem :=
  if (fs.root.find? names).isSome then fs else { fs with root := FileTree.put t names fs.root }

/-- Adds a file, with its content if this is going to be read. -/
def addFile (fs : FileSystem) (names : List String) (isNeeded : Bool) : IO FileSystem := do
  let isArtifact := (names.getLast?.bind ArtifactKind.ofFileName?).isSome
  if isNeeded || isArtifact then
    let bytes ← IO.FS.readBinFile (diskPath names)
    return addMissing fs names (.file bytes.toList)
  else return addMissing fs names (.file [])

/-- Adds all that is below a directory and not hidden. -/
partial def addBelow (fs : FileSystem) (names : List String) : IO FileSystem := do
  let place := (← IO.currentDir) / diskPath names
  let mut fs := fs
  for e in ← place.readDir do
    if !FileTree.isHidden e.fileName then
      let names := names ++ [e.fileName]
      match (← e.path.symlinkMetadata).type with
      | .dir => fs ← addBelow (addMissing fs names (.directory [])) names
      | .file => fs ← addFile fs names false
      | _ => pure ()
  return fs

/-- Adds what a path leads to and the directories on its way. -/
def addPath (fs : FileSystem) (p : Path) (isNeeded isSearched : Bool) : IO FileSystem := do
  let (place, segments) := fs.start p
  let mut fs := fs
  let mut names := place
  for segment in segments do
    if segment == ".." then names := names.dropLast
    else if Path.isStep segment then names := names ++ [segment]
    let onDisk := (← IO.currentDir) / diskPath names
    if !(← onDisk.pathExists) then return fs
    if ← onDisk.isDir then fs := addMissing fs names (.directory [])
    else fs ← addFile fs names isNeeded
  if isSearched && ((fs.root.find? names).any FileTree.isDirectory) then addBelow fs names
  else return fs

/-- The directory that the program was started in, with all above it and nothing else. -/
def emptySystem : IO FileSystem := do
  let workingDirectory := (Path.ofText (← IO.currentDir).toString).segments.filter Path.isStep
  let prefixes := (List.range workingDirectory.length).map (workingDirectory.take <| · + 1)
  let root := prefixes.foldl (fun t names ↦ FileTree.put (.directory []) names t) (.directory [])
  return { root, workingDirectory }

/-- The part of the disk that arguments are about. -/
def load (args : List String) : IO FileSystem := do
  let fs ← emptySystem
  match CommandLine.Invocation.ofArguments args with
  | .ok { command := .check c, .. } =>
    if c.paths.isEmpty then return fs
    let mut fs ← addPath fs c.config true false
    for p in c.paths do
      fs ← addPath fs p false true
    for p in ReportFormat.all.filterMap c.reportPath? do
      fs ← addPath fs p false false
    return fs
  | _ => return fs

/-! ### Carrying out -/

/-- Writes the files that are new or changed. -/
def store (before after : FileSystem) : IO Unit := do
  let old := before.root.files
  for (names, content) in after.root.files do
    if !old.contains (names, content) then
      IO.FS.createDirAll (diskPath names.dropLast)
      IO.FS.writeBinFile (diskPath names) (ByteArray.mk content.toArray)

def run (args : List String) : IO UInt32 := do
  let startedAt ← now
  let fs ← load args
  let outcome := CommandLine.run args fs ⟨startedAt, ← now⟩
  IO.print outcome.stdout
  for note in outcome.notes do
    IO.eprintln note.text
  IO.eprint outcome.stderr
  store fs outcome.files
  return outcome.exitCode

end ShutdownLint.Program

def main (args : List String) : IO UInt32 := do
  try
    ShutdownLint.Program.run args
  catch e =>
    IO.eprintln ("drainguard error: " ++ toString e)
    return ShutdownLint.CommandLine.Outcome.errorCode

import ShutdownLint.Files.System
import ShutdownLint.Rule.Basic
/-!
Which files are analyzed.

The name of a file decides what kind of artifact it is. A directory stands for the files below it
that are not hidden, in the order of their names; a file that is named itself may be hidden.
-/

set_option autoImplicit false

namespace ShutdownLint

/-- The kind of artifact that a name is for. Case does not matter. -/
def ArtifactKind.ofFileName? (name : String) : Option ArtifactKind :=
  let cs := (Text.lower name).toList
  if Text.occursIn "dockerfile".toList cs then some .buildFile
  else if ".yml".toList.isSuffixOf cs || ".yaml".toList.isSuffixOf cs then some .manifest
  else none

/-- The kind of artifact that a path leads to. -/
def ArtifactKind.ofPath? (p : Path) : Option ArtifactKind :=
  p.fileName?.bind ofFileName?

structure Artifact where
  path : Path
  kind : ArtifactKind
  deriving DecidableEq, Inhabited, Repr

/-- A path that leads nowhere, and why. -/
structure MissingPath where
  path : Path
  cause : FileError
  deriving DecidableEq, Inhabited, Repr

def MissingPath.message (e : MissingPath) : String :=
  "path does not exist: " ++ e.path.text ++ ": " ++ e.cause.message

namespace Artifact

/-- The artifact at a path, if its name says that it is one. -/
def ofPath? (p : Path) : Option Artifact :=
  (ArtifactKind.ofPath? p).map (⟨p, ·⟩)

/-- The files that a path stands for. -/
def candidates (fs : FileSystem) (p : Path) : Except MissingPath (List Path) :=
  match fs.find p with
  | .error e => .error ⟨p, e⟩
  | .ok (.file _) => .ok [p]
  | .ok t => .ok (t.walk.map p.below)

/-- The artifacts among the files that a path stands for. -/
def ofArgument (fs : FileSystem) (p : Path) : Except MissingPath (List Artifact) :=
  (candidates fs p).map (·.filterMap ofPath?)

/-- The artifacts that paths stand for, in the order of the paths. -/
def ofArguments (fs : FileSystem) : List Path → Except MissingPath (List Artifact)
  | [] => .ok []
  | p :: ps => do
    let first ← ofArgument fs p
    let others ← ofArguments fs ps
    return first ++ others

end Artifact

end ShutdownLint

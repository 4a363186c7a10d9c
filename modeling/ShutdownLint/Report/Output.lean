import ShutdownLint.Files.System
/-!
Reports as files.

The directory that a report goes to is made if it is missing. The text is written as it is.
-/

set_option autoImplicit false

namespace ShutdownLint

/-- Why a text cannot be written. -/
inductive WriteError where
  | directory (path : Path) (cause : FileError)
  | file (path : Path) (cause : FileError)
  deriving DecidableEq, Inhabited, Repr

def WriteError.message : WriteError → String
  | directory path cause => "create directory: " ++ path.text ++ ": " ++ cause.message
  | file path cause => "write text: " ++ path.text ++ ": " ++ cause.message

namespace FileSystem

/-- Makes the directory that a path has its last step in. A path of one step needs none. -/
def createParent (fs : FileSystem) (p : Path) : FileSystem × Except WriteError Unit :=
  match p.parent? with
  | none => (fs, .ok ())
  | some parent =>
    if parent.text.isEmpty then (fs, .ok ())
    else
      let (fs, made) := fs.createDirectories parent
      (fs, made.mapError (.directory parent))

/-- Writes a text. The file system is also given if this fails, since directories may have been
made. -/
def writeText (fs : FileSystem) (p : Path) (text : String) :
    FileSystem × Except WriteError Unit :=
  match fs.createParent p with
  | (fs, .error e) => (fs, .error e)
  | (fs, .ok ()) =>
    match fs.write p (Text.Utf8.encode text) with
    | .ok fs => (fs, .ok ())
    | .error e => (fs, .error (.file p e))

end FileSystem

end ShutdownLint

import ShutdownLint.Yaml.Token
/-!
The directives in front of a document and the tags they give meaning to.
-/

set_option autoImplicit false

namespace ShutdownLint.Yaml

/-- What a tag means for the value of its node. -/
inductive Tag where
  /-- The value is read as null, or as one of the scalar types, whatever its notation. -/
  | null
  | bool
  | int
  | float
  /-- The exclamation mark on its own. -/
  | bare
  /-- A tag of the document's own, without the exclamation mark it begins with. -/
  | named (name : String)
  /-- A tag of the document's own that cannot be spelled. -/
  | illegible
  /-- Any other tag, which makes a scalar a string and says nothing about a collection. -/
  | other
  deriving DecidableEq, Inhabited

namespace Tag

/-- Drops one exclamation mark in front of other characters. -/
def withoutMark : List Char → List Char
  | '!' :: c :: r => c :: r
  | cs => cs

def ofText (t : TagText) : Tag :=
  if t = TagText.ofString "tag:yaml.org,2002:null" then .null
  else if t = TagText.ofString "tag:yaml.org,2002:bool" then .bool
  else if t = TagText.ofString "tag:yaml.org,2002:int" then .int
  else if t = TagText.ofString "tag:yaml.org,2002:float" then .float
  else if t = [some '!'] then .bare
  else if t.head? = some (some '!') then
    match t.mapM id with
    | some cs => .named (String.ofList (withoutMark (withoutMark cs)))
    | none => .illegible
  else .other

end Tag

/-- The directives of one document. -/
structure Directives where
  version : Option (Nat × Nat) := none
  handles : List (String × TagText) := []
  deriving DecidableEq, Inhabited

namespace Directives

/-- The handles every document knows unless it gives them another meaning. -/
def builtin : List (String × TagText) :=
  [("!", TagText.ofString "!"), ("!!", TagText.ofString "tag:yaml.org,2002:")]

/-- What a tag written with a handle means; without a handle the suffix is all of it. -/
def tag (d : Directives) (handle : String) (suffix : TagText) : Except Fault Tag :=
  if handle.isEmpty then .ok (.ofText suffix)
  else
    match (d.handles ++ builtin).lookup handle with
    | some leading => .ok (.ofText (leading ++ suffix))
    | none => .error .unknownHandle

/-- Takes one more directive into account. -/
def add (d : Directives) : Token → Except Fault Directives
  | .versionDirective major minor =>
    if d.version.isSome then .error .duplicateDirective
    else if major = 1 ∧ (minor = 1 ∨ minor = 2) then
      .ok { d with version := some (major, minor) }
    else .error .badVersion
  | .tagDirective handle leading =>
    if (d.handles.lookup handle).isSome then .error .duplicateDirective
    else .ok { d with handles := d.handles ++ [(handle, leading)] }
  | _ => .error .noDocumentStart

/-- Reads the tokens between two documents, all of which have to be directives. -/
def ofTokens (tokens : List Token) : Except Fault Directives :=
  tokens.foldlM add {}

end Directives

namespace Token

def isDirective : Token → Bool
  | .versionDirective _ _ => true
  | .tagDirective _ _ => true
  | _ => false

end Token

end ShutdownLint.Yaml

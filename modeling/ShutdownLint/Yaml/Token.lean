import ShutdownLint.Yaml.Text
/-!
What a YAML text is made of, and the ways in which it can fail to be YAML.

The marks that separate documents are not among the tokens: a text is cut at them before it is
read, so that tokens always belong to one document or to the directives in front of it.
-/

set_option autoImplicit false

namespace ShutdownLint.Yaml

/-- The text of a tag or of a part of one. An escape may spell a character that does not exist,
which is kept as `none`. -/
abbrev TagText := List (Option Char)

namespace TagText

def ofString (s : String) : TagText :=
  s.toList.map some

/-- The text up to the first NUL, which ends a tag wherever it stands. -/
def beforeNul (t : TagText) : TagText :=
  t.takeWhile (· != some '\x00')

end TagText

inductive Token where
  | blockSequenceStart
  | blockMappingStart
  | blockEnd
  | flowSequenceStart
  | flowSequenceEnd
  | flowMappingStart
  | flowMappingEnd
  | blockEntry
  | flowEntry
  | key
  | value
  | alias (name : String)
  | anchor (name : String)
  /-- The handle is empty for a tag that is written out in full. -/
  | tag (handle : String) (suffix : TagText)
  | scalar (text : String) (plain : Bool)
  | versionDirective (major minor : Nat)
  | tagDirective (handle : String) (leading : TagText)
  deriving DecidableEq, Inhabited

/-- Why a text is not a YAML document, or has no value. -/
inductive Fault where
  | controlCharacter
  | tabInIndentation
  | unclosedQuote
  | badEscape
  | badBlockHeader
  | badAnchor
  | badTag
  | badDirective
  | colonInFlow
  | unfinishedKey
  | misplacedEntry
  | misplacedKey
  | misplacedValue
  | noToken
  | duplicateDirective
  | badVersion
  | unknownHandle
  | unknownAlias
  | unexpectedToken
  | noDocumentStart
  | tooDeep
  | tooManyAliases
  | duplicateKey
  | badScalar
  deriving DecidableEq, Inhabited, Repr

end ShutdownLint.Yaml

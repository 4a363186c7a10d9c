import ShutdownLint.Yaml.Merge
import ShutdownLint.Yaml.NodeValue
import ShutdownLint.Yaml.Segment
/-!
A text as a sequence of YAML documents.

`documents` gives the results one after another, up to the first document that does not parse.
`Stream.parse` follows the merge keys of each and stops at the first failure of either kind, which
it reports with the number of the document.
-/

set_option autoImplicit false

namespace ShutdownLint.Yaml

/-! ### Documents -/

/-- The document at the front of a segment, and the directives behind it that belong to the next
one, if any. A fault that shows only behind the document does not belong to it. -/
structure Opened where
  document : Node
  leftover : List Token
  fault : Option Fault

/-- Reads the document at the front of a segment. -/
def Scan.document (s : Scan) (d : Directives) (afterMark : Bool) : Except Fault Opened :=
  match s.fault, Node.ofTokens d afterMark s.tokens with
  | some e, .ok (_, []) => .error e
  | fault, .ok (document, leftover) => .ok { document, leftover, fault }
  | _, .error e => .error e

/-- The directives that end a segment, if there are any; nothing else may be left in it. -/
def pendingDirectives (tokens : List Token) (fault : Option Fault) :
    Except Fault (Option Directives) :=
  match fault with
  | some e => .error e
  | none => if tokens.isEmpty then .ok none else (Directives.ofTokens tokens).map some

/-- The documents behind the marks. Directives have to be followed by the start of a document. -/
def documentsAfter (pending : Option Directives) :
    List (Mark × Segment) → List (Except Fault Node)
  | [] => if pending.isSome then [.error .noDocumentStart] else []
  | (.documentEnd, s) :: more =>
    if pending.isSome then [.error .noDocumentStart]
    else
      let scan := s.scan
      match pendingDirectives scan.tokens scan.fault with
      | .ok pending => documentsAfter pending more
      | .error e => [.error e]
  | (.documentStart, s) :: more =>
    match s.scan.document (pending.getD {}) true with
    | .error e => [.error e]
    | .ok opened =>
      .ok opened.document ::
        match pendingDirectives opened.leftover opened.fault with
        | .ok pending => documentsAfter pending more
        | .error e => [.error e]

/-- The trees of a text's documents. The first document needs no mark, and a text without any
document counts as one that is empty. -/
def nodes (text : List Char) : List (Except Fault Node) :=
  let (first, more) := segments text
  let scan := first.scan
  if !text.all isPrintable then [.error .controlCharacter]
  else if scan.tokens.isEmpty && scan.fault.isNone then
    match more with
    | [] => [.ok (.empty {})]
    | (.documentEnd, _) :: _ => [.error .unexpectedToken]
    | more => documentsAfter none more
  else if scan.tokens.head?.any Token.isDirective then
    match pendingDirectives scan.tokens scan.fault with
    | .ok pending => documentsAfter pending more
    | .error e => [.error e]
  else
    match scan.document {} false with
    | .error e => [.error e]
    | .ok opened =>
      .ok opened.document ::
        match pendingDirectives opened.leftover opened.fault with
        | .ok pending => documentsAfter pending more
        | .error e => [.error e]

/-- The result of each document of a text. -/
def documents (text : String) : List (Except Fault Value) :=
  (nodes text.toList).map (·.bind Node.documentValue)

/-! ### The stream -/

inductive StreamError where
  | document (index : Nat) (fault : Fault)
  | merge (index : Nat) (fault : MergeFault)
  deriving DecidableEq, Inhabited, Repr

namespace StreamError

def message : StreamError → String
  | document index _ => "YAML document #" ++ Decimal.text (index + 1) ++ " is malformed"
  | merge index fault =>
    "YAML document #" ++ Decimal.text (index + 1) ++ " has an invalid merge key: " ++ fault.message

end StreamError

namespace Stream

/-- The values of documents with their merge keys followed. The first document has this index. -/
def values (index : Nat) : List (Except Fault Value) → Except StreamError (List Value)
  | [] => .ok []
  | .error e :: _ => .error (.document index e)
  | .ok v :: more =>
    match v.merged with
    | .error e => .error (.merge index e)
    | .ok v => (values (index + 1) more).map (v :: ·)

def parse (text : String) : Except StreamError (List Value) :=
  values 0 (documents text)

end Stream

end ShutdownLint.Yaml

import ShutdownLint.Yaml.Property
import ShutdownLint.Yaml.ScalarText
/-!
Cutting the text of one document into tokens.

Indentation is turned into tokens that open and close block collections. Whether a word is a
mapping key shows only at the colon behind it, so a `Lexer` remembers the last place in each open
collection at which a key may begin, and the tokens that mark a key are put there afterwards. Such
a place is given up at the end of its line or after 1024 characters; where the indentation allows
nothing but a key, giving it up is a fault.

A reader of tokens is served as soon as no key can begin at the token it asks for. `Scan` therefore
holds, next to a fault, the tokens that can be read before it shows.
-/

set_option autoImplicit false

namespace ShutdownLint.Yaml

/-- A place at which a key may have begun. -/
structure SimpleKey where
  /-- Whether nothing but a key may stand there. -/
  required : Bool
  /-- The number of tokens in front of it. -/
  number : Nat
  position : Position
  deriving DecidableEq, Inhabited

namespace SimpleKey

def isStale (k : SimpleKey) (p : Position) : Bool :=
  k.position.line < p.line || k.position.index + 1024 < p.index

/-- What remains of a possible key at a later place. -/
def refresh (p : Position) : Option SimpleKey → Except Fault (Option SimpleKey)
  | none => .ok none
  | some k =>
    if k.isStale p then if k.required then .error .unfinishedKey else .ok none
    else .ok (some k)

end SimpleKey

structure Lexer where
  cursor : Cursor
  /-- Newest first. -/
  tokens : List Token := []
  /-- The columns of the open block collections, innermost first. -/
  blocks : List Nat := []
  /-- Whether a key may begin here. -/
  keyAllowed : Bool := true
  /-- The possible key of the innermost open flow collection, or of the block context. -/
  key : Option SimpleKey := none
  /-- The possible keys around it, one for each open flow collection. -/
  outer : List (Option SimpleKey) := []
  deriving DecidableEq, Inhabited

/-- The tokens of a text, up to the fault if there is one. -/
structure Scan where
  tokens : List Token
  fault : Option Fault
  deriving DecidableEq, Inhabited

namespace Lexer

def inFlow (s : Lexer) : Bool :=
  !s.outer.isEmpty

/-- The first column that lies inside the innermost block collection. -/
def margin (s : Lexer) : Nat :=
  match s.blocks with
  | [] => 0
  | column :: _ => column + 1

/-! ### Between tokens -/

/-- Moves over blanks, comments and breaks. A tab is no blank where a key may begin, and a key may
begin on every new line outside flow collections. -/
def gap (inFlow : Bool) : List Char → Position → Bool → Bool → Cursor × Bool
  | [], p, keyAllowed, _ => (⟨[], p⟩, keyAllowed)
  | '\r' :: '\n' :: r, p, keyAllowed, _ => gap inFlow r (p.down 2) (keyAllowed || !inFlow) false
  | c :: r, p, keyAllowed, comment =>
    if isBreak c then gap inFlow r (p.down 1) (keyAllowed || !inFlow) false
    else if comment then gap inFlow r (p.right 1) keyAllowed true
    else if c == ' ' || (c == '\t' && (inFlow || !keyAllowed))
        || (c == '\ufeff' && p.column == 0) then
      gap inFlow r (p.right 1) keyAllowed false
    else if c == '#' then gap inFlow r (p.right 1) keyAllowed true
    else (⟨c :: r, p⟩, keyAllowed)

theorem length_rest_gap_le (inFlow : Bool) (cs : List Char) (p : Position)
    (keyAllowed comment : Bool) :
    (gap inFlow cs p keyAllowed comment).1.rest.length ≤ cs.length := by
  fun_induction gap inFlow cs p keyAllowed comment <;> grind

/-- Forgets the possible keys that are too far back. -/
def expireKeys (s : Lexer) : Except Fault Lexer :=
  match SimpleKey.refresh s.cursor.position s.key,
      s.outer.mapM (SimpleKey.refresh s.cursor.position) with
  | .ok key, .ok outer => .ok { s with key, outer }
  | .error e, _ => .error e
  | _, .error e => .error e

/-- Closes the block collections that begin behind `column`. -/
def closedBlocks (column : Nat) : List Nat → List Token → List Nat × List Token
  | [], tokens => ([], tokens)
  | b :: blocks, tokens =>
    if column < b then closedBlocks column blocks (.blockEnd :: tokens)
    else (b :: blocks, tokens)

def closeBlocks (s : Lexer) (column : Nat) : Lexer :=
  if s.inFlow then s
  else
    let (blocks, tokens) := closedBlocks column s.blocks s.tokens
    { s with blocks, tokens }

def closeAllBlocks (s : Lexer) : Lexer :=
  if s.inFlow then s
  else { s with blocks := [], tokens := List.replicate s.blocks.length .blockEnd ++ s.tokens }

/-- Moves to where the next token begins. -/
def toToken (s : Lexer) : Except Fault Lexer :=
  let (cursor, keyAllowed) := gap s.inFlow s.cursor.rest s.cursor.position s.keyAllowed false
  match expireKeys { s with cursor, keyAllowed } with
  | .ok s => .ok (s.closeBlocks cursor.position.column)
  | .error e => .error e

/-! ### Keys and block collections -/

def hasRequiredKey (s : Lexer) : Bool :=
  s.key.any SimpleKey.required

def dropKey (s : Lexer) : Except Fault Lexer :=
  if s.hasRequiredKey then .error .unfinishedKey else .ok { s with key := none }

/-- Notes that a key may begin with the next token. -/
def saveKey (s : Lexer) : Except Fault Lexer :=
  if s.keyAllowed then
    if s.hasRequiredKey then .error .unfinishedKey
    else
      let required := !s.inFlow && s.margin == s.cursor.position.column + 1
      .ok { s with key := some ⟨required, s.tokens.length, s.cursor.position⟩ }
  else .ok s

/-- Puts a token behind the first `number` ones. -/
def insertToken (s : Lexer) (number : Nat) (t : Token) : Lexer :=
  { s with tokens := s.tokens.insertIdx (s.tokens.length - number) t }

/-- Opens a block collection at a column that lies inside the innermost one. -/
def openBlock (s : Lexer) (column number : Nat) (start : Token) : Lexer :=
  if !s.inFlow && s.margin ≤ column then
    { s.insertToken number start with blocks := column :: s.blocks }
  else s

/-- Adds a token that ends at `cursor`. -/
def emit (s : Lexer) (t : Token) (cursor : Cursor) : Lexer :=
  { s with tokens := t :: s.tokens, cursor }

/-! ### Tokens -/

/-- What the next token is, by how it begins. -/
inductive Lead where
  | directive
  | openSequence
  | openMapping
  | closeSequence
  | closeMapping
  | comma
  | entry
  | key
  | value
  | alias
  | anchor
  | tag
  | block (literal : Bool)
  | quoted (double : Bool)
  | plain
  | nothing
  deriving DecidableEq, Inhabited

/-- Characters that no plain scalar begins with, unless something special follows. -/
def isIndicator (c : Char) : Bool :=
  c == '-' || c == '?' || c == ':' || isFlowIndicator c || c == '#' || c == '&' || c == '*'
    || c == '!' || c == '|' || c == '>' || c == '\x27' || c == '"' || c == '%' || c == '@'
    || c == '\x60'

def lead (inFlow : Bool) (column : Nat) (c : Char) (r : List Char) : Lead :=
  match c with
  | '%' => if column = 0 then .directive else .nothing
  | '[' => .openSequence
  | '{' => .openMapping
  | ']' => .closeSequence
  | '}' => .closeMapping
  | ',' => .comma
  | '-' => if atBoundary r then .entry else .plain
  | '?' => if inFlow || atBoundary r then .key else .plain
  | ':' => if inFlow || atBoundary r then .value else .plain
  | '*' => .alias
  | '&' => .anchor
  | '!' => .tag
  | '|' => if inFlow then .nothing else .block true
  | '>' => if inFlow then .nothing else .block false
  | '\x27' => .quoted false
  | '"' => .quoted true
  | c => if isBlank c || isBreak c || isIndicator c then .nothing else .plain

/-- A colon makes a key of what begins at the possible key, or of nothing if there is none. -/
def fetchValue (s : Lexer) (next : Cursor) : Except Fault Lexer :=
  match s.key with
  | some k =>
    let s := (s.insertToken k.number .key).openBlock k.position.column k.number .blockMappingStart
    .ok ({ s with key := none, keyAllowed := false }.emit .value next)
  | none =>
    if s.inFlow then .ok ({ s with keyAllowed := false }.emit .value next)
    else if s.keyAllowed then
      let s := s.openBlock s.cursor.position.column s.tokens.length .blockMappingStart
      .ok ({ s with keyAllowed := true }.emit .value next)
    else .error .misplacedValue

/-- Reads the token that begins with `c`, given that `r` follows. -/
def fetch (s : Lexer) (c : Char) (r : List Char) : Except Fault Lexer :=
  let position := s.cursor.position
  let next : Cursor := ⟨r, position.right 1⟩
  match lead s.inFlow position.column c r with
  | .directive => do
    let s ← s.closeAllBlocks.dropKey
    let (token, next) ← directiveToken next
    return { s with keyAllowed := false }.emit token next
  | .openSequence => do
    let s ← s.saveKey
    return { s with key := none, outer := s.key :: s.outer, keyAllowed := true }.emit
      .flowSequenceStart next
  | .openMapping => do
    let s ← s.saveKey
    return { s with key := none, outer := s.key :: s.outer, keyAllowed := true }.emit
      .flowMappingStart next
  | .closeSequence => do
    let s ← s.dropKey
    return { s with key := s.outer.head?.join, outer := s.outer.tail, keyAllowed := false }.emit
      .flowSequenceEnd next
  | .closeMapping => do
    let s ← s.dropKey
    return { s with key := s.outer.head?.join, outer := s.outer.tail, keyAllowed := false }.emit
      .flowMappingEnd next
  | .comma => do
    let s ← s.dropKey
    return { s with keyAllowed := true }.emit .flowEntry next
  | .entry =>
    if s.inFlow || s.keyAllowed then do
      let s := s.openBlock position.column s.tokens.length .blockSequenceStart
      let s ← s.dropKey
      return { s with keyAllowed := true }.emit .blockEntry next
    else .error .misplacedEntry
  | .key =>
    if s.inFlow || s.keyAllowed then do
      let s := s.openBlock position.column s.tokens.length .blockMappingStart
      let s ← s.dropKey
      return { s with keyAllowed := !s.inFlow }.emit .key next
    else .error .misplacedKey
  | .value => s.fetchValue next
  | .alias => do
    let s ← s.saveKey
    let (name, next) ← anchorName next
    return { s with keyAllowed := false }.emit (.alias name) next
  | .anchor => do
    let s ← s.saveKey
    let (name, next) ← anchorName next
    return { s with keyAllowed := false }.emit (.anchor name) next
  | .tag => do
    let s ← s.saveKey
    let (token, next) ← tagToken s.inFlow next
    return { s with keyAllowed := false }.emit token next
  | .block literal => do
    let s ← s.dropKey
    let (text, next) ← blockScalar literal s.margin next
    return { s with keyAllowed := true }.emit (.scalar (String.ofList text.reverse) false) next
  | .quoted double => do
    let s ← s.saveKey
    let (text, next) ← quotedText double r next.position .text [] .nothing
    return { s with keyAllowed := false }.emit (.scalar (String.ofList text.reverse) false) next
  | .plain => do
    let s ← s.saveKey
    let t ← plainText s.inFlow s.margin r next.position [c] .nothing
    return { s with keyAllowed := t.endsLine }.emit
      (.scalar (String.ofList t.text.reverse) true) t.cursor
  | .nothing => .error .noToken

/-- Closes what is open at the end of the text. -/
def close (s : Lexer) : Except Fault Lexer :=
  s.closeAllBlocks.dropKey

/-- The tokens that can be read although the text behind them is not known yet: those in front of
every possible key. -/
def settled (s : Lexer) : List Token :=
  let live := (s.key :: s.outer).filterMap fun k ↦
    k.bind fun k ↦ if k.isStale s.cursor.position then none else some k.number
  s.tokens.reverse.take (live.foldl min s.tokens.length)

/-! ### Reading on -/

theorem cursor_expireKeys {s t : Lexer} (h : s.expireKeys = .ok t) :
    t.cursor = s.cursor := by
  unfold expireKeys at h
  grind

theorem cursor_closeBlocks (s : Lexer) (column : Nat) :
    (s.closeBlocks column).cursor = s.cursor := by
  unfold closeBlocks
  split <;> rfl

theorem length_rest_toToken_le {s t : Lexer} (h : s.toToken = .ok t) :
    t.cursor.rest.length ≤ s.cursor.rest.length := by
  have hg := length_rest_gap_le s.inFlow s.cursor.rest s.cursor.position s.keyAllowed false
  unfold toToken at h
  simp only at h
  split at h
  · rename_i u hu
    have hc := cursor_expireKeys hu
    simp only [Except.ok.injEq] at h
    subst h
    rw [cursor_closeBlocks, hc]
    exact hg
  · simp at h

theorem length_rest_blockHeader_le {c : Cursor} {t : Chomping × Nat × Cursor}
    (h : blockHeader c = .ok t) : t.2.2.rest.length ≤ c.rest.length := by
  have := fun n ↦ c.length_rest_advance_le n
  unfold blockHeader at h
  grind

theorem length_rest_blockScalar_le {literal : Bool} {margin : Nat} {c : Cursor}
    {t : List Char × Cursor} (h : blockScalar literal margin c = .ok t) :
    t.2.rest.length ≤ c.rest.length := by
  have hs (d : Cursor) : d.skipBlanks.skipComment.skipBreak.rest.length ≤ d.rest.length :=
    Nat.le_trans (Cursor.length_rest_skipBreak_le _) <|
      Nat.le_trans (Cursor.length_rest_skipComment_le _) (d.length_rest_skipWhile_le isBlank)
  unfold blockScalar at h
  match hh : blockHeader c with
  | .error e => simp [hh, bind, Except.bind] at h
  | .ok (chomping, increment, d) =>
    have h₁ := length_rest_blockHeader_le hh
    have h₂ := hs d
    simp only [hh, bind, Except.bind] at h
    split at h
    · have h₃ := length_rest_blockText_le h
      grind
    · simp at h

theorem length_rest_fetch_le {s t : Lexer} {c : Char} {r : List Char}
    (h : s.fetch c r = .ok t) : t.cursor.rest.length ≤ r.length := by
  have hd := @length_rest_directiveToken_le
  have ha := @length_rest_anchorName_le
  have hg := @length_rest_tagToken_le
  have hb := @length_rest_blockScalar_le
  have hq := @length_rest_quotedText_le
  have hp := @length_rest_plainText_le
  unfold fetch fetchValue at h
  simp only [bind, Except.bind, pure, Except.pure, emit] at h
  grind

/-- Reads all tokens. -/
def run (s : Lexer) : Scan :=
  match _ht : s.toToken with
  | .error e => ⟨s.settled, some e⟩
  | .ok t =>
    match _hr : t.cursor.rest with
    | [] =>
      match t.close with
      | .error e => ⟨s.settled, some e⟩
      | .ok u => ⟨u.tokens.reverse, none⟩
    | c :: r =>
      match _hf : t.fetch c r with
      | .error e => ⟨s.settled, some e⟩
      | .ok u => u.run
termination_by s.cursor.rest.length
decreasing_by
  have h₁ := length_rest_toToken_le _ht
  have h₂ := length_rest_fetch_le _hf
  simp only [_hr, List.length_cons] at h₁
  omega

end Lexer

end ShutdownLint.Yaml

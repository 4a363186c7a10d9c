import ShutdownLint.Yaml.Token
/-!
Anchors, aliases, tags and directives: everything in a text that is written with names.

A tag is a handle and a suffix, or a name in angle brackets. Its characters may be escaped octet by
octet; the octets of one character stand together, so an escape sequence is decoded on its own.
-/

set_option autoImplicit false

namespace ShutdownLint.Yaml

/-! ### Names -/

/-- Whether an anchor may be followed by what is unread. -/
def endsAnchor (cs : List Char) : Bool :=
  atBoundary cs || cs.head?.any fun c ↦
    c == '?' || c == ':' || c == ',' || c == ']' || c == '}' || c == '%' || c == '@' || c == '\x60'

/-- The name of an anchor or alias, behind its indicator. -/
def anchorName (c : Cursor) : Except Fault (String × Cursor) :=
  let name := c.rest.takeWhile isWordChar
  let next := c.skipWhile isWordChar
  if name.isEmpty || !endsAnchor next.rest then .error .badAnchor
  else .ok (String.ofList name, next)

theorem length_rest_anchorName_le {c : Cursor} {t : String × Cursor} (h : anchorName c = .ok t) :
    t.2.rest.length ≤ c.rest.length := by
  have := c.length_rest_skipWhile_le isWordChar
  grind [anchorName]

/-! ### Tag text -/

/-- The number of octets in the escaped character that begins with this one. -/
def octetCount? (octet : Nat) : Option Nat :=
  if octet < 0x80 then some 1
  else if octet < 0xC0 then none
  else if octet < 0xE0 then some 2
  else if octet < 0xF0 then some 3
  else if octet < 0xF8 then some 4
  else none

/-- The character that `width` octets spell, unless a shorter spelling exists or none. -/
def charOfOctets? (width value : Nat) : Option Char :=
  let least := match width with
    | 1 => 0
    | 2 => 0x80
    | 3 => 0x800
    | _ => 0x10000
  if least ≤ value && value.isValidChar then some (Char.ofNat value) else none

/-- The octets of an escaped character that are still missing. -/
structure Escape where
  width : Nat
  missing : Nat
  value : Nat

/-- The next octet of a sequence of escapes. -/
def Escape.add (escape : Option Escape) (octet : Nat) (text : TagText) :
    Except Fault (Option Escape × TagText) :=
  match escape with
  | none =>
    match octetCount? octet with
    | none => .error .badTag
    | some width =>
      if width = 1 then .ok (none, charOfOctets? 1 octet :: text)
      else .ok (some ⟨width, width - 1, octet % Decimal.twoTo (7 - width)⟩, text)
  | some ⟨width, missing, value⟩ =>
    if octet / 0x40 = 2 then
      let value := 0x40 * value + octet % 0x40
      if missing ≤ 1 then .ok (none, charOfOctets? width value :: text)
      else .ok (some ⟨width, missing - 1, value⟩, text)
    else .error .badTag

/-- The characters of a tag that need no escape; flow indicators only where the tag is bracketed. -/
def isTagChar (bracketed : Bool) (c : Char) : Bool :=
  isWordChar c || c == ';' || c == '/' || c == '?' || c == ':' || c == '@' || c == '&' || c == '='
    || c == '+' || c == '$' || c == '.' || c == '!' || c == '~' || c == '*' || c == '\x27'
    || c == '(' || c == ')' || (bracketed && (c == ',' || c == '[' || c == ']'))

/-- Reads on in the text of a tag, which comes newest character first. -/
def tagText (bracketed : Bool) :
    List Char → Position → Option Escape → TagText → Except Fault (TagText × Cursor)
  | '%' :: a :: b :: r, p, escape, text =>
    match Text.hexDigit? a, Text.hexDigit? b with
    | some x, some y =>
      match Escape.add escape (16 * x + y) text with
      | .ok (escape, text) => tagText bracketed r (p.right 3) escape text
      | .error e => .error e
    | _, _ => .error .badTag
  | [], p, escape, text => if escape.isSome then .error .badTag else .ok (text, ⟨[], p⟩)
  | c :: r, p, escape, text =>
    if escape.isSome || c == '%' then .error .badTag
    else if isTagChar bracketed c then tagText bracketed r (p.right 1) none (some c :: text)
    else .ok (text, ⟨c :: r, p⟩)

theorem length_rest_tagText_le {bracketed : Bool} {cs : List Char} {p : Position}
    {escape : Option Escape} {text : TagText} {t : TagText × Cursor}
    (h : tagText bracketed cs p escape text = .ok t) : t.2.rest.length ≤ cs.length := by
  fun_induction tagText bracketed cs p escape text <;> grind

/-! ### Tags -/

/-- The tag that begins with the exclamation mark in front of `c`. A tag that stops at its
exclamation mark has no handle. -/
def tagBody (c : Cursor) : Except Fault (Token × Cursor) :=
  match c.rest with
  | '<' :: r =>
    match tagText true r (c.position.right 1) none [] with
    | .error e => .error e
    | .ok (text, c) =>
      match c.rest with
      | '>' :: _ =>
        if text.isEmpty then .error .badTag
        else .ok (.tag "" (TagText.beforeNul text.reverse), c.advance 1)
      | _ => .error .badTag
  | _ =>
    let word := c.rest.takeWhile isWordChar
    let next := c.skipWhile isWordChar
    match next.rest with
    | '!' :: r =>
      match tagText false r (next.position.right 1) none [] with
      | .error e => .error e
      | .ok (text, c) =>
        if text.isEmpty then .error .badTag
        else .ok (.tag (String.ofList ('!' :: word ++ ['!'])) (TagText.beforeNul text.reverse), c)
    | _ =>
      match tagText false next.rest next.position none (word.reverse.map some) with
      | .error e => .error e
      | .ok (text, c) =>
        let suffix := TagText.beforeNul text.reverse
        if suffix.isEmpty then .ok (.tag "" [some '!'], c) else .ok (.tag "!" suffix, c)

/-- A tag ends at a blank, a break or, in a flow collection, a comma. -/
def tagToken (inFlow : Bool) (c : Cursor) : Except Fault (Token × Cursor) :=
  match tagBody c with
  | .error e => .error e
  | .ok (token, next) =>
    if atBoundary next.rest || (inFlow && next.rest.head? == some ',') then .ok (token, next)
    else .error .badTag

theorem length_rest_tagBody_le {c : Cursor} {t : Token × Cursor} (h : tagBody c = .ok t) :
    t.2.rest.length ≤ c.rest.length := by
  have hw := c.length_rest_skipWhile_le isWordChar
  unfold tagBody at h
  split at h
  · rename_i r hr
    split at h
    · simp at h
    · rename_i text d hd
      have := length_rest_tagText_le hd
      have := d.length_rest_advance_le 1
      grind
  · simp only at h
    split at h
    · rename_i r hr
      split at h
      · simp at h
      · rename_i text d hd
        have := length_rest_tagText_le hd
        grind
    · split at h
      · simp at h
      · rename_i text d hd
        have := length_rest_tagText_le hd
        grind

theorem length_rest_tagToken_le {inFlow : Bool} {c : Cursor} {t : Token × Cursor}
    (h : tagToken inFlow c = .ok t) : t.2.rest.length ≤ c.rest.length := by
  unfold tagToken at h
  split at h
  · simp at h
  · rename_i hb
    have := length_rest_tagBody_le hb
    grind

/-! ### Directives -/

/-- A number of at most nine digits in a version. -/
def versionNumber (c : Cursor) : Except Fault (Nat × Cursor) :=
  let digits := c.rest.takeWhile Decimal.isDigit
  if digits.isEmpty || 9 < digits.length then .error .badDirective
  else .ok (Decimal.value digits, c.skipWhile Decimal.isDigit)

def versionDirective (c : Cursor) : Except Fault (Token × Cursor) := do
  let (major, c) ← versionNumber c.skipBlanks
  if c.rest.head? = some '.' then
    let (minor, c) ← versionNumber (c.advance 1)
    return (.versionDirective major minor, c)
  else .error .badDirective

/-- The handle in a directive: one exclamation mark, or a word between two. -/
def directiveHandle (c : Cursor) : Except Fault (String × Cursor) :=
  match c.rest with
  | '!' :: r =>
    let word := r.takeWhile isWordChar
    match r.dropWhile isWordChar with
    | '!' :: _ => .ok (String.ofList ('!' :: word ++ ['!']), c.advance (word.length + 2))
    | _ => if word.isEmpty then .ok ("!", c.advance 1) else .error .badDirective
  | _ => .error .badDirective

def tagDirective (c : Cursor) : Except Fault (Token × Cursor) := do
  let (handle, c) ← directiveHandle c.skipBlanks
  if c.rest.head?.any isBlank then
    let c := c.skipBlanks
    let (text, c) ← tagText true c.rest c.position none []
    if text.isEmpty || !atBoundary c.rest then .error .badDirective
    else return (.tagDirective handle (TagText.beforeNul text.reverse), c)
  else .error .badDirective

/-- The directive behind a percent sign, up to the end of its line. -/
def directiveToken (c : Cursor) : Except Fault (Token × Cursor) := do
  let name := c.rest.takeWhile isWordChar
  let next := c.skipWhile isWordChar
  if !atBoundary next.rest then .error .badDirective
  else
    let (token, next) ←
      if name = ['Y', 'A', 'M', 'L'] then versionDirective next
      else if name = ['T', 'A', 'G'] then tagDirective next
      else .error .badDirective
    let next := next.skipBlanks.skipComment
    if next.rest.head?.all isBreak then return (token, next.skipBreak)
    else .error .badDirective

theorem length_rest_versionNumber_le {c : Cursor} {t : Nat × Cursor}
    (h : versionNumber c = .ok t) : t.2.rest.length ≤ c.rest.length := by
  have := c.length_rest_skipWhile_le Decimal.isDigit
  grind [versionNumber]

theorem length_rest_versionDirective_le {c : Cursor} {t : Token × Cursor}
    (h : versionDirective c = .ok t) : t.2.rest.length ≤ c.rest.length := by
  have h₀ := c.length_rest_skipWhile_le isBlank
  unfold versionDirective at h
  match h₁ : versionNumber c.skipBlanks with
  | .error e => simp [h₁, bind, Except.bind] at h
  | .ok (major, d) =>
    have h₂ := length_rest_versionNumber_le h₁
    have h₃ := d.length_rest_advance_le 1
    simp only [h₁, bind, Except.bind] at h
    split at h
    · match h₄ : versionNumber (d.advance 1) with
      | .error e => simp [h₄] at h
      | .ok (minor, e) =>
        have h₅ := length_rest_versionNumber_le h₄
        simp only [h₄, pure, Except.pure, Except.ok.injEq] at h
        subst h
        simp only [Cursor.skipBlanks] at h₂
        grind
    · simp at h

theorem length_rest_directiveHandle_le {c : Cursor} {t : String × Cursor}
    (h : directiveHandle c = .ok t) : t.2.rest.length ≤ c.rest.length := by
  unfold directiveHandle at h
  have := fun n ↦ c.length_rest_advance_le n
  grind

theorem length_rest_tagDirective_le {c : Cursor} {t : Token × Cursor}
    (h : tagDirective c = .ok t) : t.2.rest.length ≤ c.rest.length := by
  have h₀ := c.length_rest_skipWhile_le isBlank
  unfold tagDirective at h
  match h₁ : directiveHandle c.skipBlanks with
  | .error e => simp [h₁, bind, Except.bind] at h
  | .ok (handle, d) =>
    have h₂ := length_rest_directiveHandle_le h₁
    have h₃ := d.length_rest_skipWhile_le isBlank
    simp only [h₁, bind, Except.bind] at h
    split at h
    · match h₄ : tagText true d.skipBlanks.rest d.skipBlanks.position none [] with
      | .error e => simp [h₄] at h
      | .ok (text, e) =>
        have h₅ := length_rest_tagText_le h₄
        simp only [h₄, pure, Except.pure] at h
        simp only [Cursor.skipBlanks] at *
        grind
    · simp at h

theorem length_rest_directiveToken_le {c : Cursor} {t : Token × Cursor}
    (h : directiveToken c = .ok t) : t.2.rest.length ≤ c.rest.length := by
  have h₀ := c.length_rest_skipWhile_le isWordChar
  have hv {t} := length_rest_versionDirective_le (c := c.skipWhile isWordChar) (t := t)
  have ht {t} := length_rest_tagDirective_le (c := c.skipWhile isWordChar) (t := t)
  have hs (d : Cursor) : d.skipBlanks.skipComment.skipBreak.rest.length ≤ d.rest.length :=
    Nat.le_trans (Cursor.length_rest_skipBreak_le _) <|
      Nat.le_trans (Cursor.length_rest_skipComment_le _) (d.length_rest_skipWhile_le isBlank)
  unfold directiveToken at h
  simp only [bind, Except.bind, pure, Except.pure] at h
  grind

end ShutdownLint.Yaml

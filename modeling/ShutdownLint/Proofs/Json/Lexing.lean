import Mathlib.Data.List.TakeWhile
import Mathlib.Tactic.SplitIfs
import ShutdownLint.Json.Printer
import ShutdownLint.Json.Token
import ShutdownLint.Proofs.Decimal.Digits
/-!
The tokens of printed values. A value whose numbers are written in digits is cut into its own tokens
again, wherever it stands and however it is laid out, as long as what separates tokens is white
space and what follows a word ends it.
-/

set_option autoImplicit false

namespace ShutdownLint.Json

/-! ### Tokens of values -/

mutual

/-- The tokens that a value is made of. -/
def tokensOf : Json → List Token
  | array [] => [.openArray, .closeArray]
  | array (v :: vs) => .openArray :: (tokensOf v ++ tokensOfItems vs)
  | object [] => [.openObject, .closeObject]
  | object ((name, v) :: ms) =>
    .openObject :: .string name :: .colon :: (tokensOf v ++ tokensOfMembers ms)
  | string s => [.string s]
  | v => [.word v]

/-- The tokens behind the first item of an array. -/
def tokensOfItems : List Json → List Token
  | [] => [.closeArray]
  | v :: vs => .comma :: (tokensOf v ++ tokensOfItems vs)

/-- The tokens behind the first member of an object. -/
def tokensOfMembers : List (String × Json) → List Token
  | [] => [.closeObject]
  | (name, v) :: ms => .comma :: .string name :: .colon :: (tokensOf v ++ tokensOfMembers ms)

end

/-- All numbers in a value are whole and written in digits. -/
inductive Legible : Json → Prop
  | null : Legible null
  | bool (b : Bool) : Legible (bool b)
  | number (n : Nat) : Legible (number (Decimal.text n))
  | string (s : String) : Legible (string s)
  | array {items : List Json} (h : ∀ v ∈ items, Legible v) : Legible (array items)
  | object {members : List (String × Json)} (h : ∀ m ∈ members, Legible m.2) :
      Legible (object members)

/-- Nothing but white space stands between tokens, apart from the colon. -/
structure Layout.IsBlank (l : Layout) : Prop where
  lead : ∀ depth, ∀ c ∈ l.lead depth, isSpace c = true
  colon : ∃ blank, l.colon = ':' :: blank ∧ ∀ c ∈ blank, isSpace c = true

theorem Layout.isBlank_pretty : Layout.pretty.IsBlank := by
  refine ⟨fun depth c hc ↦ ?_, [' '], rfl, fun c hc ↦ ?_⟩
  · rcases List.mem_cons.mp hc with rfl | hc
    · rfl
    · rw [List.eq_of_mem_replicate hc]
      rfl
  · rw [List.mem_singleton.mp hc]
    rfl

namespace Lexer

/-- The tokens that are there at the end if some text is still to be read. -/
def readOn (s : Lexer) (cs : List Char) : Option (List Token) :=
  (cs.foldlM step s).bind finish

/-- Between two tokens, with the tokens so far. -/
def between (ts : List Token) : Lexer :=
  ⟨.nothing, ts⟩

theorem readOn_append {s t : Lexer} {cs : List Char} (h : cs.foldlM step s = some t)
    (more : List Char) : s.readOn (cs ++ more) = t.readOn more := by
  rw [readOn, List.foldlM_append, h]
  rfl

theorem readOn_cons {s t : Lexer} {c : Char} (h : s.step c = some t) (more : List Char) :
    s.readOn (c :: more) = t.readOn more := by
  rw [readOn, List.foldlM_cons, h]
  rfl

/-! ### White space and punctuation -/

theorem foldlM_blank {blank : List Char} (h : ∀ c ∈ blank, isSpace c = true) (ts : List Token) :
    blank.foldlM step (between ts) = some (between ts) := by
  induction blank with
  | nil => rfl
  | cons c blank ih =>
    obtain ⟨hc, hblank⟩ := List.forall_mem_cons.mp h
    have hstep : step (between ts) c = some (between ts) := by
      show some (begin ts c) = _
      rw [begin, if_pos hc]
      rfl
    rw [List.foldlM_cons, hstep]
    exact ih hblank

theorem readOn_blank_append {blank : List Char} (h : ∀ c ∈ blank, isSpace c = true)
    (ts : List Token) (more : List Char) :
    (between ts).readOn (blank ++ more) = (between ts).readOn more :=
  readOn_append (foldlM_blank h ts) more

/-! ### Strings -/

/-- Inside a string, of which some characters have been read. -/
def inString (ts : List Token) (read : List Char) : Lexer :=
  ⟨.string read .outside, ts⟩

theorem foldlM_escape (ts : List Token) (read : List Char) (c : Char) :
    (escape c).foldlM step (inString ts read) = some (inString ts (c :: read)) := by
  unfold escape
  split_ifs with hquote hslash h8 h9 h10 h12 h13 hcontrol
  · rw [hquote]; rfl
  · rw [hslash]; rfl
  · rw [h8]; rfl
  · rw [h9]; rfl
  · rw [h10]; rfl
  · rw [h12]; rfl
  · rw [h13]; rfl
  · have hhigh : step ⟨.string read (.unit none 2 0), ts⟩ (Text.hexDigit (c.toNat / 16)) =
        some ⟨.string read (.unit none 1 (c.toNat / 16)), ts⟩ := by
      have hdigit := Text.hexDigit?_hexDigit ⟨c.toNat / 16, by omega⟩
      simp [step, Escape.step, hdigit]
    have hlow : step ⟨.string read (.unit none 1 (c.toNat / 16)), ts⟩
        (Text.hexDigit (c.toNat % 16)) = some (inString ts (c :: read)) := by
      have hdigit := Text.hexDigit?_hexDigit ⟨c.toNat % 16, by omega⟩
      have hcode : 16 * (c.toNat / 16) + c.toNat % 16 = c.toNat := by omega
      have hlead : ¬0xD800 ≤ c.toNat := by omega
      have htrail : ¬0xDC00 ≤ c.toNat := by omega
      simp [inString, step, Escape.step, Escape.ofUnit, hdigit, hcode, hlead, htrail]
    show [Text.hexDigit (c.toNat / 16), Text.hexDigit (c.toNat % 16)].foldlM step
      ⟨.string read (.unit none 2 0), ts⟩ = _
    rw [List.foldlM_cons, hhigh]
    show [Text.hexDigit (c.toNat % 16)].foldlM step _ = _
    rw [List.foldlM_cons, hlow]
    rfl
  · simp [inString, step, Escape.step, hquote, hslash, hcontrol]

theorem foldlM_flatMap_escape (ts : List Token) (read cs : List Char) :
    (cs.flatMap escape).foldlM step (inString ts read) =
      some (inString ts (cs.reverse ++ read)) := by
  induction cs generalizing read with
  | nil => rfl
  | cons c cs ih =>
    rw [List.flatMap_cons, List.foldlM_append, foldlM_escape]
    show (cs.flatMap escape).foldlM step (inString ts (c :: read)) = _
    rw [ih, List.reverse_cons, List.append_assoc]
    rfl

/-- A quoted text is one token. -/
theorem readOn_quoted_append (s : String) (ts : List Token) (more : List Char) :
    (between ts).readOn (quoted s ++ more) = (between (.string s :: ts)).readOn more := by
  refine readOn_append ?_ more
  show (s.toList.flatMap escape ++ ['\x22']).foldlM step (inString ts []) = _
  rw [List.foldlM_append, foldlM_flatMap_escape]
  show step (inString ts (s.toList.reverse ++ [])) '\x22' >>= pure = _
  simp [inString, step, between]

/-! ### Words -/

/-- What follows a word: nothing, or a character that ends it. -/
def EndsWord (more : List Char) : Prop :=
  ∀ c ∈ more.head?, endsWord c = true

theorem begin_of_not_endsWord {c : Char} (h : endsWord c = false) (ts : List Token) :
    begin ts c = ⟨.word [c], ts⟩ := by
  simp only [endsWord, Bool.or_eq_false_iff, Option.isSome_eq_false_iff, Option.isNone_iff_eq_none,
    beq_eq_false_iff_ne] at h
  obtain ⟨⟨hspace, hquote⟩, hpunctuation⟩ := h
  simp [begin, hspace, hquote, hpunctuation]

theorem foldlM_word {cs : List Char} (h : ∀ c ∈ cs, endsWord c = false) (ts : List Token)
    (read : List Char) :
    cs.foldlM step ⟨.word read, ts⟩ = some ⟨.word (cs.reverse ++ read), ts⟩ := by
  induction cs generalizing read with
  | nil => rfl
  | cons c cs ih =>
    obtain ⟨hc, hcs⟩ := List.forall_mem_cons.mp h
    have hstep : step ⟨.word read, ts⟩ c = some ⟨.word (c :: read), ts⟩ := by simp [step, hc]
    rw [List.foldlM_cons, hstep]
    show cs.foldlM step _ = _
    rw [ih hcs, List.reverse_cons, List.append_assoc]
    rfl

/-- A word is one token once it has come to its end. -/
theorem readOn_word_append {word : List Char} {v : Json} (hword : ∀ c ∈ word, endsWord c = false)
    (hv : ofWord? word = some v) (ts : List Token) {more : List Char} (hmore : EndsWord more) :
    (between ts).readOn (word ++ more) = (between (.word v :: ts)).readOn more := by
  cases word with
  | nil => cases hv
  | cons c cs =>
    obtain ⟨hc, hcs⟩ := List.forall_mem_cons.mp hword
    have hread : (c :: cs).foldlM step (between ts) = some ⟨.word (cs.reverse ++ [c]), ts⟩ := by
      have hstep : step (between ts) c = some ⟨.word [c], ts⟩ := by
        rw [← begin_of_not_endsWord hc]
        rfl
      rw [List.foldlM_cons, hstep]
      exact foldlM_word hcs ts [c]
    have hreverse : (cs.reverse ++ [c]).reverse = c :: cs := by simp
    rw [readOn_append hread]
    cases more with
    | nil => simp [readOn, finish, between, hreverse, hv]
    | cons d more =>
      have hd : endsWord d = true := hmore d rfl
      refine (readOn_cons (t := begin (.word v :: ts) d) ?_ more).trans (readOn_cons rfl more).symm
      simp [step, hd, hreverse, hv]

theorem endsWord_eq_false_of_isDigit {c : Char} (h : Decimal.isDigit c = true) :
    endsWord c = false := by
  have hne {d : Char} (hd : Decimal.isDigit d = false) : c ≠ d := by
    rintro rfl
    exact absurd h (by simp [hd])
  have hpunctuation : Token.ofPunctuation? c = none := by
    unfold Token.ofPunctuation?
    split <;> first | rfl | exact absurd rfl (hne (by decide))
  simp [endsWord, isSpace, hpunctuation, hne (d := ' ') (by decide), hne (d := '\t') (by decide),
    hne (d := '\n') (by decide), hne (d := '\r') (by decide), hne (d := '\x22') (by decide)]

theorem isNumber_digits (n : Nat) : isNumber (Decimal.digits n) = true := by
  rcases Decimal.digits_cases n with h | ⟨c, cs, h, hzero, hdigit⟩
  · rw [h]
    rfl
  · have hrest : cs.dropWhile Decimal.isDigit = [] := by
      refine List.dropWhile_eq_nil_iff.mpr fun d hd ↦ ?_
      exact Decimal.isDigit_of_mem_digits (n := n) (h ▸ List.mem_cons_of_mem c hd)
    have hminus : c ≠ '-' := by
      rintro rfl
      cases hdigit
    rw [h, isNumber.eq_2 _ fun _ heq ↦ hminus (List.cons.inj heq).1,
      isUnsignedNumber.eq_2 _ _ hzero, hdigit, hrest]
    rfl

theorem ofWord?_digits (n : Nat) :
    ofWord? (Decimal.digits n) = some (number (Decimal.text n)) := by
  have hword {c : Char} {cs : List Char} (h : Decimal.isDigit c = false) :
      Decimal.digits n ≠ c :: cs := by
    intro heq
    have hdigit : Decimal.isDigit c = true :=
      Decimal.isDigit_of_mem_digits (n := n) (heq ▸ List.mem_cons_self)
    exact absurd hdigit (by simp [h])
  rw [ofWord?, if_neg (hword rfl), if_neg (hword rfl), if_neg (hword rfl),
    if_pos (isNumber_digits n)]
  rfl

/-! ### Printed values -/

theorem endsWord_blank_append {blank : List Char} (h : ∀ c ∈ blank, isSpace c = true) {c : Char}
    (hc : endsWord c = true) (more : List Char) : EndsWord (blank ++ c :: more) := by
  cases blank with
  | nil => exact fun d hd ↦ Option.mem_some.mp hd ▸ hc
  | cons b blank =>
    have hb : endsWord b = true := by simp [endsWord, h b List.mem_cons_self]
    exact fun d hd ↦ Option.mem_some.mp hd ▸ hb

variable {l : Layout}

/-- A value is read back as its tokens when it is printed with this layout. -/
def ReadsBack (l : Layout) (v : Json) : Prop :=
  ∀ depth ts more, EndsWord more →
    (between ts).readOn (print l depth v ++ more) =
      (between ((tokensOf v).reverse ++ ts)).readOn more

theorem readOn_printItems (hl : l.IsBlank) {vs : List Json} (h : ∀ v ∈ vs, ReadsBack l v)
    (depth : Nat) (ts : List Token) {blank : List Char} (hblank : ∀ c ∈ blank, isSpace c = true)
    (more : List Char) :
    EndsWord (printItems l depth vs ++ (blank ++ ']' :: more)) ∧
      (between ts).readOn (printItems l depth vs ++ (blank ++ ']' :: more)) =
        (between ((tokensOfItems vs).reverse ++ ts)).readOn more := by
  induction vs generalizing ts with
  | nil =>
    refine ⟨endsWord_blank_append hblank rfl more, ?_⟩
    exact (readOn_blank_append hblank ts _).trans (readOn_cons rfl more)
  | cons v vs ih =>
    obtain ⟨hv, hvs⟩ := List.forall_mem_cons.mp h
    refine ⟨fun d hd ↦ Option.mem_some.mp hd ▸ rfl, ?_⟩
    obtain ⟨hends, hread⟩ := ih hvs ((tokensOf v).reverse ++ .comma :: ts)
    calc (between ts).readOn (printItems l depth (v :: vs) ++ (blank ++ ']' :: more))
        = (between ts).readOn (',' :: (l.lead depth ++ (print l depth v ++
            (printItems l depth vs ++ (blank ++ ']' :: more))))) := by simp [printItems]
      _ = (between (.comma :: ts)).readOn (l.lead depth ++ (print l depth v ++
            (printItems l depth vs ++ (blank ++ ']' :: more)))) := readOn_cons rfl _
      _ = (between (.comma :: ts)).readOn (print l depth v ++
            (printItems l depth vs ++ (blank ++ ']' :: more))) :=
          readOn_blank_append (hl.lead depth) _ _
      _ = (between ((tokensOf v).reverse ++ .comma :: ts)).readOn
            (printItems l depth vs ++ (blank ++ ']' :: more)) := hv depth _ _ hends
      _ = (between ((tokensOfItems (v :: vs)).reverse ++ ts)).readOn more := by
          rw [hread]
          simp [tokensOfItems]

theorem readOn_member (hl : l.IsBlank) {v : Json} (h : ReadsBack l v) (name : String)
    (depth : Nat) (ts : List Token) {more : List Char} (hmore : EndsWord more) :
    (between ts).readOn (quoted name ++ (l.colon ++ (print l depth v ++ more))) =
      (between ((tokensOf v).reverse ++ .colon :: .string name :: ts)).readOn more := by
  obtain ⟨blank, hcolon, hblank⟩ := hl.colon
  rw [readOn_quoted_append, hcolon]
  refine (readOn_cons (t := between (.colon :: .string name :: ts)) rfl _).trans ?_
  exact (readOn_blank_append hblank _ _).trans (h depth _ _ hmore)

theorem readOn_printMembers (hl : l.IsBlank) {ms : List (String × Json)}
    (h : ∀ m ∈ ms, ReadsBack l m.2) (depth : Nat) (ts : List Token) {blank : List Char}
    (hblank : ∀ c ∈ blank, isSpace c = true) (more : List Char) :
    EndsWord (printMembers l depth ms ++ (blank ++ '\x7d' :: more)) ∧
      (between ts).readOn (printMembers l depth ms ++ (blank ++ '\x7d' :: more)) =
        (between ((tokensOfMembers ms).reverse ++ ts)).readOn more := by
  induction ms generalizing ts with
  | nil =>
    refine ⟨endsWord_blank_append hblank rfl more, ?_⟩
    exact (readOn_blank_append hblank ts _).trans (readOn_cons rfl more)
  | cons m ms ih =>
    obtain ⟨name, v⟩ := m
    obtain ⟨hv, hms⟩ := List.forall_mem_cons.mp h
    refine ⟨fun d hd ↦ Option.mem_some.mp hd ▸ rfl, ?_⟩
    obtain ⟨hends, hread⟩ := ih hms ((tokensOf v).reverse ++ .colon :: .string name :: .comma :: ts)
    calc (between ts).readOn (printMembers l depth ((name, v) :: ms) ++ (blank ++ '\x7d' :: more))
        = (between ts).readOn (',' :: (l.lead depth ++ (quoted name ++ (l.colon ++
            (print l depth v ++ (printMembers l depth ms ++ (blank ++ '\x7d' :: more))))))) := by
          simp [printMembers]
      _ = (between (.comma :: ts)).readOn (l.lead depth ++ (quoted name ++ (l.colon ++
            (print l depth v ++ (printMembers l depth ms ++ (blank ++ '\x7d' :: more)))))) :=
          readOn_cons rfl _
      _ = (between (.comma :: ts)).readOn (quoted name ++ (l.colon ++
            (print l depth v ++ (printMembers l depth ms ++ (blank ++ '\x7d' :: more))))) :=
          readOn_blank_append (hl.lead depth) _ _
      _ = (between ((tokensOf v).reverse ++ .colon :: .string name :: .comma :: ts)).readOn
            (printMembers l depth ms ++ (blank ++ '\x7d' :: more)) :=
          readOn_member hl hv name depth _ hends
      _ = (between ((tokensOfMembers ((name, v) :: ms)).reverse ++ ts)).readOn more := by
          rw [hread]
          simp [tokensOfMembers]

theorem readsBack_word {word : List Char} {v : Json} (hprint : ∀ depth, print l depth v = word)
    (htokens : tokensOf v = [.word v]) (hword : ∀ c ∈ word, endsWord c = false)
    (hv : ofWord? word = some v) : ReadsBack l v := by
  intro depth ts more hmore
  rw [hprint, htokens]
  exact readOn_word_append hword hv ts hmore

theorem readsBack_array (hl : l.IsBlank) {items : List Json} (h : ∀ v ∈ items, ReadsBack l v) :
    ReadsBack l (.array items) := by
  intro depth ts more _
  cases items with
  | nil => exact (readOn_cons rfl _).trans (readOn_cons rfl more)
  | cons v vs =>
    obtain ⟨hv, hvs⟩ := List.forall_mem_cons.mp h
    obtain ⟨hends, hread⟩ := readOn_printItems hl hvs (depth + 1)
      ((tokensOf v).reverse ++ .openArray :: ts) (hl.lead depth) more
    calc (between ts).readOn (print l depth (.array (v :: vs)) ++ more)
        = (between ts).readOn ('[' :: (l.lead (depth + 1) ++ (print l (depth + 1) v ++
            (printItems l (depth + 1) vs ++ (l.lead depth ++ ']' :: more))))) := by simp [print]
      _ = (between (.openArray :: ts)).readOn (print l (depth + 1) v ++
            (printItems l (depth + 1) vs ++ (l.lead depth ++ ']' :: more))) :=
          (readOn_cons rfl _).trans (readOn_blank_append (hl.lead (depth + 1)) _ _)
      _ = (between ((tokensOf v).reverse ++ .openArray :: ts)).readOn
            (printItems l (depth + 1) vs ++ (l.lead depth ++ ']' :: more)) :=
          hv (depth + 1) _ _ hends
      _ = (between ((tokensOf (.array (v :: vs))).reverse ++ ts)).readOn more := by
          rw [hread]
          simp [tokensOf]

theorem readsBack_object (hl : l.IsBlank) {members : List (String × Json)}
    (h : ∀ m ∈ members, ReadsBack l m.2) : ReadsBack l (.object members) := by
  intro depth ts more _
  cases members with
  | nil => exact (readOn_cons rfl _).trans (readOn_cons rfl more)
  | cons m ms =>
    obtain ⟨name, v⟩ := m
    obtain ⟨hv, hms⟩ := List.forall_mem_cons.mp h
    obtain ⟨hends, hread⟩ := readOn_printMembers hl hms (depth + 1)
      ((tokensOf v).reverse ++ .colon :: .string name :: .openObject :: ts) (hl.lead depth) more
    calc (between ts).readOn (print l depth (.object ((name, v) :: ms)) ++ more)
        = (between ts).readOn ('\x7b' :: (l.lead (depth + 1) ++ (quoted name ++ (l.colon ++
            (print l (depth + 1) v ++
              (printMembers l (depth + 1) ms ++ (l.lead depth ++ '\x7d' :: more))))))) := by
          simp [print]
      _ = (between (.openObject :: ts)).readOn (quoted name ++ (l.colon ++
            (print l (depth + 1) v ++
              (printMembers l (depth + 1) ms ++ (l.lead depth ++ '\x7d' :: more))))) :=
          (readOn_cons rfl _).trans (readOn_blank_append (hl.lead (depth + 1)) _ _)
      _ = (between ((tokensOf v).reverse ++ .colon :: .string name :: .openObject :: ts)).readOn
            (printMembers l (depth + 1) ms ++ (l.lead depth ++ '\x7d' :: more)) :=
          readOn_member hl hv name (depth + 1) _ hends
      _ = (between ((tokensOf (.object ((name, v) :: ms))).reverse ++ ts)).readOn more := by
          rw [hread]
          simp [tokensOf]

theorem readsBack_of_legible (hl : l.IsBlank) {v : Json} (h : v.Legible) : ReadsBack l v := by
  have hword {word : List Char} (h : word.all (!endsWord ·) = true) :
      ∀ c ∈ word, endsWord c = false := by
    simpa using h
  induction h with
  | null => exact readsBack_word (fun _ ↦ rfl) rfl (hword rfl) rfl
  | bool b =>
    cases b with
    | true => exact readsBack_word (fun _ ↦ rfl) rfl (hword rfl) rfl
    | false => exact readsBack_word (fun _ ↦ rfl) rfl (hword rfl) rfl
  | number n =>
    have hprint (depth : Nat) : print l depth (.number (Decimal.text n)) = Decimal.digits n :=
      String.toList_ofList
    exact readsBack_word hprint rfl
      (fun c hc ↦ endsWord_eq_false_of_isDigit (Decimal.isDigit_of_mem_digits hc))
      (ofWord?_digits n)
  | string s => exact fun depth ts more _ ↦ readOn_quoted_append s ts more
  | array _ ih => exact readsBack_array hl ih
  | object _ ih => exact readsBack_object hl ih

end Lexer

/-- The text of a value consists of its tokens. -/
theorem tokens?_print {l : Layout} (hl : l.IsBlank) {v : Json} (h : v.Legible) (depth : Nat) :
    tokens? (print l depth v) = some (tokensOf v) := by
  have hends : Lexer.EndsWord [] := fun c hc ↦ nomatch hc
  have hread := Lexer.readsBack_of_legible hl h depth [] [] hends
  rw [List.append_nil, List.append_nil] at hread
  calc tokens? (print l depth v)
      = (Lexer.between (tokensOf v).reverse).readOn [] := hread
    _ = some (tokensOf v) := by simp [Lexer.readOn, Lexer.between, Lexer.finish]

end ShutdownLint.Json

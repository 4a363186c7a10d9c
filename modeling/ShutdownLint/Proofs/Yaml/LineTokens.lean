import ShutdownLint.Proofs.Yaml.BlockLines
/-!
The tokens of lines. What is left of a text, the open collections and the tokens so far decide what
the text is cut into; the place in the text matters by its column only. Each step of the lexer is
one rule about this, a line takes a few of them, and lines are read one after another.
-/

set_option autoImplicit false

namespace ShutdownLint.Yaml.Lexer

/-! ### Success -/

/-- The text that is left is cut without a fault. -/
def Reads (s : Lexer) (ts : List Token) : Prop :=
  s.run = ⟨ts, none⟩

theorem reads_iff {s : Lexer} {ts : List Token} : s.Reads ts ↔ ∃ t, s.toToken = .ok t ∧
    ((t.cursor.rest = [] ∧ ∃ u, t.close = .ok u ∧ u.tokens.reverse = ts) ∨
      ∃ c r u, t.cursor.rest = c :: r ∧ t.fetch c r = .ok u ∧ u.Reads ts) := by
  unfold Reads
  rw [run]
  split
  · rename_i e ht
    simp [ht]
  · rename_i t ht
    split
    · rename_i hr
      cases hclose : t.close <;> simp [ht, hr, hclose]
    · rename_i c r hr
      split
      · rename_i e hf
        simp [ht, hr]
        grind
      · rename_i u hf
        simp [ht, hr]
        grind

theorem reads_of_fetch {s t u : Lexer} {c : Char} {r : List Char} {ts : List Token}
    (ht : s.toToken = .ok t) (hr : t.cursor.rest = c :: r) (hf : t.fetch c r = .ok u)
    (h : u.Reads ts) : s.Reads ts :=
  reads_iff.mpr ⟨t, ht, .inr ⟨c, r, u, hr, hf, h⟩⟩

theorem reads_congr {s t : Lexer} {ts : List Token} (h : s.toToken = t.toToken) :
    s.Reads ts ↔ t.Reads ts := by
  rw [reads_iff, reads_iff, h]

/-! ### Between lines -/

/-- A lexer outside flow collections that holds no possible key. -/
def idle (keyAllowed : Bool) (rest : List Char) (p : Position) (blocks : List Nat)
    (tokens : List Token) : Lexer :=
  { cursor := ⟨rest, p⟩, tokens, blocks, keyAllowed }

theorem toToken_idle {keyAllowed after : Bool} {rest left : List Char} {p q : Position}
    (h : gap false rest p keyAllowed false = (⟨left, q⟩, after)) (blocks : List Nat)
    (tokens : List Token) : (idle keyAllowed rest p blocks tokens).toToken =
      .ok (idle after left q (closedBlocks q.column blocks tokens).1
        (closedBlocks q.column blocks tokens).2) := by
  have hgap : gap (idle keyAllowed rest p blocks tokens).inFlow
      (idle keyAllowed rest p blocks tokens).cursor.rest
      (idle keyAllowed rest p blocks tokens).cursor.position
      (idle keyAllowed rest p blocks tokens).keyAllowed false = (⟨left, q⟩, after) := h
  unfold toToken
  rw [hgap]
  rfl

theorem reads_idle_of_gap {keyAllowed after : Bool} {rest left : List Char} {p q : Position}
    (h : gap false rest p keyAllowed false = gap false left q after false) {blocks : List Nat}
    {tokens ts : List Token} (hread : (idle after left q blocks tokens).Reads ts) :
    (idle keyAllowed rest p blocks tokens).Reads ts := by
  refine (reads_congr ?_).mpr hread
  rw [toToken_idle (h.trans rfl), toToken_idle rfl]

/-! ### Open collections -/

/-- The innermost open collection begins at a column or before it. -/
def Encloses (blocks : List Nat) (column : Nat) : Prop :=
  ∀ b ∈ blocks.head?, b ≤ column

theorem encloses_closedBlocks (column : Nat) (blocks : List Nat) (tokens : List Token) :
    Encloses (closedBlocks column blocks tokens).1 column := by
  induction blocks generalizing tokens with
  | nil => exact fun _ h ↦ nomatch h
  | cons b blocks ih =>
    unfold closedBlocks
    split_ifs with hb
    · exact ih _
    · rintro _ ⟨⟩
      exact Nat.le_of_not_lt hb

theorem closedBlocks_of_encloses {column : Nat} {blocks : List Nat} (h : Encloses blocks column)
    (tokens : List Token) : closedBlocks column blocks tokens = (blocks, tokens) := by
  cases blocks with
  | nil => rfl
  | cons b blocks => exact if_neg (Nat.not_lt.mpr (h b rfl))

theorem closeBlocks_of_encloses {s : Lexer} {column : Nat} (h : Encloses s.blocks column) :
    s.closeBlocks column = s := by
  unfold closeBlocks
  rw [closedBlocks_of_encloses h]
  exact ite_self s

/-- A token begins right here, and no key and no collection ends in front of it. -/
theorem toToken_eq_self {s : Lexer} {c : Char} {r : List Char} (hrest : s.cursor.rest = c :: r)
    (hc : beginsToken c = true) (hkeys : s.expireKeys = .ok s)
    (hblocks : Encloses s.blocks s.cursor.position.column) : s.toToken = .ok s := by
  have hgap : gap s.inFlow s.cursor.rest s.cursor.position s.keyAllowed false =
      (s.cursor, s.keyAllowed) := by
    rw [hrest, gap_cons hc, ← hrest]
  unfold toToken
  rw [hgap]
  dsimp only
  rw [hkeys]
  exact congrArg Except.ok (closeBlocks_of_encloses hblocks)

theorem replicate_closedBlocks (column : Nat) (blocks : List Nat) (tokens : List Token) :
    List.replicate (closedBlocks column blocks tokens).1.length Token.blockEnd ++
        (closedBlocks column blocks tokens).2 =
      List.replicate blocks.length Token.blockEnd ++ tokens := by
  induction blocks generalizing tokens with
  | nil => rfl
  | cons b blocks ih =>
    unfold closedBlocks
    split_ifs with hb
    · rw [ih, List.length_cons, List.replicate_succ', List.append_assoc]
      rfl
    · rfl

theorem head?_opened {column : Nat} {blocks : List Nat} (h : Encloses blocks column) (start : Token)
    (tokens : List Token) : (Line.opened column start blocks tokens).1.head? = some column := by
  unfold Line.opened
  cases blocks with
  | nil => rfl
  | cons b blocks =>
    have hb : b ≤ column := h b rfl
    by_cases hlt : b < column
    · rw [if_pos (by simpa using hlt)]
      rfl
    · rw [if_neg (by simpa using hlt)]
      exact congrArg some (Nat.le_antisymm hb (Nat.le_of_not_lt hlt))

theorem insertIdx_length_append {α : Type} (front back : List α) (a : α) :
    (front ++ back).insertIdx front.length a = front ++ a :: back := by
  induction front with
  | nil => rfl
  | cons b front ih => exact congrArg (b :: ·) ih

/-- A token is put in front of those that were added since a possible key began. -/
theorem insertToken_eq {s : Lexer} (front tokens : List Token) (h : s.tokens = front ++ tokens)
    (t : Token) : s.insertToken tokens.length t = { s with tokens := front ++ t :: tokens } := by
  rw [insertToken, h, List.length_append, Nat.add_sub_cancel, insertIdx_length_append]

theorem openBlock_eq {s : Lexer} (front tokens : List Token) (hflow : s.inFlow = false)
    (h : s.tokens = front ++ tokens) (column : Nat) (start : Token) :
    s.openBlock column tokens.length start =
      { s with
        blocks := (Line.opened column start s.blocks tokens).1
        tokens := front ++ (Line.opened column start s.blocks tokens).2 } := by
  have hmargin : s.margin ≤ column ↔ s.blocks.head?.all (· < column) = true := by
    unfold margin
    cases s.blocks with
    | nil => simp
    | cons b blocks => exact Nat.succ_le_iff.trans (by simp)
  unfold Line.opened openBlock
  by_cases hopen : s.blocks.head?.all (· < column) = true
  · rw [if_pos hopen, if_pos (by simpa [hflow] using hmargin.mpr hopen),
      insertToken_eq front tokens h]
  · rw [if_neg hopen, if_neg (by simpa [hflow] using mt hmargin.mp hopen), ← h]

/-! ### Words -/

theorem lead_of_isAlphanum {c : Char} (h : c.isAlphanum = true) (inFlow : Bool) (column : Nat)
    (r : List Char) : lead inFlow column c r = .plain := by
  have hne {d : Char} (hd : d.isAlphanum = false) : c ≠ d := ne_of_kind h hd
  unfold lead
  split
  all_goals first | exact absurd rfl (hne rfl) | skip
  rw [if_neg]
  simp [isBlank, isBreak, isIndicator, isFlowIndicator, hne]

/-- A word behind a colon, where no key may begin. -/
theorem fetch_word {c : Char} (hc : c.isAlphanum = true) {r : List Char} {p : Position}
    {blocks : List Nat} {tokens : List Token} {t : PlainText}
    (h : plainText false (idle false (c :: r) p blocks tokens).margin r (p.right 1) [c] .nothing =
      .ok t) :
    (idle false (c :: r) p blocks tokens).fetch c r =
      .ok (idle t.endsLine t.cursor.rest t.cursor.position blocks
        (.scalar (String.ofList t.text.reverse) true :: tokens)) := by
  simp only [fetch, lead_of_isAlphanum hc]
  show (plainText false (idle false (c :: r) p blocks tokens).margin r (p.right 1) [c] .nothing
    >>= _) = _
  rw [h]
  rfl

/-- The lexer behind a word that may be a key. -/
def behindKey (rest : List Char) (p start : Position) (blocks : List Nat) (key : String)
    (tokens : List Token) : Lexer :=
  { cursor := ⟨rest, p⟩, tokens := .scalar key true :: tokens, blocks, keyAllowed := false,
    key := some ⟨(idle true [] start blocks tokens).margin == start.column + 1, tokens.length,
      start⟩ }

theorem fetch_key {c : Char} (hc : c.isAlphanum = true) {r : List Char} {p : Position}
    (blocks : List Nat) (tokens : List Token) {t : PlainText}
    (h : plainText false (idle true (c :: r) p blocks tokens).margin r (p.right 1) [c] .nothing =
      .ok t) (hends : t.endsLine = false) :
    (idle true (c :: r) p blocks tokens).fetch c r =
      .ok (behindKey t.cursor.rest t.cursor.position p blocks (String.ofList t.text.reverse)
        tokens) := by
  simp only [fetch, lead_of_isAlphanum hc]
  show (plainText false (idle true (c :: r) p blocks tokens).margin r (p.right 1) [c] .nothing
    >>= _) = _
  rw [h, behindKey, ← hends]
  rfl

theorem toToken_behindKey {r : List Char} {p : Position} {n : Nat} {blocks : List Nat}
    (key : String) (tokens : List Token) (hn : n ≤ 1024) (hblocks : Encloses blocks p.column) :
    (behindKey (':' :: r) (p.right n) p blocks key tokens).toToken =
      .ok (behindKey (':' :: r) (p.right n) p blocks key tokens) := by
  have hstale (required : Bool) (number : Nat) :
      SimpleKey.isStale ⟨required, number, p⟩ (p.right n) = false := by
    simp [SimpleKey.isStale, Position.right, hn]
  have hkeys : expireKeys (behindKey (':' :: r) (p.right n) p blocks key tokens) =
      .ok (behindKey (':' :: r) (p.right n) p blocks key tokens) := by
    simp only [expireKeys, behindKey, SimpleKey.refresh, hstale]
    rfl
  exact toToken_eq_self rfl rfl hkeys fun b hb ↦ Nat.le_trans (hblocks b hb) (Nat.le_add_right _ _)

theorem fetch_colon {r : List Char} (hr : atBoundary r = true) (q p : Position) (blocks : List Nat)
    (key : String) (tokens : List Token) :
    (behindKey (':' :: r) q p blocks key tokens).fetch ':' r =
      .ok (idle false r (q.right 1) (Line.opened p.column .blockMappingStart blocks tokens).1
        (.value :: .scalar key true :: .key ::
          (Line.opened p.column .blockMappingStart blocks tokens).2)) := by
  simp only [fetch, lead, hr, Bool.or_true, if_true]
  show Except.ok (emit { openBlock (insertToken _ tokens.length .key) p.column tokens.length
    .blockMappingStart with key := none, keyAllowed := false } .value ⟨r, q.right 1⟩) = _
  rw [insertToken_eq [.scalar key true] tokens rfl,
    openBlock_eq [.scalar key true, .key] tokens rfl rfl]
  rfl

/-! ### Parts of lines -/

section

variable {blocks : List Nat} {tokens ts : List Token} {p : Position}

/-- The collections that are deeper than the next token are closed first. -/
theorem reads_of_closedBlocks {rest : List Char}
    (hrest : rest = [] ∨ ∃ c r, rest = c :: r ∧ beginsToken c = true)
    (h : (idle true rest p (closedBlocks p.column blocks tokens).1
      (closedBlocks p.column blocks tokens).2).Reads ts) :
    (idle true rest p blocks tokens).Reads ts := by
  have hgap : gap false rest p true false = (⟨rest, p⟩, true) := by
    rcases hrest with rfl | ⟨c, r, rfl, hc⟩
    · rfl
    · exact gap_cons hc ..
  refine (reads_congr ?_).mpr h
  rw [toToken_idle hgap, toToken_idle hgap,
    closedBlocks_of_encloses (encloses_closedBlocks p.column blocks tokens)]

theorem reads_key (w : Word) (hfits : w.text.toList.length ≤ 1024) {rest : List Char}
    (hrest : atBoundary rest = true) (hblocks : Encloses blocks p.column)
    (h : (idle false rest ((p.right w.text.toList.length).right 1)
      (Line.opened p.column .blockMappingStart blocks tokens).1
      (.value :: .scalar w.text true :: .key ::
        (Line.opened p.column .blockMappingStart blocks tokens).2)).Reads ts) :
    (idle true (w.text.toList ++ ':' :: rest) p blocks tokens).Reads ts := by
  obtain ⟨c, cs, hw, hc⟩ := w.exists_cons
  have htext : String.ofList w.text.toList.reverse.reverse = w.text := by
    rw [List.reverse_reverse, String.ofList_toList]
  have hkey := fetch_key hc blocks tokens
    (plainText_key w hw hrest _ p) rfl
  rw [htext] at hkey
  rw [hw, List.cons_append]
  refine reads_of_fetch (toToken_eq_self rfl (beginsToken_of_isAlphanum hc) rfl hblocks) rfl hkey ?_
  exact reads_of_fetch (toToken_behindKey w.text tokens hfits hblocks) rfl
    (fetch_colon hrest ..) h

theorem reads_break (ls : List Line)
    (h : ∀ q : Position, q.column = Lines.column ls →
      (idle true (Lines.tail ls) q blocks tokens).Reads ts) :
    (idle false ('\n' :: Lines.chars ls) p blocks tokens).Reads ts := by
  refine reads_idle_of_gap ?_ (h ((p.down 1).right (Lines.column ls)) (Nat.zero_add _))
  show gap false (Lines.chars ls) (p.down 1) true false = _
  rw [gap_chars, gap_tail]

theorem encloses_of_head? {k column : Nat} (h : blocks.head? = some k) (hk : k ≤ column) :
    Encloses blocks column := by
  intro b hb
  obtain rfl : k = b := Option.some.inj (h.symm.trans hb)
  exact hk

/-- A blank in front of a token counts for nothing. -/
theorem reads_blank {keyAllowed : Bool} {rest : List Char}
    (h : (idle keyAllowed rest (p.right 1) blocks tokens).Reads ts) :
    (idle keyAllowed (' ' :: rest) p blocks tokens).Reads ts :=
  reads_idle_of_gap (gap_blanks_append 1 rest false keyAllowed p) h

theorem reads_word (w : Word) (ls : List Line) {k : Nat} (hblocks : blocks.head? = some k)
    (hcolumn : k ≤ p.column) (hls : Lines.column ls ≤ k)
    (h : ∀ q : Position, q.column = Lines.column ls →
      (idle true (Lines.tail ls) q blocks (.scalar w.text true :: tokens)).Reads ts) :
    (idle false (' ' :: (w.text.toList ++ '\n' :: Lines.chars ls)) p blocks tokens).Reads ts := by
  obtain ⟨c, cs, hw, hc⟩ := w.exists_cons
  obtain ⟨q, hq, htext⟩ := plainText_word w hw (Nat.lt_succ_of_le hls) ((p.right 1).right 1)
  have hmargin (s : Lexer) (hs : s.blocks = blocks) : s.margin = k.succ := by
    rw [margin, hs]
    cases blocks with
    | nil => cases hblocks
    | cons b blocks => exact congrArg Nat.succ (Option.some.inj hblocks)
  have henclosed : Encloses blocks (p.right 1).column :=
    encloses_of_head? hblocks (Nat.le_succ_of_le hcolumn)
  rw [← hmargin (idle false (c :: (cs ++ '\n' :: Lines.chars ls)) (p.right 1) blocks tokens) rfl]
    at htext
  rw [hw, List.cons_append]
  refine reads_blank (reads_of_fetch
    (toToken_eq_self rfl (beginsToken_of_isAlphanum hc) rfl henclosed) rfl (fetch_word hc htext) ?_)
  rw [List.reverse_reverse, String.ofList_toList]
  exact h q hq

theorem reads_emptyList (ls : List Line) {k : Nat} (hblocks : blocks.head? = some k)
    (hcolumn : k ≤ p.column)
    (h : ∀ q : Position, q.column = Lines.column ls →
      (idle true (Lines.tail ls) q blocks (.flowSequenceEnd :: .flowSequenceStart :: tokens)).Reads
        ts) :
    (idle false (' ' :: '[' :: ']' :: '\n' :: Lines.chars ls) p blocks tokens).Reads ts := by
  have henclosed (n : Nat) : Encloses blocks (p.right n).column :=
    encloses_of_head? hblocks (Nat.le_add_right_of_le hcolumn)
  refine reads_blank (reads_of_fetch (toToken_eq_self rfl rfl rfl (henclosed 1)) rfl rfl ?_)
  refine reads_of_fetch (toToken_eq_self rfl rfl rfl (henclosed 2)) rfl rfl ?_
  exact reads_break ls h

theorem reads_entry {rest : List Char} (hblocks : Encloses blocks p.column)
    (h : (idle true rest (p.right 2) (Line.opened p.column .blockSequenceStart blocks tokens).1
      (.blockEntry :: (Line.opened p.column .blockSequenceStart blocks tokens).2)).Reads ts) :
    (idle true ('-' :: ' ' :: rest) p blocks tokens).Reads ts := by
  rw [← Position.right_right p 1 1] at h
  refine reads_of_fetch (toToken_eq_self rfl rfl rfl hblocks) rfl ?_ (reads_blank h)
  show (do
    let s ← dropKey (openBlock (idle true ('-' :: ' ' :: rest) p blocks tokens) p.column
      tokens.length .blockSequenceStart)
    return emit { s with keyAllowed := true } .blockEntry ⟨' ' :: rest, p.right 1⟩) = _
  rw [openBlock_eq [] tokens rfl rfl]
  rfl

/-! ### Lines -/

theorem reads_value (v : LineValue) (ls : List Line) {k : Nat} (hblocks : blocks.head? = some k)
    (hcolumn : k ≤ p.column) (hls : ∀ w, v = .word w → Lines.column ls ≤ k)
    (h : ∀ q : Position, q.column = Lines.column ls →
      (idle true (Lines.tail ls) q blocks (v.tokens ++ tokens)).Reads ts) :
    (idle false (v.chars ++ '\n' :: Lines.chars ls) p blocks tokens).Reads ts := by
  cases v with
  | word w => exact reads_word w ls hblocks hcolumn (hls w rfl) h
  | emptyList => exact reads_emptyList ls hblocks hcolumn h
  | nothing => exact reads_break ls h

/-- The entry of a line, behind the hyphen if the line has one. -/
theorem reads_keyed (l : Line) (ls : List Line) (hcolumn : p.column = l.keyColumn)
    (hblocks : Encloses blocks l.keyColumn)
    (hls : ∀ w, l.value = .word w → Lines.column ls ≤ l.keyColumn)
    (h : ∀ q : Position, q.column = Lines.column ls →
      (idle true (Lines.tail ls) q (Line.opened l.keyColumn .blockMappingStart blocks tokens).1
        (l.value.tokens ++ .value :: .scalar l.key.text true :: .key ::
          (Line.opened l.keyColumn .blockMappingStart blocks tokens).2)).Reads ts) :
    (idle true (l.key.text.toList ++ ':' :: (l.value.chars ++ '\n' :: Lines.chars ls)) p blocks
      tokens).Reads ts := by
  have hboundary : atBoundary (l.value.chars ++ '\n' :: Lines.chars ls) = true := by
    cases l.value <;> rfl
  rw [← hcolumn] at hblocks hls h
  refine reads_key l.key l.fits hboundary hblocks ?_
  exact reads_value l.value ls (head?_opened hblocks ..) (by simp [Position.right]; omega) hls h

/-- What a line does to the open collections and the tokens. -/
theorem reads_line (l : Line) (ls : List Line) (hcolumn : p.column = l.column)
    (hls : ∀ w, l.value = .word w → Lines.column ls ≤ l.keyColumn)
    (h : ∀ q : Position, q.column = Lines.column ls →
      (idle true (Lines.tail ls) q (Line.advance (blocks, tokens) l).1
        (Line.advance (blocks, tokens) l).2).Reads ts) :
    (idle true (Lines.tail (l :: ls)) p blocks tokens).Reads ts := by
  have hbegins := (Lines.tail_cases (l :: ls)).imp_left And.left
  refine reads_of_closedBlocks hbegins ?_
  have hblocks := encloses_closedBlocks p.column blocks tokens
  unfold Line.advance at h
  rw [← hcolumn] at h
  generalize closedBlocks p.column blocks tokens = closed at hblocks h ⊢
  obtain ⟨blocks, tokens⟩ := closed
  cases hitem : l.isItem with
  | false =>
    have hkey : l.keyColumn = p.column := by
      rw [Line.keyColumn, hitem, hcolumn]
      rfl
    have htail : Lines.tail (l :: ls) =
        l.key.text.toList ++ ':' :: (l.value.chars ++ '\n' :: Lines.chars ls) := by
      simp [Lines.tail, Line.chars, hitem]
    rw [hitem] at h
    rw [htail]
    rw [← hkey] at hblocks
    exact reads_keyed l ls hkey.symm hblocks hls h
  | true =>
    have hkey : l.keyColumn = p.column + 2 := by
      rw [Line.keyColumn, hitem, hcolumn]
      rfl
    have htail : Lines.tail (l :: ls) =
        '-' :: ' ' :: (l.key.text.toList ++ ':' :: (l.value.chars ++ '\n' :: Lines.chars ls)) := by
      simp [Lines.tail, Line.chars, hitem]
    rw [hitem] at h
    rw [htail]
    refine reads_entry hblocks (reads_keyed l ls hkey.symm ?_ hls h)
    exact encloses_of_head? (head?_opened hblocks ..) (hkey ▸ Nat.le_add_right _ _)

theorem reads_lines (ls : List Line) (hls : Lines.WellIndented ls) (hp : p.column = Lines.column ls)
    (s : List Nat × List Token) :
    (idle true (Lines.tail ls) p s.1 s.2).Reads
      (List.replicate (ls.foldl Line.advance s).1.length Token.blockEnd ++
        (ls.foldl Line.advance s).2).reverse := by
  induction ls generalizing p s with
  | nil =>
    refine reads_iff.mpr ⟨_, toToken_idle rfl .., .inl ⟨rfl, _, rfl, ?_⟩⟩
    exact congrArg List.reverse (replicate_closedBlocks p.column s.1 s.2)
  | cons l ls ih =>
    refine reads_line l ls hp (fun w hw ↦ ?_) fun q hq ↦ ih hls.2 hq (Line.advance s l)
    have hword := hls.1
    rwa [hw] at hword

end

/-- Lines are cut into their tokens. -/
theorem run_lines {ls : List Line} (h : Lines.WellIndented ls) :
    run { cursor := ⟨Lines.chars ls, {}⟩ } = ⟨Lines.tokens ls, none⟩ := by
  refine reads_idle_of_gap ?_
    (reads_lines ls h (p := Position.right {} (Lines.column ls)) (Nat.zero_add _) ([], []))
  rw [gap_chars, gap_tail]

end ShutdownLint.Yaml.Lexer

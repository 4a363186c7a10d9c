import ShutdownLint.Proofs.Text.LinePieces
import ShutdownLint.Text.Utf8
import Mathlib.Tactic.SplitIfs
/-!
Lines of bytes and lines of text.

A line feed is a byte of its own wherever it stands: no character that has been begun goes on with
it, and no other bytes spell one. So decoding bytes with malformed pieces replaced and cutting them
into lines may change places. What carries this is that every character that has been begun is going
to be none of the first 128 (`Partial.Sound`).
-/

set_option autoImplicit false

namespace ShutdownLint.Text.Utf8

variable {b : UInt8} {bytes rest : List UInt8} {begun : Option Partial} {p : Partial}

/-! ### Characters that have been begun -/

/-- What the first of two to four bytes begins. -/
inductive Begins (n : Nat) : Partial → Prop
  | two (h : 0xC2 ≤ n ∧ n < 0xE0) : Begins n ⟨1, 0x80, 0xBF, n - 0xC0⟩
  | threeLeast (h : n = 0xE0) : Begins n ⟨2, 0xA0, 0xBF, 0⟩
  | threeInFront (h : n = 0xED) : Begins n ⟨2, 0x80, 0x9F, 0xD⟩
  | three (h : 0xE0 < n ∧ n < 0xF0) : Begins n ⟨2, 0x80, 0xBF, n - 0xE0⟩
  | fourLeast (h : n = 0xF0) : Begins n ⟨3, 0x90, 0xBF, 0⟩
  | four (h : 0xF0 < n ∧ n < 0xF4) : Begins n ⟨3, 0x80, 0xBF, n - 0xF0⟩
  | fourGreatest (h : n = 0xF4) : Begins n ⟨3, 0x80, 0x8F, 4⟩

/-- What a byte says that no character is waiting for. -/
inductive Opens (n : Nat) : Opening → Prop
  | complete (h : n < 0x80) : Opens n (.complete (Char.ofNat n))
  | incomplete {p : Partial} (h : Begins n p) : Opens n (.incomplete p)
  | malformed : Opens n .malformed

theorem opens_opening (b : UInt8) : Opens b.toNat (opening b) := by
  unfold opening
  simp only
  split_ifs
  · exact .complete ‹_›
  · exact .malformed
  · exact .incomplete (.two (by omega))
  · exact .incomplete (.threeLeast ‹_›)
  · exact .incomplete (.threeInFront ‹_›)
  · exact .incomplete (.three (by omega))
  · exact .incomplete (.fourLeast ‹_›)
  · exact .incomplete (.four (by omega))
  · exact .incomplete (.fourGreatest ‹_›)
  · exact .malformed

theorem begins_of_opening (h : opening b = .incomplete p) : Begins b.toNat p := by
  have hopens := opens_opening b
  rw [h] at hopens
  cases hopens with
  | incomplete h => exact h

theorem eq_ofNat_of_opening {c : Char} (h : opening b = .complete c) :
    b.toNat < 0x80 ∧ Char.ofNat b.toNat = c := by
  have hopens := opens_opening b
  rw [h] at hopens
  cases hopens with
  | complete hlt => exact ⟨hlt, rfl⟩

/-- The byte that is missing next is no character on its own, and the character will be none of the
first 128. -/
structure Partial.Sound (p : Partial) : Prop where
  least : 0x80 ≤ p.least
  bits : 2 ≤ if p.missing ≤ 1 then p.bits else 0x40 * p.bits + (p.least - 0x80)

theorem sound_of_none : ∀ q ∈ (none : Option Partial), q.Sound :=
  fun q hq ↦ absurd hq (Option.not_mem_none q)

theorem sound_of_opening (h : opening b = .incomplete p) : p.Sound := by
  cases begins_of_opening h <;> constructor <;> simp <;> omega

theorem sound_of_start (h : (start b).2 = some p) : p.Sound := by
  unfold start at h
  split at h
  · cases h
  · next q hq => cases h; exact sound_of_opening hq
  · cases h

/-- What is begun after a byte is sound if what was begun before it is. -/
theorem sound_of_step (hbegun : ∀ q ∈ begun, q.Sound) (h : (step begun b).2 = some p) :
    p.Sound := by
  cases begun with
  | none => exact sound_of_start h
  | some q =>
    obtain ⟨hleast, hbits⟩ := hbegun q rfl
    simp only [step] at h
    split_ifs at h with hrange hlast
    · rw [if_neg hlast] at hbits
      cases h
      refine ⟨Nat.le_refl _, ?_⟩
      simp only
      split_ifs <;> omega
    · exact sound_of_start h

/-! ### Line feeds -/

theorem toNat_of_ofNat_eq {n : Nat} {c : Char} (h : Char.ofNat n = c) (hc : c.toNat ≠ 0) :
    n = c.toNat := by
  by_cases hvalid : n.isValidChar
  · rw [Char.ofNat, dif_pos hvalid] at h
    rw [← h]
    rfl
  · rw [Char.ofNat, dif_neg hvalid] at h
    exact absurd (h ▸ rfl) hc

theorem step_lineFeed (hbegun : ∀ q ∈ begun, q.Sound) :
    step begun 0x0A = (begun.toList.map (fun _ ↦ none) ++ [some '\n'], none) := by
  cases begun with
  | none => decide
  | some q =>
    have hleast := (hbegun q rfl).least
    have hstart : start 0x0A = ([some '\n'], none) := by decide
    simp only [step]
    rw [if_neg (by simp; omega), hstart]
    rfl

theorem lineFeed_notMem_start (hb : b ≠ 0x0A) : some '\n' ∉ (start b).1 := by
  unfold start
  split
  · next c hc =>
    intro h
    obtain rfl : '\n' = c := Option.some.inj (List.mem_singleton.mp h)
    exact hb (UInt8.toNat_inj.mp (toNat_of_ofNat_eq (eq_ofNat_of_opening hc).2 (by decide)))
  · exact List.not_mem_nil
  · intro h
    cases List.mem_singleton.mp h

theorem lineFeed_notMem_step (hbegun : ∀ q ∈ begun, q.Sound) (hb : b ≠ 0x0A) :
    some '\n' ∉ (step begun b).1 := by
  cases begun with
  | none => exact lineFeed_notMem_start hb
  | some q =>
    obtain ⟨hleast, hbits⟩ := hbegun q rfl
    simp only [step]
    split_ifs with hrange hlast
    · intro h
      have hchar := Option.some.inj (List.mem_singleton.mp h)
      have hvalue := toNat_of_ofNat_eq hchar.symm (by decide)
      rw [if_pos hlast] at hbits
      change _ = 10 at hvalue
      omega
    · exact List.not_mem_nil
    · intro h
      rcases List.mem_cons.mp h with h | h
      · cases h
      · exact lineFeed_notMem_start hb h

theorem decodeFrom_cons : decodeFrom begun (b :: bytes) =
    (step begun b).1 ++ decodeFrom (step begun b).2 bytes := by
  cases begun <;> rfl

theorem decodeFrom_append_lineFeed (hbegun : ∀ q ∈ begun, q.Sound) :
    decodeFrom begun (bytes ++ 0x0A :: rest) =
      decodeFrom begun bytes ++ some '\n' :: decode rest := by
  induction bytes generalizing begun with
  | nil =>
    rw [List.nil_append, decodeFrom_cons, step_lineFeed hbegun]
    cases begun <;> rfl
  | cons b bytes ih =>
    rw [List.cons_append, decodeFrom_cons, decodeFrom_cons,
      ih fun q hq ↦ sound_of_step hbegun hq, List.append_assoc]

theorem lineFeed_notMem_decodeFrom (hbegun : ∀ q ∈ begun, q.Sound) (h : 0x0A ∉ bytes) :
    some '\n' ∉ decodeFrom begun bytes := by
  induction bytes generalizing begun with
  | nil => cases begun <;> simp [decodeFrom]
  | cons b bytes ih =>
    obtain ⟨hb, hbytes⟩ := List.ne_and_not_mem_of_not_mem_cons h
    rw [decodeFrom_cons, List.mem_append, not_or]
    exact ⟨lineFeed_notMem_step hbegun hb.symm, ih (fun q hq ↦ sound_of_step hbegun hq) hbytes⟩

/-! ### Lines -/

theorem toList_lossy (bytes : List UInt8) :
    (lossy bytes).toList = (decode bytes).map (·.getD replacement) := by
  rw [lossy, String.toList_ofList]

theorem toList_lossy_append_lineFeed : (lossy (bytes ++ 0x0A :: rest)).toList =
    (lossy bytes).toList ++ '\n' :: (lossy rest).toList := by
  have hdecode : decode (bytes ++ 0x0A :: rest) = decode bytes ++ some '\n' :: decode rest :=
    decodeFrom_append_lineFeed sound_of_none
  rw [toList_lossy, hdecode, List.map_append, List.map_cons, ← toList_lossy, ← toList_lossy]
  rfl

theorem lineFeed_notMem_lossy (h : 0x0A ∉ bytes) : '\n' ∉ (lossy bytes).toList := by
  rw [toList_lossy]
  intro hmem
  obtain ⟨piece, hpiece, hchar⟩ := List.mem_map.mp hmem
  cases piece with
  | none => exact absurd hchar (by decide)
  | some c =>
    rw [Option.getD_some] at hchar
    exact lineFeed_notMem_decodeFrom sound_of_none h (hchar ▸ hpiece)

/-- Cutting at the line feeds and replacing malformed pieces may change places. -/
theorem splitOn_lossy (bytes : List UInt8) : (lossy bytes).toList.splitOn '\n' =
    (bytes.splitOn 0x0A).map fun line ↦ (lossy line).toList := by
  induction bytes using pieces_induction (0x0A : UInt8) with
  | last line hline =>
    rw [List.splitOn_eq_singleton (lineFeed_notMem_lossy hline), List.splitOn_eq_singleton hline]
    rfl
  | cut line rest hline ih =>
    rw [toList_lossy_append_lineFeed, List.splitOn_append_cons_self, ih,
      List.splitOn_append_cons_self, List.splitOn_eq_singleton (lineFeed_notMem_lossy hline),
      List.splitOn_eq_singleton hline]
    rfl

/-- The lines of bytes. The empty piece behind a final line feed is no line. -/
def byteLines (bytes : List UInt8) : List (List UInt8) :=
  let pieces := bytes.splitOn 0x0A
  if pieces.getLast? = some [] then pieces.dropLast else pieces

/-- A byte completes a piece or begins a character. -/
theorem step_ne (begun : Option Partial) (b : UInt8) : step begun b ≠ ([], none) := by
  have hstart : start b ≠ ([], none) := by
    unfold start
    split <;> simp
  cases begun with
  | none => exact hstart
  | some p =>
    simp only [step]
    split_ifs <;> simp

theorem eq_nil_of_decodeFrom (h : decodeFrom begun bytes = []) : begun = none ∧ bytes = [] := by
  induction bytes generalizing begun with
  | nil =>
    cases begun with
    | none => exact ⟨rfl, rfl⟩
    | some p => cases h
  | cons b bytes ih =>
    rw [decodeFrom_cons, List.append_eq_nil_iff] at h
    exact absurd (Prod.ext h.1 (ih h.2).1) (step_ne begun b)

theorem toList_lossy_eq_nil_iff : (lossy bytes).toList = [] ↔ bytes = [] := by
  rw [toList_lossy, List.map_eq_nil_iff]
  refine ⟨fun h ↦ (eq_nil_of_decodeFrom h).2, ?_⟩
  rintro rfl
  rfl

theorem linePieces_lossy (bytes : List UInt8) : linePieces (lossy bytes).toList =
    (byteLines bytes).map fun line ↦ (lossy line).toList := by
  rw [linePieces, dropEmptyEnd, splitOn_lossy, byteLines, List.getLast?_map,
    ← List.map_dropLast]
  have hlast : ((bytes.splitOn 0x0A).getLast?.map fun line ↦ (lossy line).toList) = some [] ↔
      (bytes.splitOn 0x0A).getLast? = some [] := by
    cases (bytes.splitOn 0x0A).getLast? with
    | none => simp
    | some line => simp only [Option.map_some, Option.some.injEq, toList_lossy_eq_nil_iff]
  simp only [hlast]
  split_ifs <;> rfl

/-! ### The byte-order mark -/

/-- The bytes of the byte-order mark. -/
def mark : List UInt8 :=
  [0xEF, 0xBB, 0xBF]

/-- Bytes without a byte-order mark at their start. -/
def withoutMark (bytes : List UInt8) : List UInt8 :=
  if mark.isPrefixOf bytes then bytes.drop mark.length else bytes

variable {missing least greatest bits : Nat} {c : Char} {pieces : List (Option Char)}

/-- The last byte of a character. -/
theorem exists_cons_of_last (hc : c.toNat ≠ 0)
    (h : decodeFrom (some ⟨1, least, greatest, bits⟩) bytes = some c :: pieces) :
    ∃ b rest, bytes = b :: rest ∧ least ≤ b.toNat ∧ b.toNat ≤ greatest ∧
      0x40 * bits + (b.toNat - 0x80) = c.toNat := by
  cases bytes with
  | nil => cases h
  | cons b rest =>
    rw [decodeFrom_cons] at h
    simp only [step] at h
    split_ifs at h with hrange hlast
    · have hchar := Option.some.inj (List.cons.inj h).1
      exact ⟨b, rest, rfl, hrange.1, hrange.2, toNat_of_ofNat_eq hchar hc⟩
    · omega
    · cases h

/-- A byte of a character that is not the last one. -/
theorem exists_cons_of_more
    (h : decodeFrom (some ⟨missing + 2, least, greatest, bits⟩) bytes = some c :: pieces) :
    ∃ b rest, bytes = b :: rest ∧ least ≤ b.toNat ∧ b.toNat ≤ greatest ∧
      decodeFrom (some ⟨missing + 1, 0x80, 0xBF, 0x40 * bits + (b.toNat - 0x80)⟩) rest =
        some c :: pieces := by
  cases bytes with
  | nil => cases h
  | cons b rest =>
    rw [decodeFrom_cons] at h
    simp only [step] at h
    split_ifs at h with hrange hlast
    · omega
    · exact ⟨b, rest, rfl, hrange.1, hrange.2, h⟩
    · cases h

theorem decode_mark_append : decode (mark ++ bytes) = some '\ufeff' :: decode bytes :=
  rfl

/-- Nothing but the mark is read as one. -/
theorem mark_prefix_of_decode (h : decode bytes = some '\ufeff' :: pieces) : mark <+: bytes := by
  have hvalue : '\ufeff'.toNat = 0xFEFF := rfl
  have hne : '\ufeff'.toNat ≠ 0 := by decide
  cases bytes with
  | nil => cases h
  | cons a bytes =>
    rw [decode, decodeFrom_cons, step, start] at h
    have ha := a.toNat_lt
    cases hopening : opening a with
    | complete c =>
      rw [hopening] at h
      obtain ⟨hlt, hchar⟩ := eq_ofNat_of_opening hopening
      have hhead : c = '\ufeff' := Option.some.inj (List.cons.inj h).1
      have := toNat_of_ofNat_eq (hchar.trans hhead) hne
      omega
    | malformed => simp [hopening] at h
    | incomplete p =>
      simp only [hopening, List.nil_append] at h
      -- Characters of two bytes are too small, and those of four bytes too large.
      cases begins_of_opening hopening with
      | two hlead =>
        obtain ⟨b, rest, -, hleast, hgreatest, hbits⟩ := exists_cons_of_last hne h
        omega
      | threeLeast | threeInFront =>
        obtain ⟨b, rest, rfl, hleast, hgreatest, h⟩ := exists_cons_of_more h
        obtain ⟨d, rest, rfl, hleast', hgreatest', hbits⟩ := exists_cons_of_last hne h
        omega
      | three hlead =>
        obtain ⟨b, rest, rfl, hleast, hgreatest, h⟩ := exists_cons_of_more h
        obtain ⟨d, rest, rfl, hleast', hgreatest', hbits⟩ := exists_cons_of_last hne h
        obtain rfl : a = 0xEF := UInt8.toNat_inj.mp (show a.toNat = 0xEF by omega)
        obtain rfl : b = 0xBB := UInt8.toNat_inj.mp (show b.toNat = 0xBB by omega)
        obtain rfl : d = 0xBF := UInt8.toNat_inj.mp (show d.toNat = 0xBF by omega)
        exact ⟨rest, rfl⟩
      | fourLeast | four | fourGreatest =>
        obtain ⟨b, rest, rfl, hleast, hgreatest, h⟩ := exists_cons_of_more h
        obtain ⟨d, rest, rfl, hleast', hgreatest', h⟩ := exists_cons_of_more h
        obtain ⟨e, rest, rfl, hleast'', hgreatest'', hbits⟩ := exists_cons_of_last hne h
        omega

theorem head?_lossy_iff : (lossy bytes).toList.head? = some '\ufeff' ↔ mark <+: bytes := by
  rw [toList_lossy, List.head?_map]
  constructor
  · intro h
    obtain ⟨piece, hpiece, hchar⟩ := Option.map_eq_some_iff.mp h
    obtain ⟨pieces, hdecode⟩ := List.head?_eq_some_iff.mp hpiece
    cases piece with
    | none => exact absurd hchar (by decide)
    | some c =>
      obtain rfl : c = '\ufeff' := hchar
      exact mark_prefix_of_decode hdecode
  · rintro ⟨rest, rfl⟩
    rw [decode_mark_append]
    rfl

theorem withoutMark_eq_self (h : ¬mark <+: bytes) : withoutMark bytes = bytes := by
  rw [withoutMark, if_neg (by rwa [List.isPrefixOf_iff_prefix])]

theorem withoutMark_mark_append : withoutMark (mark ++ bytes) = bytes := by
  rw [withoutMark, if_pos (by simp), List.drop_left]

/-- Only the first piece can lose a mark. -/
theorem splitOn_withoutMark (bytes : List UInt8) : (withoutMark bytes).splitOn 0x0A =
    (bytes.splitOn 0x0A).modifyHead withoutMark := by
  by_cases h : mark <+: bytes
  · obtain ⟨rest, rfl⟩ := h
    obtain ⟨first, more, hsplit⟩ := List.exists_cons_of_ne_nil (List.splitOn_ne_nil 0x0A rest)
    have hpieces : (mark ++ rest).splitOn 0x0A = (mark ++ first) :: more := by
      simp [mark, List.splitOn_cons_eq_if_modifyHead, hsplit]
    rw [withoutMark_mark_append, hpieces, hsplit, List.modifyHead_cons, withoutMark_mark_append]
  · obtain ⟨first, more, hsplit⟩ := List.exists_cons_of_ne_nil (List.splitOn_ne_nil 0x0A bytes)
    have hfirst : first <+: bytes := by
      have hbytes : [0x0A].intercalate (bytes.splitOn 0x0A) = bytes :=
        List.intercalate_splitOn 0x0A
      rw [hsplit] at hbytes
      cases more with
      | nil =>
        rw [List.intercalate_singleton] at hbytes
        exact ⟨[], by rw [hbytes, List.append_nil]⟩
      | cons second more =>
        rw [List.intercalate_cons_cons, List.append_assoc] at hbytes
        exact ⟨_, hbytes⟩
    rw [withoutMark_eq_self h, hsplit, List.modifyHead_cons,
      withoutMark_eq_self fun hmark ↦ h (hmark.trans hfirst)]

end ShutdownLint.Text.Utf8

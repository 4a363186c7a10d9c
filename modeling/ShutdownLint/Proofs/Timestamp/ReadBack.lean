import Mathlib.Data.List.TakeWhile
import ShutdownLint.Proofs.Decimal.Digits
import ShutdownLint.Timestamp
/-!
Written timestamps are read back. Each field is written with as many digits as are read for it,
apart from the decimals: of these the zeros at the end are left out and filled up again.
-/

set_option autoImplicit false

namespace ShutdownLint.Timestamp

open Decimal (isDigit padded value isDigit_of_mem_padded length_padded value_padded)

/-! ### Fields of a fixed width -/

theorem readNumber?_padded_append {width n : Nat} (hwidth : 0 < width) (h : n < 10 ^ width)
    (cs : List Char) : readNumber? width (padded width n ++ cs) = some (n, cs) := by
  have hlength : (padded width n).length = width := length_padded hwidth h
  have hdigits : (padded width n).all isDigit = true :=
    List.all_eq_true.mpr fun _ hc ↦ isDigit_of_mem_padded hc
  rw [readNumber?, List.take_left' hlength, List.drop_left' hlength, if_pos ⟨hlength, hdigits⟩,
    value_padded]

theorem skip?_cons (c : Char) (cs : List Char) : skip? c (c :: cs) = some cs :=
  if_pos rfl

theorem readTriple?_padded {width a b c : Nat} (separator : Char) (hwidth : 0 < width)
    (ha : a < 10 ^ width) (hb : b < 10 ^ 2) (hc : c < 10 ^ 2) (cs : List Char) :
    readTriple? width separator (padded width a ++
      separator :: (padded 2 b ++ separator :: (padded 2 c ++ cs))) = some (a, b, c, cs) := by
  rw [readTriple?, readNumber?_padded_append hwidth ha]
  show (skip? separator _).bind _ = _
  rw [skip?_cons]
  show (readNumber? 2 _).bind _ = _
  rw [readNumber?_padded_append (by decide) hb]
  show (skip? separator _).bind _ = _
  rw [skip?_cons]
  show (readNumber? 2 _).bind _ = _
  rw [readNumber?_padded_append (by decide) hc]
  rfl

/-! ### Decimals -/

/-- The digits of a number, up to the last one that is no zero, and the zeros behind them. -/
theorem exists_padded_eq_append (width n : Nat) : ∃ k, padded width n =
    ((padded width n).reverse.dropWhile (· == '0')).reverse ++ List.replicate k '0' := by
  generalize padded width n = cs
  have hzeros : cs.reverse.takeWhile (· == '0') =
      List.replicate (cs.reverse.takeWhile (· == '0')).length '0' :=
    List.eq_replicate_iff.mpr ⟨rfl, fun c hc ↦ by simpa using List.mem_takeWhile_imp hc⟩
  refine ⟨(cs.reverse.takeWhile (· == '0')).length, ?_⟩
  rw [← List.reverse_replicate, ← hzeros, ← List.reverse_append, List.takeWhile_append_dropWhile,
    List.reverse_reverse]

/-- Decimals end with the first character that is no digit. -/
theorem readFraction?_digits_append {ds : List Char} (hne : ds ≠ [])
    (hall : ∀ d ∈ ds, isDigit d = true) {c : Char} (hdigit : isDigit c = false) (cs : List Char) :
    readFraction? ('.' :: (ds ++ c :: cs)) =
      some (value ((ds ++ List.replicate 9 '0').take 9), c :: cs) := by
  have htake : (ds ++ c :: cs).takeWhile isDigit = ds := by
    rw [List.takeWhile_append_of_pos hall, List.takeWhile_cons_of_neg (by simp [hdigit]),
      List.append_nil]
  have hdrop : (ds ++ c :: cs).dropWhile isDigit = c :: cs := by
    rw [List.dropWhile_append_of_pos hall, List.dropWhile_cons_of_neg (by simp [hdigit])]
  rw [readFraction?, htake, hdrop, if_neg (by simpa using hne)]

theorem readFraction?_fractionText_append {nanosecond : Nat} (h : nanosecond < 10 ^ 9) {c : Char}
    (hpoint : c ≠ '.') (hdigit : isDigit c = false) (cs : List Char) :
    readFraction? (fractionText nanosecond ++ c :: cs) = some (nanosecond, c :: cs) := by
  unfold fractionText
  by_cases hzero : nanosecond = 0
  · rw [if_pos hzero, hzero, List.nil_append]
    unfold readFraction?
    split
    · rename_i hcs
      exact absurd (List.cons.inj hcs).1 hpoint
    · rfl
  obtain ⟨k, hk⟩ := exists_padded_eq_append 9 nanosecond
  rw [if_neg hzero]
  generalize ((padded 9 nanosecond).reverse.dropWhile (· == '0')).reverse = ds at hk ⊢
  have hall : ∀ d ∈ ds, isDigit d = true := fun d hd ↦
    isDigit_of_mem_padded (hk ▸ List.mem_append_left _ hd)
  have hne : ds ≠ [] := by
    rintro rfl
    refine hzero ?_
    rw [← value_padded 9 nanosecond, hk, List.nil_append, ← List.append_nil (List.replicate k '0'),
      Decimal.value_replicate_zero_append]
    rfl
  have hlength : ds.length + k = 9 := by
    have := congrArg List.length hk
    rwa [length_padded (by decide) h, List.length_append, List.length_replicate, eq_comm] at this
  have hfilled : (ds ++ List.replicate 9 '0').take 9 = padded 9 nanosecond := by
    rw [hk, List.take_append, List.take_of_length_le (by omega), List.take_replicate]
    congr 2
    omega
  rw [List.cons_append, readFraction?_digits_append hne hall hdigit, hfilled, value_padded]

/-! ### Offsets -/

/-- How an offset begins. -/
theorem exists_offsetText (offset : Int) :
    ∃ c cs, offsetText offset = c :: cs ∧ c ≠ '.' ∧ isDigit c = false := by
  unfold offsetText
  split_ifs
  · exact ⟨_, _, rfl, by decide, by decide⟩
  · exact ⟨_, _, rfl, by decide, by decide⟩
  · exact ⟨_, _, rfl, by decide, by decide⟩

/-- The sign and the two numbers of an offset. -/
theorem readOffset?_padded (negative : Bool) {hours minutes : Nat} (hhours : hours < 24)
    (hminutes : minutes < 60) :
    readOffset? ((if negative then '-' else '+') ::
        (padded 2 hours ++ ':' :: padded 2 minutes)) =
      some (if negative then -(60 * hours + minutes : Int) else 60 * hours + minutes) := by
  have hread : readNumber? 2 (padded 2 hours ++ ':' :: padded 2 minutes) =
      some (hours, ':' :: padded 2 minutes) :=
    readNumber?_padded_append (by decide) (by omega) _
  have hreadMinutes : readNumber? 2 (padded 2 minutes) = some (minutes, []) := by
    rw [← List.append_nil (padded 2 minutes)]
    exact readNumber?_padded_append (by decide) (by omega) _
  cases negative
  all_goals
    simp [readOffset?, hread, skip?_cons, hreadMinutes, hhours, hminutes]

theorem readOffset?_offsetText {offset : Int} (h : offset.natAbs < 24 * 60) :
    readOffset? (offsetText offset) = some offset := by
  unfold offsetText
  by_cases hzero : offset = 0
  · rw [if_pos hzero, hzero]
    rfl
  have hsign : (if offset < 0 then '-' else '+') = if decide (offset < 0) then '-' else '+' := by
    simp only [decide_eq_true_eq]
  rw [if_neg hzero, List.cons_append, hsign,
    readOffset?_padded (decide (offset < 0)) (by omega) (by omega)]
  congr 1
  by_cases hnegative : offset < 0
  · rw [if_pos (decide_eq_true hnegative)]
    omega
  · rw [if_neg (by simpa using hnegative)]
    omega

/-! ### Timestamps -/

theorem ofFields?_fields (t : Timestamp) :
    ofFields? t.year t.month t.day t.hour t.minute t.second t.nanosecond t.offset = some t := by
  rw [ofFields?, dif_pos t.isDate, dif_pos t.isTime, dif_pos t.isOffset]

theorem daysInMonth_le (year month : Nat) : Calendar.daysInMonth year month ≤ 31 := by
  unfold Calendar.daysInMonth
  split
  · split_ifs <;> decide
  all_goals decide

theorem read?_text (t : Timestamp) : read? t.text = some t := by
  obtain ⟨hyear, -, hmonth, -, hday⟩ := t.isDate
  obtain ⟨hhour, hminute, hsecond, hnanosecond⟩ := t.isTime
  have hlast := daysInMonth_le t.year t.month
  obtain ⟨c, cs, hoffset, hpoint, hdigit⟩ := exists_offsetText t.offset
  have hdate (cs : List Char) := readTriple?_padded (a := t.year) (b := t.month) (c := t.day) '-'
    (by decide : 0 < 4) (by omega) (by omega) (by omega) cs
  have htime (cs : List Char) := readTriple?_padded (a := t.hour) (b := t.minute) (c := t.second)
    ':' (by decide : 0 < 2) (by omega) (by omega) (by omega) cs
  have hfraction := readFraction?_fractionText_append hnanosecond hpoint hdigit cs
  rw [← hoffset] at hfraction
  rw [read?, text, String.toList_ofList, chars]
  simp only [List.append_assoc, List.cons_append, Option.bind_eq_bind, hdate, Option.bind_some]
  rw [htime]
  simp [hfraction, readOffset?_offsetText t.isOffset, hsecond.ne, ofFields?_fields]

end ShutdownLint.Timestamp

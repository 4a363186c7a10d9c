import ShutdownLint.Calendar
import ShutdownLint.Decimal.Digits
/-!
Points in time, as a date, a time of day and an offset from universal time.

`text` writes a timestamp with as few decimals as it needs. `read?` also reads more decimals, of
which nine count, any ASCII character between date and time, and a sixtieth second where a leap
second may be: at the end of a month in universal time. It stands for the nanosecond before it.
-/

set_option autoImplicit false

namespace ShutdownLint

structure Timestamp where
  /-- At most four digits. -/
  year : Nat
  month : Nat
  day : Nat
  hour : Nat
  minute : Nat
  second : Nat
  nanosecond : Nat
  /-- By how many minutes the time of day is ahead of universal time. -/
  offset : Int
  isDate : year ≤ 9999 ∧ Calendar.IsDate year month day
  isTime : hour < 24 ∧ minute < 60 ∧ second < 60 ∧ nanosecond < 1000000000
  isOffset : offset.natAbs < 24 * 60
  deriving DecidableEq

namespace Timestamp

open Decimal (isDigit padded value)

/-- The beginning of the year 1970 in universal time. -/
def epoch : Timestamp :=
  ⟨1970, 1, 1, 0, 0, 0, 0, 0, by decide, by decide, by decide⟩

instance : Inhabited Timestamp := ⟨epoch⟩

/-- The timestamp with the given fields if there is one. -/
def ofFields? (year month day hour minute second nanosecond : Nat) (offset : Int) :
    Option Timestamp :=
  if isDate : year ≤ 9999 ∧ Calendar.IsDate year month day then
    if isTime : hour < 24 ∧ minute < 60 ∧ second < 60 ∧ nanosecond < 1000000000 then
      if isOffset : offset.natAbs < 24 * 60 then
        some ⟨year, month, day, hour, minute, second, nanosecond, offset, isDate, isTime, isOffset⟩
      else none
    else none
  else none

/-! ### Writing -/

/-- A point and the digits behind it, or nothing for zero. -/
def fractionText (nanosecond : Nat) : List Char :=
  if nanosecond = 0 then []
  else '.' :: ((padded 9 nanosecond).reverse.dropWhile (· == '0')).reverse

def offsetText (offset : Int) : List Char :=
  if offset = 0 then ['Z']
  else
    (if offset < 0 then '-' else '+') :: padded 2 (offset.natAbs / 60) ++
      ':' :: padded 2 (offset.natAbs % 60)

def chars (t : Timestamp) : List Char :=
  padded 4 t.year ++ '-' :: padded 2 t.month ++ '-' :: padded 2 t.day ++
    'T' :: padded 2 t.hour ++ ':' :: padded 2 t.minute ++ ':' :: padded 2 t.second ++
    fractionText t.nanosecond ++ offsetText t.offset

def text (t : Timestamp) : String :=
  String.ofList t.chars

/-! ### Reading -/

/-- The number at the front of a text that has exactly `width` digits, and what follows it. -/
def readNumber? (width : Nat) (cs : List Char) : Option (Nat × List Char) :=
  let ds := cs.take width
  if ds.length = width ∧ ds.all isDigit then some (value ds, cs.drop width) else none

/-- What follows a character at the front of a text. -/
def skip? (c : Char) : List Char → Option (List Char)
  | d :: cs => if d = c then some cs else none
  | [] => none

/-- Three numbers between separators. -/
def readTriple? (width : Nat) (separator : Char) (cs : List Char) :
    Option (Nat × Nat × Nat × List Char) := do
  let (a, cs) ← readNumber? width cs
  let cs ← skip? separator cs
  let (b, cs) ← readNumber? 2 cs
  let cs ← skip? separator cs
  let (c, cs) ← readNumber? 2 cs
  return (a, b, c, cs)

/-- The nanoseconds behind a point, and what follows them. -/
def readFraction? : List Char → Option (Nat × List Char)
  | '.' :: cs =>
    let ds := cs.takeWhile isDigit
    if ds.isEmpty then none
    else some (value ((ds ++ List.replicate 9 '0').take 9), cs.dropWhile isDigit)
  | cs => some (0, cs)

/-- An offset, which has to be all that is left of the text. -/
def readOffset? : List Char → Option Int
  | ['Z'] => some 0
  | ['z'] => some 0
  | c :: cs => do
    let negative ← if c = '+' then some false else if c = '-' then some true else none
    let (hours, cs) ← readNumber? 2 cs
    let cs ← skip? ':' cs
    let (minutes, cs) ← readNumber? 2 cs
    if cs.isEmpty && hours < 24 && minutes < 60 then
      let size : Int := 60 * hours + minutes
      return if negative then -size else size
    else none
  | [] => none

/-- Whether the minute is the last one of a month in universal time. -/
def isEndOfMonth (t : Timestamp) : Bool :=
  let minutes : Int := 60 * t.hour + t.minute - t.offset
  let last := Calendar.daysInMonth t.year t.month
  (minutes == 24 * 60 - 1 && t.day == last) || (minutes == -1 && t.day == 1) ||
    (minutes == 2 * 24 * 60 - 1 && t.day + 1 == last)

def read? (s : String) : Option Timestamp := do
  let (year, month, day, cs) ← readTriple? 4 '-' s.toList
  match cs with
  | [] => none
  | separator :: cs =>
    if 0x80 ≤ separator.toNat then none
    let (hour, minute, second, cs) ← readTriple? 2 ':' cs
    let (nanosecond, cs) ← readFraction? cs
    let offset ← readOffset? cs
    if second = 60 then
      (ofFields? year month day hour minute 59 999999999 offset).filter isEndOfMonth
    else ofFields? year month day hour minute second nanosecond offset

/-! ### Clocks -/

/-- The timestamp some seconds and nanoseconds after the beginning of 1970. -/
def ofUnixTime? (seconds nanoseconds : Nat) : Option Timestamp :=
  let (year, month, day) := Calendar.dateOfDays (seconds / 86400)
  let second := seconds % 86400
  ofFields? year month day (second / 3600) (second / 60 % 60) (second % 60) nanoseconds 0

end Timestamp

end ShutdownLint

import HiringService.Python.Utf8
import Mathlib

/-!
# `datetime.fromisoformat`

A `datetime` is a calendar date and a time of day, with an offset from UTC or without one. The
parser is that of Python 3.11, a port of `_datetimemodule.c`; it reads the UTF-8 encoding of the
text as a zero-terminated string, so positions count bytes and those past the end read as U+0000.

Days are numbered from 1970-01-01 of the proleptic Gregorian calendar.
-/

namespace Python

/-! ## The calendar -/

/-- Leap years of the Gregorian calendar. -/
def isLeap (year : ℕ) : Bool := year % 4 = 0 ∧ (year % 100 ≠ 0 ∨ year % 400 = 0)

/-- The number of days of a month. -/
def daysInMonth (year month : ℕ) : ℕ :=
  if month = 2 then if isLeap year then 29 else 28
  else if month ∈ [4, 6, 9, 11] then 30 else 31

/-- The days of the years before `year`, counted from the year 1. -/
def daysBeforeYear (year : ℕ) : ℕ := 365 * (year - 1) + (year - 1) / 4 - (year - 1) / 100 + (year - 1) / 400

/-- The days of the months before `month` in `year`. -/
def daysBeforeMonth (year month : ℕ) : ℕ :=
  ((List.range (month - 1)).map fun m => daysInMonth year (m + 1)).sum

/-- The ordinal of a date, with 0001-01-01 as day 1. -/
def toOrdinal (year month day : ℕ) : ℕ := daysBeforeYear year + daysBeforeMonth year month + day

/-- The year, month and day of an ordinal. -/
def ofOrdinal (ordinal : ℕ) : ℕ × ℕ × ℕ :=
  -- the year is at most one more than this estimate from below
  let guess := (ordinal - 1) * 400 / 146097 + 1
  let year := if daysBeforeYear (guess + 1) < ordinal then guess + 1 else
    if daysBeforeYear guess < ordinal then guess else guess - 1
  let yday := ordinal - daysBeforeYear year
  let month := ((List.range 12).filter fun m => daysBeforeMonth year (m + 1) < yday).length
  (year, month, yday - daysBeforeMonth year month)

/-! ### Dates of ordinals -/

/-- The year of a day starts before the day. -/
theorem daysBeforeYear_ofOrdinal_lt {n : ℕ} (hn : 0 < n) : daysBeforeYear (ofOrdinal n).1 < n := by
  rw [ofOrdinal]
  dsimp only
  split_ifs with hnext hguess
  · exact hnext
  · exact hguess
  · -- the estimate is one too large at most
    rw [daysBeforeYear] at hguess ⊢
    omega

/-- A day is in one of the twelve months. -/
theorem ofOrdinal_month {n : ℕ} (hn : 0 < n) :
    1 ≤ (ofOrdinal n).2.1 ∧ (ofOrdinal n).2.1 ≤ 12 := by
  have hyear := daysBeforeYear_ofOrdinal_lt hn
  have hmonth : (ofOrdinal n).2.1 = ((List.range 12).filter fun m =>
      daysBeforeMonth (ofOrdinal n).1 (m + 1) < n - daysBeforeYear (ofOrdinal n).1).length := rfl
  rw [hmonth]
  constructor
  · refine List.length_pos_of_mem (a := 0) (List.mem_filter.mpr ⟨by decide, ?_⟩)
    have hjanuary : daysBeforeMonth (ofOrdinal n).1 (0 + 1) = 0 := rfl
    rw [hjanuary]
    exact decide_eq_true (Nat.sub_pos_of_lt hyear)
  · exact Nat.le_trans (List.length_filter_le _ _) (Nat.le_of_eq List.length_range)

/-- No day has the number 0, which therefore is in no year from the year 1 on. -/
theorem pos_of_year_pos {n : ℕ} (h : 0 < (ofOrdinal n).1) : 0 < n := by
  by_contra hzero
  rw [show n = 0 by omega] at h
  exact absurd h (by decide)

/-! ## Values -/

/-- A `datetime.datetime`: the microseconds of its date and time since 1970-01-01T00:00:00, and its
UTC offset in microseconds if it has one. -/
structure Datetime where
  micros : ℤ
  offset : Option ℤ
  deriving DecidableEq

/-- The instant of a `datetime` in a session whose time zone is UTC. -/
def Datetime.instant (d : Datetime) : ℤ := d.micros - d.offset.getD 0

/-- The microseconds of a day. -/
def microsPerDay : ℤ := 86400000000

/-- The microseconds of a date and time since 1970-01-01T00:00:00. -/
def epochMicros (year month day hour minute second micro : ℕ) : ℤ :=
  ((toOrdinal year month day : ℤ) - 719163) * microsPerDay +
    (((hour * 60 + minute) * 60 + second) * 1000000 + micro : ℕ)

/-! ## Parsing -/

/-- The UTF-8 encoding of a text, a character for each byte. -/
def cString (text : String) : List Char := (encode text.toList).map fun b => Char.ofNat b.toNat

/-- The character at position `i`, with U+0000 past the end. -/
def charAt (text : List Char) (i : ℕ) : Char := text.getD i '\x00'

/-- An ASCII digit. -/
def asciiDigit (c : Char) : Option ℕ :=
  if 0x30 ≤ c.toNat ∧ c.toNat ≤ 0x39 then some (c.toNat - 0x30) else none

/-- `parse_digits`: the number that the `count` digits from position `i` spell. -/
def parseDigits (text : List Char) (i count : ℕ) : Option ℕ :=
  (List.range count).foldlM (fun n j => (asciiDigit (charAt text (i + j))).map (10 * n + ·)) 0

/-- The first position from `i` on that does not hold a digit. -/
def skipDigits (text : List Char) (i : ℕ) : ℕ :=
  i + ((text.drop i).takeWhile fun c => (asciiDigit c).isSome).length

/-- `_find_isoformat_datetime_separator`: where the date ends. -/
def findSeparator (text : List Char) : Option ℕ :=
  let len := text.length
  if len = 7 then some 7
  else if charAt text 4 = '-' then
    if charAt text 5 = 'W' then
      if len < 8 then none
      else if 8 < len ∧ charAt text 8 = '-' then
        if len = 9 then none
        else if 10 < len ∧ (asciiDigit (charAt text 10)).isSome then some 8
        else some 10
      else some 8
    else some 10
  else if charAt text 4 = 'W' then
    let pos := skipDigits text 7
    if pos < 9 then some pos else if pos % 2 = 0 then some 7 else some 8
  else some 8

/-- `iso_to_ymd`: the date of a day of an ISO week. -/
def isoToYmd (year week day : ℕ) : Option (ℕ × ℕ × ℕ) :=
  if year < 1 ∨ 9999 < year then none
  else
    let firstDay := toOrdinal year 1 1
    -- Monday is 0
    let firstWeekday := (firstDay + 6) % 7
    let long := firstWeekday = 3 ∨ (firstWeekday = 2 ∧ isLeap year)
    if week < 1 ∨ 53 < week ∨ (week = 53 ∧ ¬ long) then none
    else if day < 1 ∨ 7 < day then none
    else
      let weekOne := if 3 < firstWeekday then firstDay + 7 - firstWeekday else firstDay - firstWeekday
      -- the Monday of week 1 of the year 1 is 0001-01-01
      let ordinal := weekOne + 7 * (week - 1) + (day - 1)
      some (ofOrdinal ordinal)

/-- `parse_isoformat_date` on the first `len` characters. -/
def parseDate (text : List Char) (len : ℕ) : Option (ℕ × ℕ × ℕ) := do
  let year ← parseDigits text 0 4
  let sep := if charAt text 4 = '-' then 1 else 0
  let p := 4 + sep
  if charAt text p = 'W' then
    let week ← parseDigits text (p + 1) 2
    let p := p + 3
    if p < len then
      if sep = 1 ∧ charAt text p ≠ '-' then none
      else
        let day ← parseDigits text (p + sep) 1
        isoToYmd year week day
    else isoToYmd year week 1
  else
    let month ← parseDigits text p 2
    let p := p + 2
    if sep = 1 ∧ charAt text p ≠ '-' then none
    else
      let day ← parseDigits text (p + sep) 2
      if p + sep + 2 = len then some (year, month, day) else none

/-- A time of day, and whether text is left after it. -/
structure ParsedTime where
  hour : ℕ
  minute : ℕ
  second : ℕ
  micro : ℕ
  rest : Bool

/-- The fraction of a second that starts at position `p`. -/
def parseFraction (text : List Char) (p stop : ℕ) (t : ParsedTime) : Option ParsedTime := do
  let count := min (stop - p) 6
  let n ← parseDigits text p count
  return { t with micro := n * 10 ^ (6 - count)
                  rest := charAt text (skipDigits text (p + count)) ≠ '\x00' }

/-- `parse_hh_mm_ss_ff` on the characters from `start` up to `stop`: the components `i` and later,
where `sep` says whether they are separated by colons. -/
def parseComponents (text : List Char) (stop : ℕ) :
    (fuel : ℕ) → (p : ℕ) → (first sep : Bool) → ParsedTime → Option ParsedTime
  | 0, p, _, _, t => parseFraction text p stop t
  | fuel + 1, p, first, sep, t => do
      let n ← parseDigits text p 2
      let t := match fuel with
        | 2 => { t with hour := n }
        | 1 => { t with minute := n }
        | _ => { t with second := n }
      let c := charAt text (p + 2)
      let sep := if first then c = ':' else sep
      if stop ≤ p + 3 then return { t with rest := c ≠ '\x00' }
      else if sep ∧ c = ':' then parseComponents text stop fuel (p + 3) false sep t
      else if c = '.' ∨ c = ',' then parseFraction text (p + 3) stop t
      else if ¬ sep then parseComponents text stop fuel (p + 2) false sep t
      else none

/-- `parse_hh_mm_ss_ff`. -/
def parseHhMmSsFf (text : List Char) (start stop : ℕ) : Option ParsedTime :=
  parseComponents text stop 3 start true true ⟨0, 0, 0, 0, false⟩

/-- `parse_isoformat_time` from position `start`: the time and the offset, in microseconds, that
`tzinfo_from_isoformat_results` makes of it. -/
def parseTime (text : List Char) (start : ℕ) : Option (ParsedTime × Option ℤ) := do
  let len := text.length
  -- the search looks at the first character even when the time is empty
  let tail := (text.drop (start + 1)).takeWhile fun c => ¬ (c = '+' ∨ c = '-' ∨ c = 'Z')
  let c := charAt text start
  let zone := if c = '+' ∨ c = '-' ∨ c = 'Z' then start else start + 1 + tail.length
  let t ← parseHhMmSsFf text start zone
  if len ≤ zone then if t.rest then none else return (t, none)
  else if charAt text zone = 'Z' then
    if charAt text (zone + 1) ≠ '\x00' then none else return (t, some 0)
  else
    let z ← parseHhMmSsFf text (zone + 1) len
    if z.rest then none
    else
      let seconds := (z.hour * 60 + z.minute) * 60 + z.second
      -- an offset below one second counts as UTC
      let magnitude : ℤ := if seconds = 0 then 0 else (seconds * 1000000 + z.micro : ℕ)
      return (t, some (if charAt text zone = '-' then -magnitude else magnitude))

/-- The number of bytes of the character that begins with the byte `lead`. -/
def byteWidth (lead : Char) : ℕ :=
  if lead.toNat &&& 0x80 = 0 then 1
  else if lead.toNat &&& 0xf0 = 0xe0 then 3
  else if lead.toNat &&& 0xf0 = 0xf0 then 4
  else 2

/-- The range checks of the `datetime` and `timezone` constructors. -/
def makeDatetime (date : ℕ × ℕ × ℕ) (t : ParsedTime) (offset : Option ℤ) : Option Datetime :=
  let (year, month, day) := date
  if 1 ≤ year ∧ year ≤ 9999 ∧ 1 ≤ month ∧ month ≤ 12 ∧ 1 ≤ day ∧ day ≤ daysInMonth year month ∧
      t.hour < 24 ∧ t.minute < 60 ∧ t.second < 60 ∧
      -microsPerDay < offset.getD 0 ∧ offset.getD 0 < microsPerDay then
    some ⟨epochMicros year month day t.hour t.minute t.second t.micro, offset⟩
  else none

/-- `datetime.fromisoformat(text)`; `none` is a `ValueError`. -/
def fromisoformat (text : String) : Option Datetime := do
  let bytes := cString text
  if text.length < 7 then none
  else
    let separator ← findSeparator bytes
    let date ← parseDate bytes separator
    if separator < bytes.length then
      -- any character may separate the date from the time
      let (t, offset) ← parseTime bytes (separator + byteWidth (charAt bytes separator))
      makeDatetime date t offset
    else makeDatetime date ⟨0, 0, 0, 0, false⟩ none

end Python

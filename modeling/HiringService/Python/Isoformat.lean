import HiringService.Python.Calendar

/-!
# `datetime.isoformat`

`fromisoformat` reads what `isoformat` writes (`fromisoformat_isoformat`), for every `datetime` that
it can return itself (`valid_of_fromisoformat`).
-/

namespace Python

/-! ## Writing -/

/-- The last `width` digits of a number, with leading zeros. -/
def pad : (width : ℕ) → ℕ → List Char
  | 0, _ => []
  | width + 1, n => pad width (n / 10) ++ [Nat.digitChar (n % 10)]

/-- `HH:MM` of a time in microseconds. -/
def clockText (micros : ℕ) : List Char :=
  pad 2 (micros / 3600000000) ++ ':' :: pad 2 (micros / 60000000 % 60)

/-- `:SS`, and `.ffffff` unless that is zero. -/
def secondsText (micros : ℕ) : List Char :=
  ':' :: pad 2 (micros / 1000000 % 60) ++
    if micros % 1000000 = 0 then [] else '.' :: pad 6 (micros % 1000000)

/-- An offset from UTC. -/
def offsetText (offset : ℤ) : List Char :=
  (if offset < 0 then '-' else '+') :: clockText offset.natAbs ++
    if offset.natAbs % 60000000 = 0 then [] else secondsText offset.natAbs

/-- `YYYY-MM-DD`. -/
def dateText (date : ℕ × ℕ × ℕ) : List Char :=
  pad 4 date.1 ++ '-' :: pad 2 date.2.1 ++ '-' :: pad 2 date.2.2

/-- The ordinal of the date. -/
def Datetime.ordinal (d : Datetime) : ℕ := (d.micros / microsPerDay + 719163).toNat

/-- The microseconds since midnight. -/
def Datetime.timeOfDay (d : Datetime) : ℕ := (d.micros % microsPerDay).toNat

/-- `datetime.isoformat()`. -/
def Datetime.isoformat (d : Datetime) : String :=
  String.ofList (dateText (ofOrdinal d.ordinal) ++ 'T' ::
    (clockText d.timeOfDay ++ secondsText d.timeOfDay ++ d.offset.elim [] offsetText))

/-- A `datetime` from the year 1 to the year 9999, with an offset of less than a day, which is not
below one second unless it is zero. -/
structure Datetime.Valid (d : Datetime) : Prop where
  first : 0 < d.micros / microsPerDay + 719163
  last : d.micros / microsPerDay + 719163 ≤ maxOrdinal
  offset : ∀ o ∈ d.offset, (o = 0 ∨ 1000000 ≤ o.natAbs) ∧ o.natAbs < microsPerDay

/-! ## Texts with known parts -/

/-- The characters stand at position `i` of the text. -/
def At (text : List Char) (i : ℕ) (chars : List Char) : Prop := chars <+: text.drop i

section Parts

variable {text chars chars' : List Char} {i n width : ℕ} {c : Char}

theorem At.left (h : At text i (chars ++ chars')) : At text i chars :=
  (List.prefix_append chars chars').trans h

theorem At.right (h : At text i (chars ++ chars')) : At text (i + chars.length) chars' := by
  obtain ⟨rest, hrest⟩ := h
  refine ⟨rest, ?_⟩
  rw [← List.drop_drop, ← hrest, List.append_assoc, List.drop_left]

theorem At.tail (h : At text i (c :: chars)) : At text (i + 1) chars := by
  rw [← List.singleton_append] at h
  exact h.right

theorem charAt_of_at (h : At text i (c :: chars)) : charAt text i = c := by
  obtain ⟨rest, hrest⟩ := h
  rw [charAt, List.getD_eq_getElem?_getD, ← List.head?_drop, ← hrest]
  rfl

theorem charAt_of_length_le (h : text.length ≤ i) : charAt text i = '\x00' := by
  rw [charAt, List.getD_eq_default _ _ h]

theorem length_pad (width n : ℕ) : (pad width n).length = width := by
  induction width generalizing n with
  | zero => rfl
  | succ width ih => rw [pad, List.length_append, ih, List.length_singleton]

theorem asciiDigit_digitChar (hn : n < 10) : asciiDigit (Nat.digitChar n) = some n := by
  interval_cases n <;> rfl

/-- The digits of a padded number spell it. -/
theorem parseDigits_of_at (hn : n < 10 ^ width) (h : At text i (pad width n)) :
    parseDigits text i width = some n := by
  induction width generalizing n with
  | zero =>
      obtain rfl : n = 0 := by omega
      rfl
  | succ width ih =>
      have hprefix : parseDigits text i width = some (n / 10) :=
        ih (Nat.div_lt_of_lt_mul (by rwa [← Nat.pow_succ'])) h.left
      have hlast := charAt_of_at h.right
      rw [length_pad] at hlast
      rw [parseDigits] at hprefix ⊢
      rw [List.range_succ, List.foldlM_append, hprefix, Option.bind_eq_bind, Option.bind_some,
        List.foldlM_cons, hlast, asciiDigit_digitChar (Nat.mod_lt n (by decide))]
      show some (10 * (n / 10) + n % 10) = some n
      rw [Nat.div_add_mod]

theorem isDigit_of_mem_pad (width n : ℕ) (h : c ∈ pad width n) : c.isDigit := by
  induction width generalizing n with
  | zero => cases h
  | succ width ih =>
      rcases List.mem_append.mp h with h | h
      · exact ih _ h
      · rw [List.mem_singleton.mp h]
        have hdigits : ∀ d, d < 10 → (Nat.digitChar d).isDigit := by decide
        exact hdigits _ (Nat.mod_lt n (by decide))

end Parts

/-! ## Dates -/

section Dates

variable {text : List Char} {date : ℕ × ℕ × ℕ}

theorem length_dateText (date : ℕ × ℕ × ℕ) : (dateText date).length = 10 := by
  simp [dateText, length_pad]

/-- The parts of a date. -/
theorem at_dateText (h : At text 0 (dateText date)) :
    At text 0 (pad 4 date.1) ∧ charAt text 4 = '-' ∧ At text 5 (pad 2 date.2.1) ∧
      charAt text 7 = '-' ∧ At text 8 (pad 2 date.2.2) := by
  rw [dateText, List.append_assoc] at h
  have hsep := h.right
  rw [length_pad, List.cons_append] at hsep
  have hday := hsep.tail.right
  rw [length_pad] at hday
  exact ⟨h.left, charAt_of_at hsep, hsep.tail.left, charAt_of_at hday, hday.tail⟩

/-- A digit of a month is not the mark of a week. -/
theorem ne_week_of_at {i n : ℕ} (h : At text i (pad 2 n)) : charAt text i ≠ 'W' := by
  have hfirst : At text i (Nat.digitChar (n / 10 % 10) :: [Nat.digitChar (n % 10)]) := h
  rw [charAt_of_at hfirst]
  have hdigit : (Nat.digitChar (n / 10 % 10)).isDigit :=
    isDigit_of_mem_pad 1 (n / 10) (List.mem_singleton_self _)
  intro heq
  rw [heq] at hdigit
  cases hdigit

theorem findSeparator_of_at (h : At text 0 (dateText date)) (hlength : text.length ≠ 7) :
    findSeparator text = some 10 := by
  obtain ⟨-, hsep, hmonth, -⟩ := at_dateText h
  rw [findSeparator]
  dsimp only
  rw [if_neg hlength, if_pos hsep, if_neg (ne_week_of_at hmonth)]

theorem parseDate_of_at (h : At text 0 (dateText date)) (hyear : date.1 < 10000)
    (hmonth : date.2.1 < 100) (hday : date.2.2 < 100) : parseDate text 10 = some date := by
  obtain ⟨hyears, hsep, hmonths, hsep', hdays⟩ := at_dateText h
  rw [parseDate, parseDigits_of_at hyear hyears]
  simp only [Option.bind_eq_bind, Option.bind_some, hsep, if_true, if_neg (ne_week_of_at hmonths),
    parseDigits_of_at hmonth hmonths, hsep', parseDigits_of_at hday hdays]
  simp

end Dates

/-! ## Times -/

section Times

variable {text rest : List Char} {start stop micros : ℕ} {t : ParsedTime}

theorem length_clockText (micros : ℕ) : (clockText micros).length = 5 := by
  simp [clockText, length_pad]

theorem length_secondsText_le (micros : ℕ) : (secondsText micros).length ≤ 10 := by
  rw [secondsText, List.length_append, List.length_cons, length_pad]
  split_ifs <;> simp [length_pad]

/-- The parts of `HH:MM`. -/
theorem at_clockText (h : At text start (clockText micros ++ rest)) :
    At text start (pad 2 (micros / 3600000000)) ∧ charAt text (start + 2) = ':' ∧
      At text (start + 3) (pad 2 (micros / 60000000 % 60)) ∧ At text (start + 5) rest := by
  have hrest := h.right
  rw [length_clockText] at hrest
  have hclock := h.left
  rw [clockText] at hclock
  have hsep := hclock.right
  rw [length_pad] at hsep
  exact ⟨hclock.left, charAt_of_at hsep, hsep.tail, hrest⟩

/-- Hours and minutes. -/
theorem parseClock_of_at (h : At text start (clockText micros)) (hmicros : micros < 86400000000) :
    parseHhMmSsFf text start (start + 5) =
      some ⟨micros / 3600000000, micros / 60000000 % 60, 0, 0, charAt text (start + 5) ≠ '\x00'⟩ := by
  rw [← List.append_nil (clockText micros)] at h
  obtain ⟨hhours, hsep, hminutes, -⟩ := at_clockText h
  have hhour := parseDigits_of_at (show micros / 3600000000 < 10 ^ 2 by omega) hhours
  have hminute := parseDigits_of_at (show micros / 60000000 % 60 < 10 ^ 2 by omega) hminutes
  rw [parseHhMmSsFf, parseComponents, hhour]
  simp only [Option.bind_eq_bind, Option.bind_some, hsep, if_true]
  rw [if_neg (by omega), if_pos ⟨by decide, trivial⟩, parseComponents, hminute]
  simp only [Option.bind_eq_bind, Option.bind_some]
  rw [if_pos (by omega)]
  rfl

/-- Seconds and their fraction. -/
theorem parseSeconds_of_at {p hour minute : ℕ} (h : At text p (secondsText micros).tail)
    (hstop : stop = p + (secondsText micros).tail.length) :
    ∃ left, parseComponents text stop 1 p false true ⟨hour, minute, 0, 0, false⟩ =
        some ⟨hour, minute, micros / 1000000 % 60, micros % 1000000, left⟩ ∧
      (text.length ≤ stop → left = false) := by
  rw [secondsText, List.cons_append, List.tail_cons] at h hstop
  rw [List.length_append, length_pad] at hstop
  have hsecond := parseDigits_of_at (show micros / 1000000 % 60 < 10 ^ 2 by omega) h.left
  rw [parseComponents, hsecond]
  simp only [Option.bind_eq_bind, Option.bind_some]
  by_cases hfraction : micros % 1000000 = 0
  · -- whole seconds are written without a fraction
    rw [if_pos hfraction, List.length_nil] at hstop
    rw [if_pos (by omega), hfraction]
    refine ⟨_, rfl, fun hend => ?_⟩
    rw [charAt_of_length_le (by omega)]
    rfl
  · rw [if_neg hfraction, List.length_cons, length_pad] at hstop
    have hrest := h.right
    rw [if_neg hfraction, length_pad] at hrest
    have hdot : charAt text (p + 2) = '.' := charAt_of_at hrest
    have hmicro : parseDigits text (p + 3) 6 = some (micros % 1000000) :=
      parseDigits_of_at (show micros % 1000000 < 10 ^ 6 by omega) hrest.tail
    have hcount : min (stop - (p + 3)) 6 = 6 := by omega
    rw [if_neg (by omega), hdot, if_neg (by decide), if_pos (Or.inl rfl), parseFraction, hcount,
      hmicro]
    rw [Option.bind_eq_bind, Option.bind_some, Nat.sub_self, Nat.pow_zero, Nat.mul_one]
    refine ⟨_, rfl, fun hend => ?_⟩
    have hskip : text.length ≤ skipDigits text (p + 3 + 6) :=
      (by omega : text.length ≤ p + 3 + 6).trans (Nat.le_add_right _ _)
    rw [charAt_of_length_le hskip]
    rfl

/-- Hours, minutes, seconds and their fraction. -/
theorem parseFull_of_at (h : At text start (clockText micros ++ secondsText micros))
    (hmicros : micros < 86400000000)
    (hstop : stop = start + (clockText micros ++ secondsText micros).length) :
    ∃ left, parseHhMmSsFf text start stop =
        some ⟨micros / 3600000000, micros / 60000000 % 60, micros / 1000000 % 60, micros % 1000000,
          left⟩ ∧
      (text.length ≤ stop → left = false) := by
  obtain ⟨hhours, hsep, hminutes, hseconds⟩ := at_clockText h
  have hcolon : secondsText micros = ':' :: (secondsText micros).tail := rfl
  rw [hcolon] at hseconds
  have hsep' := charAt_of_at hseconds
  have hhour := parseDigits_of_at (show micros / 3600000000 < 10 ^ 2 by omega) hhours
  have hminute := parseDigits_of_at (show micros / 60000000 % 60 < 10 ^ 2 by omega) hminutes
  rw [List.length_append, length_clockText, hcolon, List.length_cons] at hstop
  have htwo : 2 ≤ (secondsText micros).tail.length := by
    rw [secondsText, List.cons_append, List.tail_cons, List.length_append, length_pad]
    omega
  have hclock : parseHhMmSsFf text start stop =
      parseComponents text stop 1 (start + 6) false true
        ⟨micros / 3600000000, micros / 60000000 % 60, 0, 0, false⟩ := by
    rw [parseHhMmSsFf, parseComponents, hhour]
    simp only [Option.bind_eq_bind, Option.bind_some, hsep, if_true]
    rw [if_neg (by omega), if_pos ⟨by decide, trivial⟩, parseComponents, hminute]
    simp only [Option.bind_eq_bind, Option.bind_some, hsep']
    rw [if_neg (by omega), if_pos ⟨by decide, trivial⟩]
    rfl
  rw [hclock]
  exact parseSeconds_of_at hseconds.tail (by omega)

/-- The time of an offset. -/
theorem parseOffset_of_at (h : At text start (clockText micros ++
      if micros % 60000000 = 0 then [] else secondsText micros))
    (hmicros : micros < 86400000000)
    (hlength : text.length = start + (clockText micros ++
      if micros % 60000000 = 0 then [] else secondsText micros).length) :
    parseHhMmSsFf text start text.length =
      some ⟨micros / 3600000000, micros / 60000000 % 60, micros / 1000000 % 60, micros % 1000000,
        false⟩ := by
  by_cases hwhole : micros % 60000000 = 0
  · rw [if_pos hwhole, List.append_nil] at h hlength
    rw [length_clockText] at hlength
    rw [hlength, parseClock_of_at h hmicros, charAt_of_length_le hlength.le,
      show micros / 1000000 % 60 = 0 by omega, show micros % 1000000 = 0 by omega]
    rfl
  · rw [if_neg hwhole] at h hlength
    obtain ⟨left, hparse, hleft⟩ := parseFull_of_at h hmicros hlength
    rw [hparse, hleft le_rfl]

/-- The characters of a time. -/
theorem timeChar_of_mem {c : Char} (h : c ∈ clockText micros ++ secondsText micros) :
    c.isDigit ∨ c = ':' ∨ c = '.' := by
  rcases List.mem_append.mp h with h | h
  · rcases List.mem_append.mp h with h | h
    · exact .inl (isDigit_of_mem_pad _ _ h)
    · rcases List.mem_cons.mp h with h | h
      · exact .inr (.inl h)
      · exact .inl (isDigit_of_mem_pad _ _ h)
  · rcases List.mem_append.mp h with h | h
    · rcases List.mem_cons.mp h with h | h
      · exact .inr (.inl h)
      · exact .inl (isDigit_of_mem_pad _ _ h)
    · split_ifs at h
      · cases h
      · rcases List.mem_cons.mp h with h | h
        · exact .inr (.inr h)
        · exact .inl (isDigit_of_mem_pad _ _ h)

/-- A time has none of the characters with which an offset begins. -/
theorem not_zone_of_mem {c : Char} (h : c ∈ clockText micros ++ secondsText micros) :
    ¬ (c = '+' ∨ c = '-' ∨ c = 'Z') := by
  have hchars := timeChar_of_mem h
  rintro (rfl | rfl | rfl) <;> revert hchars <;> decide

/-- No offset begins where a time does. -/
theorem not_zone_of_at (h : At text start (clockText micros ++ secondsText micros)) :
    ¬ (charAt text start = '+' ∨ charAt text start = '-' ∨ charAt text start = 'Z') := by
  obtain ⟨c, tail, htime⟩ : ∃ c tail, clockText micros ++ secondsText micros = c :: tail :=
    ⟨_, _, rfl⟩
  rw [charAt_of_at (htime ▸ h)]
  exact not_zone_of_mem (htime ▸ List.mem_cons_self)

/-- The components of an offset make its magnitude up again. -/
theorem magnitude_eq {m : ℕ} (h : m = 0 ∨ 1000000 ≤ m) :
    (if (m / 3600000000 * 60 + m / 60000000 % 60) * 60 + m / 1000000 % 60 = 0 then 0 else
      (((m / 3600000000 * 60 + m / 60000000 % 60) * 60 + m / 1000000 % 60) * 1000000 +
        m % 1000000 : ℕ) : ℤ) = m := by
  have hseconds : (m / 3600000000 * 60 + m / 60000000 % 60) * 60 + m / 1000000 % 60 =
      m / 1000000 := by
    omega
  rw [hseconds]
  split_ifs with hzero <;> omega

/-- The sign of an offset. -/
theorem offsetText_eq (o : ℤ) : ∃ sign, (sign = '+' ∨ sign = '-') ∧ (sign = '-' ↔ o < 0) ∧
    offsetText o = sign :: (clockText o.natAbs ++
      if o.natAbs % 60000000 = 0 then [] else secondsText o.natAbs) := by
  rw [offsetText]
  split_ifs with hneg
  · exact ⟨'-', .inr rfl, iff_of_true rfl hneg, rfl⟩
  · exact ⟨'-', .inr rfl, iff_of_true rfl hneg, rfl⟩
  · exact ⟨'+', .inl rfl, iff_of_false (by decide) hneg, rfl⟩
  · exact ⟨'+', .inl rfl, iff_of_false (by decide) hneg, rfl⟩

/-- Where the time ends. -/
theorem zone_of_drop {o : Option ℤ}
    (h : text.drop start = clockText micros ++ secondsText micros ++ o.elim [] offsetText) :
    start + 1 + ((text.drop (start + 1)).takeWhile fun c => ¬ (c = '+' ∨ c = '-' ∨ c = 'Z')).length =
      start + (clockText micros ++ secondsText micros).length := by
  have hzone : (o.elim [] offsetText).takeWhile
      (fun c => decide (¬ (c = '+' ∨ c = '-' ∨ c = 'Z'))) = [] := by
    rcases o with _ | o
    · rfl
    · obtain ⟨sign, hsign, -, htext⟩ := offsetText_eq o
      rw [Option.elim_some, htext, List.takeWhile_cons_of_neg]
      rcases hsign with rfl | rfl <;> decide
  have htail : text.drop (start + 1) =
      (clockText micros ++ secondsText micros).tail ++ o.elim [] offsetText := by
    rw [← List.drop_drop, h, List.drop_one, List.tail_append_of_ne_nil]
    exact List.ne_nil_of_length_pos (by rw [List.length_append, length_clockText]; omega)
  rw [htail, List.takeWhile_append_of_pos, hzone, List.append_nil, List.length_tail,
    List.length_append, length_clockText]
  · omega
  · intro c hc
    exact decide_eq_true (not_zone_of_mem (List.mem_of_mem_tail hc))

/-- A time with its offset, at the end of a text. -/
theorem parseTime_of_drop {o : Option ℤ}
    (h : text.drop start = clockText micros ++ secondsText micros ++ o.elim [] offsetText)
    (hmicros : micros < 86400000000)
    (hoffset : ∀ n ∈ o, (n = 0 ∨ 1000000 ≤ n.natAbs) ∧ n.natAbs < microsPerDay) :
    ∃ left, parseTime text start = some (⟨micros / 3600000000, micros / 60000000 % 60,
      micros / 1000000 % 60, micros % 1000000, left⟩, o) := by
  have hat : At text start (clockText micros ++ secondsText micros ++ o.elim [] offsetText) :=
    ⟨[], by rw [h, List.append_nil]⟩
  obtain ⟨left, hparse, hleft⟩ := parseFull_of_at hat.left hmicros rfl
  have hlength : text.length =
      start + (clockText micros ++ secondsText micros).length + (o.elim [] offsetText).length := by
    have hdrop := congrArg List.length h
    rw [List.length_drop, List.length_append, List.length_append, length_clockText] at hdrop
    rw [List.length_append, length_clockText]
    omega
  have hzone := zone_of_drop h
  have hrest := hat.right
  generalize hstop : start + (clockText micros ++ secondsText micros).length = stop at *
  rw [parseTime]
  dsimp only
  rw [if_neg (not_zone_of_at hat.left), hzone, hparse, Option.bind_eq_bind, Option.bind_some]
  refine ⟨left, ?_⟩
  rcases o with _ | o
  · -- without an offset the time ends the text
    rw [Option.elim_none, List.length_nil, Nat.add_zero] at hlength
    rw [if_pos hlength.le, hleft hlength.le]
    rfl
  · obtain ⟨sign, hsign, hneg, htext⟩ := offsetText_eq o
    obtain ⟨hrange, hday⟩ := hoffset o rfl
    rw [Option.elim_some, htext] at hlength hrest
    rw [List.length_cons] at hlength
    have hminus : charAt text stop = sign := charAt_of_at hrest
    have hmicros' : o.natAbs < 86400000000 := by
      rw [microsPerDay] at hday
      omega
    have hutc : charAt text stop ≠ 'Z' := by
      rw [hminus]
      rcases hsign with rfl | rfl <;> decide
    have hoffset := parseOffset_of_at hrest.tail hmicros' (by omega)
    rw [if_neg (by omega), if_neg hutc, hoffset]
    rw [Option.bind_some, if_neg Bool.false_ne_true, hminus]
    simp only [hneg, magnitude_eq (show o.natAbs = 0 ∨ 1000000 ≤ o.natAbs by omega)]
    congr
    split_ifs <;> omega

end Times

/-! ## Written and read back -/

section RoundTrip

variable {d : Datetime} {text : List Char} {t t' : ParsedTime}

/-- A date is that of its day. -/
theorem Datetime.Valid.ordinal (h : d.Valid) : 0 < d.ordinal ∧ d.ordinal ≤ maxOrdinal ∧
    (d.ordinal : ℤ) = d.micros / microsPerDay + 719163 := by
  have hfirst := h.first
  have hlast := h.last
  rw [Datetime.ordinal]
  omega

theorem timeOfDay_spec (d : Datetime) :
    d.timeOfDay < 86400000000 ∧ (d.timeOfDay : ℤ) = d.micros % microsPerDay := by
  rw [Datetime.timeOfDay, microsPerDay]
  omega

/-- The date and the time of a `datetime` make it up again. -/
theorem makeDatetime_of_valid (h : d.Valid) (left : Bool) :
    makeDatetime (ofOrdinal d.ordinal) ⟨d.timeOfDay / 3600000000, d.timeOfDay / 60000000 % 60,
      d.timeOfDay / 1000000 % 60, d.timeOfDay % 1000000, left⟩ d.offset = some d := by
  obtain ⟨hpos, hmax, hordinal⟩ := h.ordinal
  obtain ⟨htime, hmicros⟩ := timeOfDay_spec d
  have hoffset : -microsPerDay < d.offset.getD 0 ∧ d.offset.getD 0 < microsPerDay := by
    rcases hnone : d.offset with _ | o
    · decide
    · have hday := (h.offset o hnone).2
      rw [Option.getD_some]
      omega
  have hmonth := ofOrdinal_month hpos
  have hday := day_bounds hpos
  have hsame : epochMicros (ofOrdinal d.ordinal).1 (ofOrdinal d.ordinal).2.1
      (ofOrdinal d.ordinal).2.2 (d.timeOfDay / 3600000000) (d.timeOfDay / 60000000 % 60)
      (d.timeOfDay / 1000000 % 60) (d.timeOfDay % 1000000) = d.micros := by
    rw [epochMicros, toOrdinal_ofOrdinal hpos, hordinal]
    rw [microsPerDay] at hmicros ⊢
    omega
  rw [makeDatetime]
  dsimp only
  rw [if_pos ⟨one_le_year hpos, year_le hpos hmax, hmonth.1, hmonth.2, hday.1, hday.2, by omega,
    by omega, by omega, hoffset.1, hoffset.2⟩, hsame]

theorem length_isoformat_le (d : Datetime) : d.isoformat.length ≤ 42 := by
  have hseconds := length_secondsText_le d.timeOfDay
  have hoffset : (d.offset.elim [] offsetText).length ≤ 16 := by
    rcases d.offset with _ | o
    · exact Nat.zero_le _
    · have hseconds := length_secondsText_le o.natAbs
      show (offsetText o).length ≤ 16
      rw [offsetText, List.length_append, List.length_cons, length_clockText]
      split_ifs
      · simp
      · omega
  rw [Datetime.isoformat, ← String.length_toList, String.toList_ofList]
  simp only [List.length_append, List.length_cons, length_dateText, length_clockText]
  omega

/-! ### Bytes -/

/-- The characters of an ASCII text are its bytes. -/
theorem cString_of_ascii {s : String} (h : ∀ c ∈ s.toList, c.toNat < 128) : cString s = s.toList := by
  rw [cString, encode]
  generalize s.toList = chars at h
  induction chars with
  | nil => rfl
  | cons c chars ih =>
      obtain ⟨hc, hchars⟩ := List.forall_mem_cons.mp h
      have hbyte : (String.utf8EncodeChar c).map (fun b => Char.ofNat b.toNat) = [c] := by
        have hencode := encodeChar_one (n := c.toNat) (by omega)
        rw [Char.ofNat_toNat] at hencode
        rw [hencode, List.map_singleton, toNat_ofNat_of_lt (by omega), Char.ofNat_toNat]
      rw [List.flatMap_cons, List.map_append, hbyte, ih hchars]
      rfl

theorem timeChar_lt {c : Char} (h : c.isDigit ∨ c = ':' ∨ c = '.') : c.toNat < 128 := by
  rcases h with h | rfl | rfl
  · have hdigit : 48 ≤ c.toNat ∧ c.toNat ≤ 57 := Char.isDigit_iff_toNat.mp h
    omega
  · decide
  · decide

/-- The date, the time and the offset are written in ASCII. -/
theorem isoformat_ascii (d : Datetime) : ∀ c ∈ d.isoformat.toList, c.toNat < 128 := by
  have hpad : ∀ width n, ∀ c ∈ pad width n, c.toNat < 128 := fun width n c hc =>
    timeChar_lt (.inl (isDigit_of_mem_pad width n hc))
  have htime : ∀ micros, ∀ c ∈ clockText micros ++ secondsText micros, c.toNat < 128 :=
    fun micros c hc => timeChar_lt (timeChar_of_mem hc)
  intro c hc
  rw [Datetime.isoformat, String.toList_ofList] at hc
  rcases List.mem_append.mp hc with hdate | hc
  · rcases List.mem_append.mp hdate with hdate | hday
    · rcases List.mem_append.mp hdate with hyear | hmonth
      · exact hpad _ _ c hyear
      · rcases List.mem_cons.mp hmonth with rfl | hmonth
        · decide
        · exact hpad _ _ c hmonth
    · rcases List.mem_cons.mp hday with rfl | hday
      · decide
      · exact hpad _ _ c hday
  rcases List.mem_cons.mp hc with rfl | hc
  · decide
  rcases List.mem_append.mp hc with hclock | hoffset
  · exact htime _ c hclock
  obtain ⟨o, hoffset⟩ : ∃ o, c ∈ offsetText o := by
    rcases hnone : d.offset with _ | o
    · rw [hnone] at hoffset
      cases hoffset
    · rw [hnone] at hoffset
      exact ⟨o, hoffset⟩
  obtain ⟨sign, hsign, -, htext⟩ := offsetText_eq o
  rw [htext] at hoffset
  rcases List.mem_cons.mp hoffset with rfl | hoffset
  · rcases hsign with rfl | rfl <;> decide
  rcases List.mem_append.mp hoffset with hclock | hseconds
  · exact htime _ c (List.mem_append_left _ hclock)
  · split_ifs at hseconds
    · cases hseconds
    · exact htime _ c (List.mem_append_right _ hseconds)

/-- `fromisoformat` reads what `isoformat` writes. -/
theorem fromisoformat_isoformat (h : d.Valid) : fromisoformat d.isoformat = some d := by
  obtain ⟨hpos, hmax, -⟩ := h.ordinal
  have hmonth := ofOrdinal_month hpos
  have hday := day_bounds hpos
  have hyear := year_le hpos hmax
  generalize htext : dateText (ofOrdinal d.ordinal) ++ 'T' ::
    (clockText d.timeOfDay ++ secondsText d.timeOfDay ++ d.offset.elim [] offsetText) = text
  have hdate : At text 0 (dateText (ofOrdinal d.ordinal)) := ⟨_, htext⟩
  have hlength : 11 ≤ text.length := by
    rw [← htext, List.length_append, length_dateText, List.length_cons]
    omega
  have hdrop : text.drop 11 =
      clockText d.timeOfDay ++ secondsText d.timeOfDay ++ d.offset.elim [] offsetText := by
    rw [← htext, List.append_cons]
    exact List.drop_left' (by rw [List.length_append, length_dateText]; rfl)
  obtain ⟨left, htime⟩ := parseTime_of_drop hdrop (timeOfDay_spec d).1 h.offset
  have hdays : (ofOrdinal d.ordinal).2.2 < 100 := by
    have hlong : daysInMonth (ofOrdinal d.ordinal).1 (ofOrdinal d.ordinal).2.1 ≤ 31 := by
      rw [daysInMonth]
      split_ifs <;> omega
    omega
  have hbytes : cString d.isoformat = text := by
    rw [cString_of_ascii (isoformat_ascii d), Datetime.isoformat, String.toList_ofList, htext]
  have hlong : ¬ d.isoformat.length < 7 := by
    rw [← String.length_toList, Datetime.isoformat, String.toList_ofList, htext]
    omega
  have hwidth : byteWidth (charAt text 10) = 1 := by
    have hat : At text 10 ['T'] := ⟨_, by rw [← htext, List.drop_left' (by simp [length_dateText])]; rfl⟩
    rw [charAt_of_at hat]
    decide
  rw [fromisoformat, hbytes]
  dsimp only
  rw [if_neg hlong, findSeparator_of_at hdate (by omega), Option.bind_eq_bind, Option.bind_some,
    parseDate_of_at hdate (by omega) (by omega) hdays, Option.bind_eq_bind, Option.bind_some,
    if_pos (by omega), hwidth, htime]
  exact makeDatetime_of_valid h left

end RoundTrip

/-! ## What can be read -/

section Range

variable {text : List Char} {i p start stop width n fuel : ℕ} {first sep : Bool} {t t' : ParsedTime}

theorem parseDigits_lt (h : parseDigits text i width = some n) : n < 10 ^ width := by
  induction width generalizing n with
  | zero =>
      cases h
      decide
  | succ width ih =>
      rw [parseDigits, List.range_succ, List.foldlM_append] at h
      obtain ⟨m, hm, hlast⟩ := Option.bind_eq_some_iff.mp h
      obtain ⟨k, hk, hn⟩ := Option.bind_eq_some_iff.mp hlast
      obtain ⟨digit, hdigit, rfl⟩ := Option.map_eq_some_iff.mp hk
      cases hn
      have hprefix := ih hm
      rw [asciiDigit] at hdigit
      split_ifs at hdigit
      cases hdigit
      rw [Nat.pow_succ]
      omega

/-- A fraction is below one second. -/
theorem micro_of_parseFraction (h : parseFraction text p stop t = some t') : t'.micro < 1000000 := by
  obtain ⟨m, hm, heq⟩ := Option.bind_eq_some_iff.mp h
  cases heq
  have hcount : min (stop - p) 6 + (6 - min (stop - p) 6) = 6 := by omega
  calc m * 10 ^ (6 - min (stop - p) 6)
      < 10 ^ min (stop - p) 6 * 10 ^ (6 - min (stop - p) 6) :=
        Nat.mul_lt_mul_of_pos_right (parseDigits_lt hm) (Nat.pow_pos (by decide))
    _ = 1000000 := by rw [← Nat.pow_add, hcount]

/-- A component changes no fraction, and is the last one or is followed by others. -/
theorem parseComponents_cases
    (h : parseComponents text stop (fuel + 1) p first sep t = some t') :
    t'.micro = t.micro ∨ ∃ (t₁ : ParsedTime) (q : ℕ), t₁.micro = t.micro ∧
      ((∃ sep', parseComponents text stop fuel q false sep' t₁ = some t') ∨
        parseFraction text q stop t₁ = some t') := by
  rw [parseComponents] at h
  obtain ⟨m, -, h⟩ := Option.bind_eq_some_iff.mp h
  rcases fuel with _ | _ | _ | fuel
  all_goals
    dsimp only at h
    split_ifs at h
    all_goals first
      | (refine .inr ⟨_, _, ?_, .inl ⟨_, h⟩⟩; rfl)
      | (refine .inr ⟨_, _, ?_, .inr h⟩; rfl)
      | (cases h; exact .inl rfl)

theorem micro_of_parseComponents (ht : t.micro < 1000000)
    (h : parseComponents text stop fuel p first sep t = some t') : t'.micro < 1000000 := by
  induction fuel generalizing p first sep t with
  | zero => exact micro_of_parseFraction h
  | succ fuel ih =>
      rcases parseComponents_cases h with hlast | ⟨t₁, q, ht₁, ⟨sep', hmore⟩ | hfraction⟩
      · omega
      · exact ih (by omega) hmore
      · exact micro_of_parseFraction hfraction

theorem micro_of_parseHhMmSsFf (h : parseHhMmSsFf text start stop = some t) : t.micro < 1000000 :=
  micro_of_parseComponents (by decide) h

/-- An offset that is not zero is at least one second. -/
theorem parseTime_range {o : Option ℤ} (h : parseTime text start = some (t, o)) :
    t.micro < 1000000 ∧ ∀ n ∈ o, n = 0 ∨ 1000000 ≤ n.natAbs := by
  rw [parseTime] at h
  generalize (if charAt text start = '+' ∨ charAt text start = '-' ∨ charAt text start = 'Z' then start
    else start + 1 + ((text.drop (start + 1)).takeWhile
      fun c => ¬ (c = '+' ∨ c = '-' ∨ c = 'Z')).length) = zone at h
  obtain ⟨t₁, ht, h⟩ := Option.bind_eq_some_iff.mp h
  have hmicro := micro_of_parseHhMmSsFf ht
  -- no offset
  by_cases hend : text.length ≤ zone
  · rw [if_pos hend] at h
    split_ifs at h
    cases h
    exact ⟨hmicro, nofun⟩
  rw [if_neg hend] at h
  -- the offset Z
  by_cases hzulu : charAt text zone = 'Z'
  · rw [if_pos hzulu] at h
    split_ifs at h
    cases h
    refine ⟨hmicro, ?_⟩
    rintro _ ⟨⟩
    exact .inl rfl
  · rw [if_neg hzulu] at h
    obtain ⟨z, -, h⟩ := Option.bind_eq_some_iff.mp h
    dsimp only at h
    split_ifs at h
    all_goals
      cases h
      refine ⟨hmicro, ?_⟩
      rintro _ ⟨⟩
      omega

/-- The range checks of the constructors. -/
theorem valid_of_makeDatetime {date : ℕ × ℕ × ℕ} {o : Option ℤ} {d : Datetime}
    (hmicro : t.micro < 1000000) (ho : ∀ n ∈ o, n = 0 ∨ 1000000 ≤ n.natAbs)
    (h : makeDatetime date t o = some d) : d.Valid := by
  obtain ⟨year, month, day⟩ := date
  rw [makeDatetime] at h
  split_ifs at h with hrange
  cases h
  obtain ⟨hyear, hyear', hmonth, hmonth', hday, hday', hhour, hminute, hsecond, hlow, hhigh⟩ := hrange
  obtain ⟨hpos, hmax⟩ := toOrdinal_bounds ⟨hyear, hyear'⟩ ⟨hmonth, hmonth'⟩ ⟨hday, hday'⟩
  have hordinal : epochMicros year month day t.hour t.minute t.second t.micro / microsPerDay + 719163 =
      toOrdinal year month day := by
    rw [epochMicros, microsPerDay]
    omega
  refine ⟨?_, ?_, ?_⟩
  · show 0 < epochMicros year month day t.hour t.minute t.second t.micro / microsPerDay + 719163
    omega
  · show epochMicros year month day t.hour t.minute t.second t.micro / microsPerDay + 719163 ≤ _
    omega
  · rintro n hn
    have hn' : o = some n := hn
    rw [hn', Option.getD_some] at hlow hhigh
    exact ⟨ho n hn, by omega⟩

/-- What `fromisoformat` returns is in the range of `datetime`. -/
theorem valid_of_fromisoformat {text : String} {d : Datetime} (h : fromisoformat text = some d) :
    d.Valid := by
  rw [fromisoformat] at h
  dsimp only at h
  split_ifs at h
  obtain ⟨separator, -, h⟩ := Option.bind_eq_some_iff.mp h
  obtain ⟨date, -, h⟩ := Option.bind_eq_some_iff.mp h
  split_ifs at h
  · obtain ⟨⟨t, o⟩, ht, h⟩ := Option.bind_eq_some_iff.mp h
    obtain ⟨hmicro, ho⟩ := parseTime_range ht
    exact valid_of_makeDatetime hmicro ho h
  · exact valid_of_makeDatetime (by decide) (by rintro _ ⟨⟩) h

end Range

end Python

import HiringService.Python.Datetime

/-!
# Dates and their ordinals

The days from 0001-01-01 to 9999-12-31 have the ordinals from 1 to 3652059. `ofOrdinal` gives the
date of an ordinal, and `toOrdinal` takes it back.
-/

namespace Python

/-- Of the first values of an increasing sequence, those below a bound come first. -/
theorem lt_length_filter_iff {f : ℕ → ℕ} (hf : Monotone f) (bound : ℕ) {m n : ℕ} (hm : m < n) :
    m < ((List.range n).filter fun i => f i < bound).length ↔ f m < bound := by
  induction n with
  | zero => omega
  | succ n ih =>
      by_cases hn : f n < bound
      · have hall : ∀ i ∈ List.range (n + 1), decide (f i < bound) = true := by
          intro i hi
          have hle : f i ≤ f n := hf (Nat.lt_succ_iff.mp (List.mem_range.mp hi))
          exact decide_eq_true (hle.trans_lt hn)
        rw [List.filter_eq_self.mpr hall, List.length_range]
        exact iff_of_true hm ((hf (Nat.lt_succ_iff.mp hm)).trans_lt hn)
      · rw [List.range_succ, List.filter_append, List.filter_cons_of_neg (by simpa using hn),
          List.filter_nil, List.append_nil]
        rcases Nat.lt_succ_iff_lt_or_eq.mp hm with hlt | rfl
        · exact ih hlt
        · have hlength := List.length_filter_le (fun i => decide (f i < bound)) (List.range m)
          rw [List.length_range] at hlength
          exact iff_of_false (by omega) hn

section Calendar

variable {year month day n : ℕ}

/-! ## Years and months -/

/-- The number of days of a year. -/
def daysInYear (year : ℕ) : ℕ := if isLeap year then 366 else 365

theorem daysBeforeYear_succ (h : 1 ≤ year) :
    daysBeforeYear (year + 1) = daysBeforeYear year + daysInYear year := by
  obtain ⟨year, rfl⟩ := Nat.exists_eq_add_of_le' h
  have hleap : isLeap (year + 1) = true ↔
      4 ∣ year + 1 ∧ (¬ 100 ∣ year + 1 ∨ 400 ∣ year + 1) := by
    simp [isLeap, Nat.dvd_iff_mod_eq_zero]
  have hcenturies : year / 100 ≤ year / 4 := Nat.div_le_div_left (by decide) (by decide)
  rw [daysBeforeYear, daysBeforeYear, daysInYear, Nat.add_sub_cancel, Nat.add_sub_cancel,
    Nat.succ_div, Nat.succ_div, Nat.succ_div]
  simp only [hleap]
  -- a multiple of 400 is one of 100, and a multiple of 100 is one of 4
  have hfour : 100 ∣ year + 1 → 4 ∣ year + 1 := Nat.dvd_trans (by decide)
  have hhundred : 400 ∣ year + 1 → 100 ∣ year + 1 := Nat.dvd_trans (by decide)
  split_ifs <;> omega

theorem daysBeforeMonth_succ (h : 1 ≤ month) :
    daysBeforeMonth year (month + 1) = daysBeforeMonth year month + daysInMonth year month := by
  obtain ⟨month, rfl⟩ := Nat.exists_eq_add_of_le' h
  simp [daysBeforeMonth, List.range_succ]

theorem monotone_daysBeforeMonth (year : ℕ) : Monotone fun m => daysBeforeMonth year (m + 1) := by
  refine monotone_nat_of_le_succ fun m => ?_
  rw [daysBeforeMonth_succ (Nat.succ_pos m)]
  exact Nat.le_add_right _ _

theorem daysBeforeMonth_thirteen (year : ℕ) : daysBeforeMonth year 13 = daysInYear year := by
  rw [daysInYear]
  rcases hleap : isLeap year with _ | _ <;>
    simp [daysBeforeMonth, List.range_succ, daysInMonth, hleap]

/-- The months of a date together have the days of its year. -/
theorem daysBeforeMonth_add_le (hmonth : 1 ≤ month ∧ month ≤ 12) (hday : day ≤ daysInMonth year month) :
    daysBeforeMonth year month + day ≤ daysInYear year := by
  have hmonotone := monotone_daysBeforeMonth year (show month ≤ 12 from hmonth.2)
  dsimp only at hmonotone
  rw [daysBeforeMonth_succ hmonth.1, daysBeforeMonth_thirteen] at hmonotone
  omega

/-! ## The date of an ordinal -/

theorem one_le_year (hn : 0 < n) : 1 ≤ (ofOrdinal n).1 := by
  rw [ofOrdinal]
  dsimp only
  split_ifs with hnext hguess
  · omega
  · omega
  · rw [daysBeforeYear] at hguess
    omega

theorem le_daysBeforeYear_succ (n : ℕ) : n ≤ daysBeforeYear ((ofOrdinal n).1 + 1) := by
  rw [ofOrdinal]
  dsimp only
  split_ifs with hnext hguess
  · rw [daysBeforeYear] at hnext ⊢
    omega
  · omega
  · rw [daysBeforeYear] at hguess ⊢
    omega

/-- The day of the year. -/
theorem dayOfYear_bounds (hn : 0 < n) : 0 < n - daysBeforeYear (ofOrdinal n).1 ∧
    n - daysBeforeYear (ofOrdinal n).1 ≤ daysInYear (ofOrdinal n).1 := by
  have hyear := daysBeforeYear_ofOrdinal_lt hn
  have hnext := le_daysBeforeYear_succ n
  rw [daysBeforeYear_succ (one_le_year hn)] at hnext
  omega

/-- The day is in the month that the date has. -/
theorem dayOfMonth_bounds (hn : 0 < n) :
    daysBeforeMonth (ofOrdinal n).1 (ofOrdinal n).2.1 < n - daysBeforeYear (ofOrdinal n).1 ∧
      n - daysBeforeYear (ofOrdinal n).1 ≤
        daysBeforeMonth (ofOrdinal n).1 ((ofOrdinal n).2.1 + 1) := by
  obtain ⟨hfirst, hlast⟩ := ofOrdinal_month hn
  obtain ⟨-, hlength⟩ := dayOfYear_bounds hn
  have hmonth : (ofOrdinal n).2.1 = ((List.range 12).filter fun m =>
      daysBeforeMonth (ofOrdinal n).1 (m + 1) < n - daysBeforeYear (ofOrdinal n).1).length := rfl
  have hcount := fun {m : ℕ} (hm : m < 12) =>
    lt_length_filter_iff (monotone_daysBeforeMonth (ofOrdinal n).1)
      (n - daysBeforeYear (ofOrdinal n).1) hm
  rw [← hmonth] at hcount
  generalize (ofOrdinal n).2.1 = month at hfirst hlast hcount ⊢
  obtain ⟨month, rfl⟩ := Nat.exists_eq_add_of_le' hfirst
  refine ⟨(hcount (by omega)).mp (Nat.lt_succ_self month), ?_⟩
  rcases Nat.lt_or_ge (month + 1) 12 with hlt | hge
  · by_contra hbelow
    exact absurd ((hcount hlt).mpr (not_le.mp hbelow)) (lt_irrefl _)
  · obtain rfl : month = 11 := by omega
    exact hlength.trans (daysBeforeMonth_thirteen _).ge

/-- The date of an ordinal has this ordinal. -/
theorem toOrdinal_ofOrdinal (hn : 0 < n) :
    toOrdinal (ofOrdinal n).1 (ofOrdinal n).2.1 (ofOrdinal n).2.2 = n := by
  have hday : (ofOrdinal n).2.2 = n - daysBeforeYear (ofOrdinal n).1 -
      daysBeforeMonth (ofOrdinal n).1 (ofOrdinal n).2.1 := rfl
  have hyear := daysBeforeYear_ofOrdinal_lt hn
  have hmonth := (dayOfMonth_bounds hn).1
  rw [toOrdinal, hday]
  omega

/-- The date of an ordinal is a day of its month. -/
theorem day_bounds (hn : 0 < n) : 1 ≤ (ofOrdinal n).2.2 ∧
    (ofOrdinal n).2.2 ≤ daysInMonth (ofOrdinal n).1 (ofOrdinal n).2.1 := by
  have hday : (ofOrdinal n).2.2 = n - daysBeforeYear (ofOrdinal n).1 -
      daysBeforeMonth (ofOrdinal n).1 (ofOrdinal n).2.1 := rfl
  obtain ⟨hlow, hhigh⟩ := dayOfMonth_bounds hn
  rw [daysBeforeMonth_succ (ofOrdinal_month hn).1] at hhigh
  omega

/-! ## The range of `datetime` -/

/-- The ordinal of 9999-12-31. -/
def maxOrdinal : ℕ := 3652059

theorem year_le (hn : 0 < n) (h : n ≤ maxOrdinal) : (ofOrdinal n).1 ≤ 9999 := by
  have hyear := daysBeforeYear_ofOrdinal_lt hn
  by_contra hlate
  rw [maxOrdinal] at h
  rw [daysBeforeYear] at hyear
  omega

theorem toOrdinal_bounds (hyear : 1 ≤ year ∧ year ≤ 9999) (hmonth : 1 ≤ month ∧ month ≤ 12)
    (hday : 1 ≤ day ∧ day ≤ daysInMonth year month) :
    0 < toOrdinal year month day ∧ toOrdinal year month day ≤ maxOrdinal := by
  have hlength := daysBeforeMonth_add_le hmonth hday.2
  have hnext := daysBeforeYear_succ hyear.1
  have hlast : daysBeforeYear (year + 1) ≤ maxOrdinal := by
    rw [daysBeforeYear, maxOrdinal]
    omega
  rw [toOrdinal]
  omega

end Calendar

end Python

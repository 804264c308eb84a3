import EffortRank.Time.Instant

/-!
# Days and dates

Every day has a date of the calendar, and the date leads back to the day (`toDays_ofDays`). A day of
an era of 400 years is split into centuries, spans of four years, years and days; the last day of
the longer spans is the one that does not fit into the shorter ones.
-/

namespace EffortRank

namespace Date

/-- A day of an era as centuries, spans of four years, years and days. A year has a 366th day at the
end of four years, but not at the end of a century unless that ends the era. -/
structure DayOfEra where
  century : Int
  span : Int
  year : Int
  day : Int
  century_bounds : 0 ≤ century ∧ century ≤ 3
  span_bounds : 0 ≤ span ∧ span ≤ 24
  year_bounds : 0 ≤ year ∧ year ≤ 3
  day_bounds : 0 ≤ day ∧ day ≤ 365
  leap : day = 365 → year = 3 ∧ (span = 24 → century = 3)

namespace DayOfEra

def index (d : DayOfEra) : Int := 36524 * d.century + 1461 * d.span + 365 * d.year + d.day

def yearIndex (d : DayOfEra) : Int := 100 * d.century + 4 * d.span + d.year

theorem exists_index {n : Int} (hn : 0 ≤ n) (hlt : n < 146097) : ∃ d : DayOfEra, d.index = n := by
  obtain ⟨c, hc, hrest⟩ : ∃ c : Int, (0 ≤ c ∧ c ≤ 3) ∧ 0 ≤ n - 36524 * c ∧
      (n - 36524 * c ≤ 36523 ∨ c = 3 ∧ n - 36524 * c ≤ 36524) :=
    ⟨min (n / 36524) 3, by omega, by omega, by omega⟩
  obtain ⟨s, hs, hrest'⟩ : ∃ s : Int, (0 ≤ s ∧ s ≤ 24) ∧ 0 ≤ n - 36524 * c - 1461 * s ∧
      n - 36524 * c - 1461 * s ≤ 1460 :=
    ⟨(n - 36524 * c) / 1461, by omega, by omega, by omega⟩
  obtain ⟨y, hy, hrest''⟩ : ∃ y : Int, (0 ≤ y ∧ y ≤ 3) ∧ 0 ≤ n - 36524 * c - 1461 * s - 365 * y ∧
      (n - 36524 * c - 1461 * s - 365 * y ≤ 364 ∨
        y = 3 ∧ n - 36524 * c - 1461 * s - 365 * y ≤ 365) :=
    ⟨min ((n - 36524 * c - 1461 * s) / 365) 3, by omega, by omega, by omega⟩
  refine ⟨⟨c, s, y, n - 36524 * c - 1461 * s - 365 * y, hc, hs, hy, by omega, by omega⟩, ?_⟩
  simp only [index]
  omega

variable (d : DayOfEra)

theorem yearIndex_bounds : 0 ≤ d.yearIndex ∧ d.yearIndex < 400 := by
  have hc := d.century_bounds
  have hs := d.span_bounds
  have hy := d.year_bounds
  rw [yearIndex]
  omega

/-- The year in which the day lies, as `ofDays` counts it: the days of leap years are taken away
before the division. -/
theorem year_eq :
    (d.index - d.index / 1460 + d.index / 36524 - d.index / 146096) / 365 = d.yearIndex := by
  obtain ⟨c, s, y, r, hc, hs, hy, hr, hleap⟩ := d
  simp only [index, yearIndex] at *
  have hcenturies : (36524 * c + 1461 * s + 365 * y + r) / 36524 -
      (36524 * c + 1461 * s + 365 * y + r) / 146096 = c := by
    have hrest : 1461 * s + 365 * y + r ≤ 36523 ∨ c = 3 ∧ 1461 * s + 365 * y + r = 36524 := by
      omega
    rcases hrest with hrest | ⟨rfl, hrest⟩
    · have hcentury : (36524 * c + 1461 * s + 365 * y + r) / 36524 = c := by omega
      have hera : (36524 * c + 1461 * s + 365 * y + r) / 146096 = 0 := by omega
      omega
    · omega
  obtain ⟨l, hspans, hl⟩ : ∃ l : Int, (36524 * c + 1461 * s + 365 * y + r) / 1460 =
      25 * c + s + l ∧ (l = 0 ∧ 24 * c + s + 365 * y + r < 1460 ∨
        l = 1 ∧ 1460 ≤ 24 * c + s + 365 * y + r) :=
    ⟨(24 * c + s + 365 * y + r) / 1460, by omega, by omega⟩
  rw [hspans]
  omega

/-- The days of the era before a year. -/
theorem daysBefore_eq :
    365 * d.yearIndex + d.yearIndex / 4 - d.yearIndex / 100 = d.index - d.day := by
  obtain ⟨c, s, y, r, hc, hs, hy, hr, hleap⟩ := d
  simp only [index, yearIndex] at *
  have hcenturies : (100 * c + 4 * s + y) / 100 = c := by omega
  have hspans : (100 * c + 4 * s + y) / 4 = 25 * c + s := by omega
  rw [hcenturies, hspans]
  omega

/-- A year that has a 366th day ends in a leap year. -/
theorem isLeapYear_of_last (era : Int) (h : d.day = 365) :
    isLeapYear (d.yearIndex + era * 400 + 1) = true := by
  obtain ⟨hyear, hspan⟩ := d.leap h
  have hc := d.century_bounds
  have hs := d.span_bounds
  rw [isLeapYear, yearIndex, hyear, Bool.and_eq_true, Bool.or_eq_true, bne_iff_ne, beq_iff_eq,
    beq_iff_eq]
  omega

/-- The months are counted from March. -/
theorem exists_month : ∃ m : Int, (5 * d.day + 2) / 153 = m ∧ 0 ≤ m ∧ m ≤ 11 := by
  have hday := d.day_bounds
  exact ⟨_, rfl, by omega, by omega⟩

end DayOfEra

/-- The date of a day of an era. -/
def ofDayOfEra (era : Int) (d : DayOfEra) : Date :=
  let monthFromMarch := (5 * d.day + 2) / 153
  let month := if monthFromMarch < 10 then monthFromMarch + 3 else monthFromMarch - 9
  ⟨d.yearIndex + era * 400 + (if month ≤ 2 then 1 else 0), month,
    d.day - (153 * monthFromMarch + 2) / 5 + 1⟩

theorem exists_ofDays_eq (days : Int) : ∃ (era : Int) (d : DayOfEra),
    days = era * 146097 + d.index - 719468 ∧ ofDays days = ofDayOfEra era d := by
  obtain ⟨d, hd⟩ := DayOfEra.exists_index
    (show 0 ≤ days + 719468 - (days + 719468) / 146097 * 146097 by omega) (by omega)
  refine ⟨(days + 719468) / 146097, d, by omega, ?_⟩
  have hday : d.index - (365 * d.yearIndex + d.yearIndex / 4 - d.yearIndex / 100) = d.day := by
    rw [d.daysBefore_eq]
    omega
  unfold ofDays ofDayOfEra
  dsimp only
  rw [← hd, d.year_eq, hday]

/-- **A date leads back to its day.** -/
theorem toDays_ofDays (days : Int) : (ofDays days).toDays = days := by
  obtain ⟨era, d, hdays, hdate⟩ := exists_ofDays_eq days
  rw [hdate, hdays]
  have hyear := d.yearIndex_bounds
  have hbefore := d.daysBefore_eq
  have hday := d.day_bounds
  obtain ⟨m, hm, hbounds⟩ := d.exists_month
  have hmonth : ((if m < 10 then m + 3 else m - 9) + 9) % 12 = m := by
    split <;> omega
  have hmarch : (if (if m < 10 then m + 3 else m - 9) ≤ 2 then
      d.yearIndex + era * 400 + (if (if m < 10 then m + 3 else m - 9) ≤ 2 then 1 else 0) - 1
      else d.yearIndex + era * 400 + (if (if m < 10 then m + 3 else m - 9) ≤ 2 then 1 else 0)) =
      d.yearIndex + era * 400 := by
    split <;> omega
  have hera : (d.yearIndex + era * 400) / 400 = era := by omega
  unfold toDays ofDayOfEra
  dsimp only
  rw [hm, hmonth, hmarch, hera, Int.add_sub_cancel]
  omega

theorem isValid_iff {d : Date} : d.isValid = true ↔
    (1 ≤ d.month ∧ d.month ≤ 12) ∧ 1 ≤ d.day ∧ d.day ≤ daysIn d.year d.month := by
  simp only [isValid, Bool.and_eq_true, decide_eq_true_eq, and_assoc]

theorem daysIn_le (year month : Int) : daysIn year month ≤ 31 := by
  unfold daysIn
  split
  · split <;> decide
  · split <;> decide

/-- The date of a day is one of the calendar. -/
theorem isValid_ofDays (days : Int) : (ofDays days).isValid = true := by
  obtain ⟨era, d, -, hdate⟩ := exists_ofDays_eq days
  have hday := d.day_bounds
  obtain ⟨m, hm, hbounds⟩ := d.exists_month
  have hfirst : 1 ≤ d.day - (153 * m + 2) / 5 + 1 := by omega
  have hlast : d.day - (153 * m + 2) / 5 + 1 ≤ daysIn
      (d.yearIndex + era * 400 + (if (if m < 10 then m + 3 else m - 9) ≤ 2 then 1 else 0))
      (if m < 10 then m + 3 else m - 9) := by
    have hleap := d.isLeapYear_of_last era
    rw [daysIn]
    by_cases hfebruary : m = 11
    · subst hfebruary
      by_cases hlastDay : d.day = 365
      · simp [hleap hlastDay]
        omega
      · simp
        split <;> omega
    · rw [if_neg (by split <;> omega)]
      split <;> omega
  rw [hdate, isValid_iff, ofDayOfEra]
  dsimp only
  rw [hm]
  exact ⟨⟨by split <;> omega, by split <;> omega⟩, hfirst, hlast⟩

end Date

end EffortRank

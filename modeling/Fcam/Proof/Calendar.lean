import Mathlib.Order.Monotone.Basic
import Fcam.Base.Gregorian
import Fcam.Model.Time

/-!
# The calendar moves forward

A day of the month is followed by the next one or by the first, and no month has more than 31. So
the first of the month 32 days on is past every day of this month.
-/

namespace Fcam

/-- The days of an era without its leap days so far. -/
def plainDays (day : Int) : Int := day - day / 1460 + day / 36524 - day / 146096

/-- The day of an era on which a year starts, in March. -/
def yearStart (year : Int) : Int := 365 * year + year / 4 - year / 100

/-- The year of an era in which a day of it falls. -/
def yearOfEra (day : Int) : Int := plainDays day / 365

/-- The day of the month of a day of a year. -/
def monthDay (dayOfYear : Int) : Int := dayOfYear - (153 * ((5 * dayOfYear + 2) / 153) + 2) / 5 + 1

theorem dayOfMonth_eq (epochDay : Int) :
    dayOfMonth epochDay =
      monthDay ((epochDay + 719468) % 146097 - yearStart
        (yearOfEra ((epochDay + 719468) % 146097))) := rfl

/-! ### Years -/

theorem plainDays_le_succ (day : Int) : plainDays day ≤ plainDays (day + 1) := by
  have hcentury : ∀ x : Int, x / 146096 = x / 36524 / 4 := by
    intro x
    omega
  rw [plainDays, plainDays, hcentury, hcentury]
  omega

theorem plainDays_mono {a b : Int} (hle : a ≤ b) : plainDays a ≤ plainDays b :=
  monotone_int_of_le_succ plainDays_le_succ hle

theorem yearStart_mono {a b : Int} (hle : a ≤ b) : yearStart a ≤ yearStart b := by
  rw [yearStart, yearStart]
  omega

theorem plainDays_yearStart :
    ∀ year ∈ List.range 400,
      365 * (year : Int) ≤ plainDays (yearStart year) ∧ plainDays (yearStart (year + 1) - 1) <
        365 * (year + 1) := by
  decide +kernel

section

variable {day : Int}

theorem yearOfEra_bounds (hnonneg : 0 ≤ day) (hlt : day < 146097) :
    0 ≤ yearOfEra day ∧ yearOfEra day < 400 := by
  rw [yearOfEra, plainDays]
  omega

theorem yearStart_le (hnonneg : 0 ≤ day) (hlt : day < 146097) :
    yearStart (yearOfEra day) ≤ day := by
  obtain ⟨hlow, hhigh⟩ := yearOfEra_bounds hnonneg hlt
  by_contra hbefore
  -- The year before would have ended by this day.
  have hyear : yearOfEra day ≠ 0 := by
    intro hzero
    rw [hzero, yearStart] at hbefore
    omega
  obtain ⟨year, hcast⟩ : ∃ year : Nat, yearOfEra day = year + 1 :=
    ⟨(yearOfEra day - 1).toNat, by omega⟩
  obtain ⟨-, hend⟩ := plainDays_yearStart year (List.mem_range.mpr (by omega))
  have hmono := plainDays_mono (show day ≤ yearStart (year + 1) - 1 by rw [hcast] at hbefore; omega)
  have hdiv : 365 * yearOfEra day ≤ plainDays day := by
    rw [yearOfEra]
    omega
  omega

theorem lt_yearStart_succ (hnonneg : 0 ≤ day) (hlt : day < 146096) :
    day < yearStart (yearOfEra day + 1) := by
  obtain ⟨hlow, hhigh⟩ := yearOfEra_bounds hnonneg (by omega)
  by_contra hafter
  have hdiv : plainDays day < 365 * (yearOfEra day + 1) := by
    rw [yearOfEra]
    omega
  by_cases hlast : yearOfEra day = 399
  · rw [hlast, yearStart] at hafter
    omega
  · obtain ⟨year, hcast⟩ : ∃ year : Nat, yearOfEra day + 1 = year :=
      ⟨(yearOfEra day + 1).toNat, by omega⟩
    obtain ⟨hstart, -⟩ := plainDays_yearStart year (List.mem_range.mpr (by omega))
    have hmono := plainDays_mono (show yearStart year ≤ day by rw [← hcast]; omega)
    omega

theorem dayOfYear_succ (hnonneg : 0 ≤ day) (hlt : day + 1 < 146097) :
    day + 1 - yearStart (yearOfEra (day + 1)) = day - yearStart (yearOfEra day) + 1 ∨
      day + 1 - yearStart (yearOfEra (day + 1)) = 0 := by
  have hle := yearStart_le hnonneg (by omega)
  have hle' := yearStart_le (show 0 ≤ day + 1 by omega) hlt
  have hnext := lt_yearStart_succ hnonneg (by omega)
  rcases lt_trichotomy (yearOfEra (day + 1)) (yearOfEra day) with hbefore | hsame | hafter
  · -- A year that ended before the day does not hold the next one.
    have hmono : plainDays day / 365 ≤ plainDays (day + 1) / 365 :=
      Int.ediv_le_ediv (by decide) (plainDays_le_succ day)
    rw [yearOfEra, yearOfEra] at hbefore
    omega
  · left
    rw [hsame]
    omega
  · right
    have hmono := yearStart_mono (show yearOfEra day + 1 ≤ yearOfEra (day + 1) by omega)
    omega

end

/-! ### Months -/

theorem monthDay_bounds (dayOfYear : Int) : 1 ≤ monthDay dayOfYear ∧ monthDay dayOfYear ≤ 31 := by
  rw [monthDay]
  omega

theorem monthDay_succ (dayOfYear : Int) :
    monthDay (dayOfYear + 1) = monthDay dayOfYear + 1 ∨ monthDay (dayOfYear + 1) = 1 := by
  rw [monthDay, monthDay]
  have hmonth : (5 * (dayOfYear + 1) + 2) / 153 = (5 * dayOfYear + 2) / 153 ∨
      (5 * (dayOfYear + 1) + 2) / 153 = (5 * dayOfYear + 2) / 153 + 1 := by
    omega
  rcases hmonth with hsame | hnext
  · left
    rw [hsame]
    omega
  · right
    omega

theorem dayOfMonth_bounds (epochDay : Int) : 1 ≤ dayOfMonth epochDay ∧ dayOfMonth epochDay ≤ 31 :=
  monthDay_bounds _

theorem dayOfMonth_succ (epochDay : Int) :
    dayOfMonth (epochDay + 1) = dayOfMonth epochDay + 1 ∨ dayOfMonth (epochDay + 1) = 1 := by
  have hnonneg : 0 ≤ (epochDay + 719468) % 146097 := Int.emod_nonneg _ (by decide)
  rw [dayOfMonth_eq, dayOfMonth_eq]
  by_cases hlast : (epochDay + 719468) % 146097 = 146096
  · right
    rw [show (epochDay + 1 + 719468) % 146097 = 0 by omega]
    decide
  · rw [show (epochDay + 1 + 719468) % 146097 = (epochDay + 719468) % 146097 + 1 by omega]
    rcases dayOfYear_succ hnonneg (by omega) with hnext | hfirst
    · rw [hnext]
      exact monthDay_succ _
    · right
      rw [hfirst]
      rfl

theorem firstOfMonth_add (epochDay : Int) (n : Nat) :
    epochDay + n - dayOfMonth (epochDay + n) = epochDay - dayOfMonth epochDay ∨
      epochDay < epochDay + n - dayOfMonth (epochDay + n) + 1 := by
  induction n with
  | zero =>
    left
    rw [Int.natCast_zero, Int.add_zero]
  | succ n ih =>
    have hle := (dayOfMonth_bounds (epochDay + n)).1
    rw [Int.natCast_succ, ← Int.add_assoc]
    rcases dayOfMonth_succ (epochDay + n) with hnext | hfirst
    · rw [hnext]
      omega
    · right
      rw [hfirst]
      omega

theorem lt_firstOfMonth {day first : Int} (hfirst : first = day - dayOfMonth day + 1) :
    day < first + 32 - dayOfMonth (first + 32) + 1 := by
  obtain ⟨hlow, hhigh⟩ := dayOfMonth_bounds day
  obtain ⟨-, hbound⟩ := dayOfMonth_bounds (first + 32)
  have hday : first + 32 = day + (33 - dayOfMonth day).toNat := by omega
  rcases firstOfMonth_add day (33 - dayOfMonth day).toNat with hsame | hpast
  · -- No month has 33 days.
    rw [← hday] at hsame
    omega
  · rw [hday]
    exact hpast

theorem lt_monthStart {t first : Int}
    (hfirst : first = t / dayLength - dayOfMonth (t / dayLength) + 1) :
    t < (first + 32 - (dayOfMonth (first + 32) - 1)) * dayLength := by
  have hpast := lt_firstOfMonth hfirst
  rw [dayLength] at hpast ⊢
  omega

theorem monthStart_eq {t first : Int}
    (hfirst : first = t / dayLength - dayOfMonth (t / dayLength) + 1) :
    monthStart t = first * dayLength := by
  have hcomm : ∀ day dom : Int, day - (dom - 1) = day - dom + 1 := by
    intro day dom
    omega
  rw [hfirst, monthStart, hcomm]

theorem lt_nextMonthStart {t next : Int} (h : nextMonthStart t = some next) : t < next := by
  obtain ⟨later, hlater, rfl⟩ := Option.map_eq_some_iff.mp h
  obtain ⟨first, hfirst⟩ : ∃ first, first = t / dayLength - dayOfMonth (t / dayLength) + 1 :=
    ⟨_, rfl⟩
  have hday : ∀ x : Int, (x * dayLength + 32 * 86400 * 1000000) / dayLength = x + 32 := by
    intro x
    rw [dayLength]
    omega
  rw [plusSeconds_eq_some hlater, monthStart_eq hfirst, monthStart, hday]
  exact lt_monthStart hfirst

/-! ### The Gregorian months -/

theorem yearOfEra_eq {year day : Int} (hyear : 0 ≤ year ∧ year < 400)
    (hstart : yearStart year ≤ day) (hend : day < yearStart (year + 1)) : yearOfEra day = year := by
  have hfirst := yearStart_mono (show 0 ≤ year by omega)
  have hlast := yearStart_mono (show year + 1 ≤ 400 by omega)
  have hzero : yearStart 0 = 0 := by decide
  have hera : yearStart 400 = 146096 := by decide
  have hle := yearStart_le (show 0 ≤ day by omega) (by omega)
  have hlt := lt_yearStart_succ (show 0 ≤ day by omega) (by omega)
  rcases lt_trichotomy (yearOfEra day) year with hbefore | hsame | hafter
  · have hmono := yearStart_mono (show yearOfEra day + 1 ≤ year by omega)
    omega
  · exact hsame
  · have hmono := yearStart_mono (show year + 1 ≤ yearOfEra day by omega)
    omega

namespace YearMonth

/-- The year in which it falls where years start in March. -/
def marchYear (m : YearMonth) : Int := if m.month ≤ 2 then m.year - 1 else m.year

/-- Its place in that year. -/
def marchMonth (m : YearMonth) : Int := if m.month ≤ 2 then m.month + 9 else m.month - 3

theorem firstDay_eq (m : YearMonth) :
    m.firstDay + 305 =
      365 * m.marchYear + m.marchYear / 4 - m.marchYear / 100 + m.marchYear / 400 +
        (153 * m.marchMonth + 2) / 5 := by
  obtain ⟨year, month, hlow, hhigh⟩ := m
  by_cases hleap : IsLeap year
  · have hdiv := hleap
    rw [IsLeap] at hdiv
    interval_cases month <;> simp [firstDay, daysBefore, daysBeforeYear, marchYear, marchMonth,
      hleap] <;> omega
  · have hdiv := hleap
    rw [IsLeap] at hdiv
    interval_cases month <;> simp [firstDay, daysBefore, daysBeforeYear, marchYear, marchMonth,
      hleap] <;> omega

theorem monthDay_offset (m : YearMonth) {d : Int} (hnonneg : 0 ≤ d) (hlt : d < m.length) :
    monthDay ((153 * m.marchMonth + 2) / 5 + d) = d + 1 := by
  have hbounds := m.length_bounds
  obtain ⟨year, month, hlow, hhigh⟩ := m
  rw [monthDay]
  interval_cases month <;> simp [marchMonth, length] at hlt hbounds ⊢ <;> omega

theorem offset_lt (m : YearMonth) :
    (153 * m.marchMonth + 2) / 5 + m.length ≤ if IsLeap (m.marchYear + 1) then 366 else 365 := by
  obtain ⟨year, month, hlow, hhigh⟩ := m
  by_cases hlast : month = 2
  · subst hlast
    by_cases hleap : IsLeap year
    · simp [marchMonth, marchYear, length, hleap]
    · simp [marchMonth, marchYear, length, hleap]
  · have hlength : (153 * (YearMonth.marchMonth ⟨year, month, hlow, hhigh⟩) + 2) / 5 +
        YearMonth.length ⟨year, month, hlow, hhigh⟩ ≤ 365 := by
      interval_cases month <;> simp [marchMonth, length]
      omega
    split
    · omega
    · exact hlength

end YearMonth

/-- The day of an era of a day that comes `d` days after the first of a month. -/
def YearMonth.dayOfEra (m : YearMonth) (d : Int) : Int :=
  yearStart (m.marchYear % 400) + ((153 * m.marchMonth + 2) / 5 + d)

section

variable {m : YearMonth} {d : Int}

theorem dayOfEra_cases (hlt : d < m.length) :
    m.dayOfEra d < yearStart (m.marchYear % 400 + 1) ∨ m.marchYear % 400 = 399 ∧
      m.dayOfEra d = 146096 := by
  have hoffset := m.offset_lt
  rw [YearMonth.dayOfEra, yearStart, yearStart]
  split at hoffset
  · next hleap =>
    rw [IsLeap] at hleap
    omega
  · omega

theorem yearStart_le_dayOfEra (hnonneg : 0 ≤ d) : yearStart (m.marchYear % 400) ≤ m.dayOfEra d := by
  have hvalid := m.valid
  rw [YearMonth.dayOfEra, YearMonth.marchMonth]
  split <;> omega

theorem yearOfEra_month (hnonneg : 0 ≤ d) (hlt : d < m.length) :
    yearOfEra (m.dayOfEra d) = m.marchYear % 400 := by
  obtain hend | ⟨hyear, hday⟩ := dayOfEra_cases hlt
  · exact yearOfEra_eq (by omega) (yearStart_le_dayOfEra hnonneg) hend
  · rw [hday, hyear]
    decide

theorem firstDay_era (m : YearMonth) (d : Int) :
    m.firstDay + d + 305 = 146097 * (m.marchYear / 400) + m.dayOfEra d := by
  have hfirst := m.firstDay_eq
  obtain ⟨era, year, hyear, hera⟩ : ∃ era year :
      Int, 0 ≤ year ∧ year < 400 ∧ m.marchYear = 400 * era + year :=
    ⟨m.marchYear / 400, m.marchYear % 400, by omega, by omega, by omega⟩
  rw [hera.2, show (400 * era + year) / 400 = era by omega] at hfirst
  rw [YearMonth.dayOfEra, yearStart, hera.2, show (400 * era + year) / 400 = era by omega,
    show (400 * era + year) % 400 = year by omega]
  omega

theorem dayOfEra_month (hnonneg : 0 ≤ d) (hlt : d < m.length) :
    (m.firstDay + d - 719163 + 719468) % 146097 = m.dayOfEra d := by
  have hera := firstDay_era m d
  have hlow := yearStart_le_dayOfEra (m := m) hnonneg
  have hzero := yearStart_mono (show 0 ≤ m.marchYear % 400 by omega)
  have hlast := yearStart_mono (show m.marchYear % 400 + 1 ≤ 400 by omega)
  have hstart : yearStart 0 = 0 := by decide
  have hend : yearStart 400 = 146096 := by decide
  have hhigh : m.dayOfEra d ≤ 146096 := by
    obtain hbefore | hday := dayOfEra_cases hlt
    · omega
    · omega
  omega

theorem dayOfMonth_firstDay (hnonneg : 0 ≤ d) (hlt : d < m.length) :
    dayOfMonth (m.firstDay + d - 719163) = d + 1 := by
  rw [dayOfMonth_eq, dayOfEra_month hnonneg hlt, yearOfEra_month hnonneg hlt, YearMonth.dayOfEra,
    show ∀ a b : Int, a + b - a = b by omega, m.monthDay_offset hnonneg hlt]

end

end Fcam

import Mathlib.Tactic.IntervalCases
import Mathlib.Tactic.Common

/-!
# The Gregorian calendar

The months of the proleptic Gregorian calendar follow each other without a gap: `firstDay` counts
days as ordinals, the first of January of the year 1 being day 1, and every day lies in a month
(`exists_month`).
-/

namespace Fcam

/-- Every fourth year, of the full centuries every fourth. -/
def IsLeap (year : Int) : Prop := 4 ∣ year ∧ (¬100 ∣ year ∨ 400 ∣ year)

instance (year : Int) : Decidable (IsLeap year) := inferInstanceAs (Decidable (_ ∧ _))

/-- A month of a year. -/
structure YearMonth where
  year : Int
  month : Int
  valid : 1 ≤ month ∧ month ≤ 12

namespace YearMonth

/-- The number of its days. -/
def length (m : YearMonth) : Int :=
  if m.month = 2 then if IsLeap m.year then 29 else 28
  else if m.month = 4 ∨ m.month = 6 ∨ m.month = 9 ∨ m.month = 11 then 30
  else 31

/-- The days of a year before each of its months, without a leap day. -/
def daysBefore : List Int := [0, 31, 59, 90, 120, 151, 181, 212, 243, 273, 304, 334]

/-- The days before a year. -/
def daysBeforeYear (year : Int) : Int :=
  365 * (year - 1) + (year - 1) / 4 - (year - 1) / 100 + (year - 1) / 400

/-- The ordinal of its first day. -/
def firstDay (m : YearMonth) : Int :=
  daysBeforeYear m.year + daysBefore.getD (m.month - 1).toNat 0 +
    (if 2 < m.month ∧ IsLeap m.year then 1 else 0) + 1

def next (m : YearMonth) : YearMonth :=
  if h : m.month = 12 then ⟨m.year + 1, 1, by omega⟩
  else ⟨m.year, m.month + 1, by have := m.valid; omega⟩

def previous (m : YearMonth) : YearMonth :=
  if h : m.month = 1 then ⟨m.year - 1, 12, by omega⟩
  else ⟨m.year, m.month - 1, by have := m.valid; omega⟩

theorem next_previous (m : YearMonth) : m.previous.next = m := by
  obtain ⟨year, month, hvalid⟩ := m
  by_cases hfirst : month = 1
  · subst hfirst
    simp [previous, next]
  · have hne : month - 1 ≠ 12 := by omega
    simp [previous, next, hfirst, hne]

theorem daysBeforeYear_succ (year : Int) :
    daysBeforeYear (year + 1) = daysBeforeYear year + if IsLeap year then 366 else 365 := by
  rw [daysBeforeYear, daysBeforeYear]
  split
  · next hleap =>
    rw [IsLeap] at hleap
    omega
  · next hplain =>
    rw [IsLeap] at hplain
    omega

theorem firstDay_next (m : YearMonth) : m.next.firstDay = m.firstDay + m.length := by
  obtain ⟨year, month, hlow, hhigh⟩ := m
  have hyear := daysBeforeYear_succ year
  by_cases hleap : IsLeap year
  · interval_cases month <;> simp [next, firstDay, length, daysBefore, hyear, hleap] <;> omega
  · interval_cases month <;> simp [next, firstDay, length, daysBefore, hyear, hleap] <;> omega

theorem length_bounds (m : YearMonth) : 28 ≤ m.length ∧ m.length ≤ 31 := by
  rw [length]
  split
  · split
    · omega
    · omega
  · split
    · omega
    · omega

/-! ### Years -/

theorem daysBeforeYear_mono {a b : Int} (hle : a ≤ b) : daysBeforeYear a ≤ daysBeforeYear b := by
  rw [daysBeforeYear, daysBeforeYear]
  omega

theorem firstDay_bounds (m : YearMonth) :
    daysBeforeYear m.year < m.firstDay ∧
      m.firstDay + m.length ≤ daysBeforeYear (m.year + 1) + 1 := by
  have hyear := daysBeforeYear_succ m.year
  obtain ⟨year, month, hlow, hhigh⟩ := m
  dsimp only at hyear
  by_cases hleap : IsLeap year
  · interval_cases month <;> simp [firstDay, length, daysBefore, hyear, hleap] <;> omega
  · interval_cases month <;> simp [firstDay, length, daysBefore, hyear, hleap] <;> omega

theorem end_le {m : YearMonth} {year : Int} (hbefore : m.firstDay ≤ daysBeforeYear year) :
    m.firstDay + m.length ≤ daysBeforeYear year + 1 := by
  obtain ⟨hbegin, hend⟩ := m.firstDay_bounds
  by_cases hyear : m.year < year
  · have hmono := daysBeforeYear_mono (show m.year + 1 ≤ year by omega)
    omega
  · have hmono := daysBeforeYear_mono (show year ≤ m.year by omega)
    omega

theorem exists_month (day : Int) :
    ∃ m : YearMonth, m.firstDay ≤ day ∧ day < m.firstDay + m.length := by
  induction day using Int.induction_on with
  | zero => exact ⟨⟨0, 12, by omega⟩, by decide, by decide⟩
  | succ n ih =>
    obtain ⟨m, hfirst, hlast⟩ := ih
    by_cases hsame : (n : Int) + 1 < m.firstDay + m.length
    · exact ⟨m, by omega, hsame⟩
    · have hlength := m.next.length_bounds
      refine ⟨m.next, ?_, ?_⟩
      · rw [firstDay_next]
        omega
      · rw [firstDay_next]
        omega
  | pred n ih =>
    obtain ⟨m, hfirst, hlast⟩ := ih
    by_cases hsame : m.firstDay ≤ -(n : Int) - 1
    · exact ⟨m, hsame, by omega⟩
    · have hbegin := firstDay_next m.previous
      rw [next_previous] at hbegin
      have hlength := m.previous.length_bounds
      refine ⟨m.previous, by omega, by omega⟩

end YearMonth

end Fcam

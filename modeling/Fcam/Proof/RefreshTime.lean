import Mathlib.Algebra.Order.Field.Rat
import Fcam.Proof.Calendar
import Fcam.Proof.RefreshFetch

/-!
# When a key's credits are fetched next

A month of the calendar as the instants in it: the first of the next month, which the source finds
32 days past the first of this one, is the instant at which this month ends (`nextMonthStart_eq`).
The time of the next refresh is that instant where no credits are left, and otherwise an interval
on, shorter as more of the plan is used (`next_refresh_time`).
-/

namespace Fcam

/-! ### Months -/

/-- The first instant of a month. -/
def YearMonth.start (m : YearMonth) : Int := (m.firstDay - 719163) * dayLength

namespace YearMonth

variable {m : YearMonth} {t : Int}

theorem day_of_mem (hstart : m.start ≤ t) (hend : t < m.next.start) :
    ∃ d, 0 ≤ d ∧ d < m.length ∧ t / dayLength = m.firstDay + d - 719163 := by
  have hnext := m.firstDay_next
  simp only [start, dayLength] at hstart hend
  refine ⟨t / dayLength - (m.firstDay - 719163), ?_, ?_, ?_⟩
  · rw [dayLength]
    omega
  · rw [dayLength]
    omega
  · omega

theorem monthStart_eq (hstart : m.start ≤ t) (hend : t < m.next.start) :
    monthStart t = m.start := by
  obtain ⟨d, hnonneg, hlt, hday⟩ := day_of_mem hstart hend
  have hback : m.firstDay + d - 719163 - (d + 1 - 1) = m.firstDay - 719163 := by omega
  rw [monthStart, hday, dayOfMonth_firstDay hnonneg hlt, hback, start]

theorem exists_start (t : Int) : ∃ m : YearMonth, m.start ≤ t ∧ t < m.next.start := by
  obtain ⟨m, hfirst, hlast⟩ := exists_month (t / dayLength + 719163)
  have hnext := m.firstDay_next
  simp only [dayLength] at hfirst hlast
  refine ⟨m, ?_, ?_⟩
  · simp only [start, dayLength]
    omega
  · simp only [start, dayLength]
    omega

theorem nextMonthStart_eq (hmin : datetimeMin ≤ t) (hstart : m.start ≤ t)
    (hend : t < m.next.start) :
    nextMonthStart t = if m.next.start ≤ datetimeMax then some m.next.start else none := by
  have hnext := m.firstDay_next
  have hlength := m.length_bounds
  have hafter := m.next.firstDay_next
  have hnextLength := m.next.length_bounds
  rw [nextMonthStart, plusSeconds, monthStart_eq hstart hend]
  have hyears : m.next.start ≤ datetimeMax ↔ m.start + 32 * 86400 * 1000000 ≤ datetimeMax := by
    have hlast : daysBeforeYear 10000 = 3652059 := by decide
    show m.next.start ≤ (253402300799999999 : Int) ↔
      m.start + 32 * 86400 * 1000000 ≤ (253402300799999999 : Int)
    simp only [start, dayLength]
    refine ⟨?_, by omega⟩
    intro hbegin
    have hends := end_le (show m.next.firstDay ≤ daysBeforeYear 10000 by omega)
    omega
  have hlow : datetimeMin ≤ m.start + 32 * 86400 * 1000000 := by
    have hmin : (-62135596800000000 : Int) ≤ t := hmin
    show (-62135596800000000 : Int) ≤ m.start + 32 * 86400 * 1000000
    simp only [start, dayLength] at hend ⊢
    omega
  have hthen : monthStart (m.start + 32 * 86400 * 1000000) = m.next.start := by
    apply monthStart_eq
    · simp only [start, dayLength]
      omega
    · simp only [start, dayLength]
      omega
  by_cases hheld : m.next.start ≤ datetimeMax
  · rw [if_pos hheld, if_pos ⟨hlow, hyears.mp hheld⟩, Option.map_some, hthen]
  · rw [if_neg hheld, if_neg fun h => hheld (hyears.mpr h.2), Option.map_none]

end YearMonth

/-! ### Intervals -/

/-- The minutes until the next refresh of a key with credits left, by the share of the plan that is
used. -/
def refreshInterval (monitoring : CreditMonitoringConfig) (usageRatio : Rat) : Int :=
  if !monitoring.smartRefresh.enabled then monitoring.fixedRefresh.intervalMinutes
  else if 9 / 10 < usageRatio then monitoring.smartRefresh.highUsageInterval
  else if 7 / 10 < usageRatio then monitoring.smartRefresh.mediumUsageInterval
  else if 1 / 2 < usageRatio then monitoring.smartRefresh.normalUsageInterval
  else monitoring.smartRefresh.lowUsageInterval

/-- The intervals do not increase with usage. -/
structure IntervalsOrdered (smart : SmartRefreshConfig) : Prop where
  high : smart.highUsageInterval ≤ smart.mediumUsageInterval
  medium : smart.mediumUsageInterval ≤ smart.normalUsageInterval
  normal : smart.normalUsageInterval ≤ smart.lowUsageInterval

section

variable {config : AppConfig} {monitoring : CreditMonitoringConfig} {now : Int} {key : ApiKey}
  {remaining plan : Int}

theorem refreshInterval_pos (hpos : PositiveIntervals monitoring) (usageRatio : Rat) :
    0 < refreshInterval monitoring usageRatio := by
  rw [refreshInterval]
  split
  · exact hpos.fixed
  · split
    · exact hpos.high
    · split
      · exact hpos.medium
      · split
        · exact hpos.normal
        · exact hpos.low

theorem ite_le_of_imp {p q : Prop} [Decidable p] [Decidable q] {a x y : Int} (himp : p → q)
    (ha : a ≤ x) (hx : y ≤ x) : (if q then a else y) ≤ if p then a else x := by
  by_cases hp : p
  · rw [if_pos hp, if_pos (himp hp)]
  · rw [if_neg hp]
    split
    · exact ha
    · exact hx

theorem refreshInterval_anti (hordered : IntervalsOrdered monitoring.smartRefresh)
    {ratio ratio' : Rat} (hle : ratio ≤ ratio') :
    refreshInterval monitoring ratio' ≤ refreshInterval monitoring ratio := by
  obtain ⟨hhigh, hmedium, hnormal⟩ := hordered
  have hpast : ∀ threshold : Rat, threshold < ratio → threshold < ratio' :=
    fun threshold h => h.trans_le hle
  have h9 := hpast (9 / 10)
  have h7 := hpast (7 / 10)
  have h5 := hpast (1 / 2)
  rw [refreshInterval, refreshInterval]
  split
  · exact le_refl _
  · refine ite_le_of_imp h9 ?_ (ite_le_of_imp h7 ?_ (ite_le_of_imp h5 hnormal (le_refl _)))
    · split_ifs <;> omega
    · split_ifs <;> omega

theorem plusMinutes_eq {minutes : Int} (hmin : datetimeMin ≤ now) (hpos : 0 < minutes) :
    plusMinutes now minutes =
      if now + minutes * 60 * 1000000 ≤ datetimeMax then some (now + minutes * 60 * 1000000)
        else none := by
  have hlow : datetimeMin ≤ now + minutes * 60 * 1000000 := by
    have hmin : (-62135596800000000 : Int) ≤ now := hmin
    show (-62135596800000000 : Int) ≤ now + minutes * 60 * 1000000
    omega
  simp only [plusMinutes, plusSeconds, hlow, true_and]

theorem calculateNextRefreshTime_left (hremaining : key.cachedRemainingCredits = some remaining)
    (hplan : key.cachedPlanCredits = some plan) (hleft : remaining ≠ 0) (hknown : plan ≠ 0) :
    calculateNextRefreshTime config now key =
      plusMinutes now (refreshInterval config.creditMonitoring (1 - (remaining : Rat) / plan)) := by
  simp only [calculateNextRefreshTime, hremaining, hplan, if_neg hleft, if_neg hknown,
    refreshInterval]

/-- The time of the next refresh, as far as it lies in the years a datetime can hold. -/
theorem exists_refreshTime (hpos : PositiveIntervals config.creditMonitoring)
    (hmin : datetimeMin ≤ now) (hremaining : key.cachedRemainingCredits = some remaining)
    (hplan : key.cachedPlanCredits = some plan) :
    ∃ t : Int, calculateNextRefreshTime config now key = (if t ≤ datetimeMax then some t
      else none) ∧ now < t ∧
      (remaining = 0 → plan ≠ 0 →
        ∃ m : YearMonth, m.start ≤ now ∧ now < m.next.start ∧ t = m.next.start) := by
  by_cases hknown : plan = 0
  · refine ⟨now + config.creditMonitoring.fixedRefresh.intervalMinutes * 60 * 1000000, ?_, ?_,
      fun _ hne => absurd hknown hne⟩
    · simp only [calculateNextRefreshTime, hremaining, hplan, if_pos hknown]
      exact plusMinutes_eq hmin hpos.fixed
    · have hfixed := hpos.fixed
      omega
  · by_cases hleft : remaining = 0
    · obtain ⟨m, hstart, hend⟩ := YearMonth.exists_start now
      refine ⟨m.next.start, ?_, hend, fun _ _ => ⟨m, hstart, hend, rfl⟩⟩
      simp only [calculateNextRefreshTime, hremaining, hplan, if_neg hknown, if_pos hleft]
      exact YearMonth.nextMonthStart_eq hmin hstart hend
    · have hinterval := refreshInterval_pos hpos (1 - (remaining : Rat) / plan)
      refine ⟨now + refreshInterval config.creditMonitoring (1 - (remaining : Rat) / plan) * 60 *
        1000000, ?_, ?_, fun hnone => absurd hnone hleft⟩
      · rw [calculateNextRefreshTime_left hremaining hplan hleft hknown]
        exact plusMinutes_eq hmin hinterval
      · omega

/-- The more credits of a plan are left, the later the next refresh. -/
theorem refreshTime_mono (hpos : PositiveIntervals config.creditMonitoring)
    (hordered : IntervalsOrdered config.creditMonitoring.smartRefresh) (hmin : datetimeMin ≤ now)
    {key' : ApiKey} {remaining' : Int} (hremaining : key.cachedRemainingCredits = some remaining)
    (hremaining' : key'.cachedRemainingCredits = some remaining')
    (hplan : key.cachedPlanCredits = some plan) (hplan' : key'.cachedPlanCredits = some plan)
    (hknown : 0 < plan) (hleft : 0 < remaining) (hle : remaining ≤ remaining') {t' : Int}
    (ht' : calculateNextRefreshTime config now key' = some t') :
    ∃ t : Int, calculateNextRefreshTime config now key = some t ∧ t - now ≤ t' - now := by
  have hratio : 1 - (remaining' : Rat) / plan ≤ 1 - (remaining : Rat) / plan := by
    apply sub_le_sub_left
    exact div_le_div_of_nonneg_right (Int.cast_le.mpr hle) (Int.cast_nonneg (le_of_lt hknown))
  have hinterval := refreshInterval_anti hordered hratio
  rw [calculateNextRefreshTime_left hremaining' hplan' (by omega) (by omega),
    plusMinutes_eq hmin (refreshInterval_pos hpos _)] at ht'
  rw [calculateNextRefreshTime_left hremaining hplan (by omega) (by omega),
    plusMinutes_eq hmin (refreshInterval_pos hpos _)]
  generalize refreshInterval config.creditMonitoring (1 - (remaining' : Rat) / plan) = minutes' at *
  generalize refreshInterval config.creditMonitoring (1 - (remaining : Rat) / plan) = minutes at *
  split at ht'
  · next hheld =>
    have hheld : now + minutes' * 60 * 1000000 ≤ (253402300799999999 : Int) := hheld
    have ht' := Option.some.inj ht'
    refine ⟨_, if_pos ?_, ?_⟩
    · show now + minutes * 60 * 1000000 ≤ (253402300799999999 : Int)
      omega
    · omega
  · cases ht'

end

/-- The time of the next refresh is never before now, and later once the credits are known; without
credits left it is the first instant of the month after; and it is the later the more credits of a
plan are left. A time past the years a datetime can hold is none. -/
theorem next_refresh_time {config : AppConfig} (hpos : PositiveIntervals config.creditMonitoring)
    {now : Int} (hnow : datetimeMin ≤ now ∧ now ≤ datetimeMax) :
    (∀ key : ApiKey, ∃ t : Int,
      calculateNextRefreshTime config now key = (if t ≤ datetimeMax then some t else none) ∧
        now ≤ t ∧
        ∀ remaining plan, key.cachedRemainingCredits = some remaining →
          key.cachedPlanCredits = some plan →
          now < t ∧
            (remaining = 0 → plan ≠ 0 →
              ∃ m : YearMonth, m.start ≤ now ∧ now < m.next.start ∧ t = m.next.start)) ∧
    (IntervalsOrdered config.creditMonitoring.smartRefresh →
      ∀ (key key' : ApiKey) (plan remaining remaining' : Int),
      key.cachedRemainingCredits = some remaining → key'.cachedRemainingCredits = some remaining' →
      key.cachedPlanCredits = some plan → key'.cachedPlanCredits = some plan →
      0 < plan → 0 < remaining → remaining ≤ remaining' →
      ∀ t' : Int, calculateNextRefreshTime config now key' = some t' →
        ∃ t : Int, calculateNextRefreshTime config now key = some t ∧ t - now ≤ t' - now) := by
  refine ⟨?_, ?_⟩
  rotate_left
  · intro hordered key key' plan remaining remaining' hremaining hremaining' hplan hplan' hknown
      hleft hle t' ht'
    exact refreshTime_mono hpos hordered hnow.1 hremaining hremaining' hplan hplan' hknown hleft hle
      ht'
  intro key
  cases hremaining : key.cachedRemainingCredits with
  | none =>
    refine ⟨now, ?_, le_refl _, ?_⟩
    · rw [calculateNextRefreshTime, hremaining, if_pos hnow.2]
    · intro remaining plan hsome
      cases hsome
  | some remaining =>
    cases hplan : key.cachedPlanCredits with
    | none =>
      refine ⟨now, ?_, le_refl _, ?_⟩
      · rw [calculateNextRefreshTime, hremaining, hplan, if_pos hnow.2]
      · intro remaining plan _ hsome
        cases hsome
    | some plan =>
      obtain ⟨t, ht, hlater, hmonth⟩ := exists_refreshTime hpos hnow.1 hremaining hplan
      refine ⟨t, ht, le_of_lt hlater, ?_⟩
      intro remaining' plan' hsome hsome'
      obtain rfl := Option.some.inj hsome
      obtain rfl := Option.some.inj hsome'
      exact ⟨hlater, hmonth⟩

/-- A key without credits on 29 February 2024 is fetched when March begins. -/
theorem leap_day_refresh :
    ∃ m : YearMonth, m.start ≤ 1709208000000000 ∧ 1709208000000000 < m.next.start ∧
      m.next.start = 1709251200000000 ∧
      calculateNextRefreshTime {} 1709208000000000
        { cachedRemainingCredits := some 0, cachedPlanCredits := some 500 } =
        some m.next.start := by
  have hpos : PositiveIntervals ({} : AppConfig).creditMonitoring :=
    ⟨by decide, by decide, by decide, by decide, by decide⟩
  have hnow : datetimeMin ≤ (1709208000000000 : Int) ∧ (1709208000000000 : Int) ≤ datetimeMax := by
    decide
  have hrun : calculateNextRefreshTime {} 1709208000000000
      { cachedRemainingCredits := some 0, cachedPlanCredits := some 500 } =
        some 1709251200000000 := by decide
  obtain ⟨t, ht, _, hknown⟩ := (next_refresh_time hpos hnow).1
    { cachedRemainingCredits := some 0, cachedPlanCredits := some 500 }
  obtain ⟨m, hstart, hend, hmonth⟩ := (hknown 0 500 rfl rfl).2 rfl (by decide)
  rw [hrun] at ht
  split at ht
  · have ht : (1709251200000000 : Int) = t := Option.some.inj ht
    exact ⟨m, hstart, hend, by omega, hrun.trans (congrArg some (ht.trans hmonth))⟩
  · cases ht

/-- In the last December a datetime can hold there is no next month. -/
theorem last_month_overflows :
    PositiveIntervals ({} : AppConfig).creditMonitoring ∧
      calculateNextRefreshTime {} (datetimeMax - dayLength)
        { cachedRemainingCredits := some 0, cachedPlanCredits := some 500 } = none :=
  ⟨⟨by decide, by decide, by decide, by decide, by decide⟩, by decide⟩

end Fcam

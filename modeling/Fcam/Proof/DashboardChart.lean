import Mathlib.Data.List.Range
import Mathlib.Algebra.Order.Ring.Int
import Fcam.Model.DashboardChart

/-!
# Which hour a request is counted in

A log is counted in the hour its wall clock reads, under the label of that hour converted to UTC. It
falls in the hour that begins with the label exactly where the clock has not been changed by more
than the log is past the hour, so where no change falls between the two the chart is right
(`dashboard_chart_exact_iff`).
-/

namespace Fcam

/-! ### The counts -/

section

variable {zone : ZoneInfo} {startHour : Int}

/-- The logs of a bucket that succeeded, or the others. -/
def bucketCount (zone : ZoneInfo) (startHour : Int) (logs : List RequestLog) (succeeded : Bool)
    (i : Nat) : Nat :=
  logs.countP fun log => chartBucket zone startHour log == some i && (log.success == some true) ==
    succeeded

/-- A count grows by the logs of its bucket that are counted there. -/
theorem countLogs_get? (logs : List RequestLog) (counts : List Nat × List Nat) (i : Nat) :
    (countLogs zone startHour logs counts).1[i]? =
      counts.1[i]?.map (· + bucketCount zone startHour logs true i) ∧
      (countLogs zone startHour logs counts).2[i]? =
        counts.2[i]?.map (· + bucketCount zone startHour logs false i) := by
  induction logs generalizing counts with
  | nil =>
    simp [countLogs, bucketCount]
  | cons log rest ih =>
    simp only [bucketCount] at ih ⊢
    rw [countLogs]
    cases hbucket : chartBucket zone startHour log with
    | none =>
      dsimp only
      rw [(ih counts).1, (ih counts).2]
      simp [hbucket]
    | some idx =>
      dsimp only
      have hadd : ∀ (count : Option Nat) (n m : Nat), n + 1 = m →
          ((count.map (· + 1)).map (· + n)) = count.map (· + m) := by
        intro count n m hm
        cases count with
        | none => rfl
        | some k =>
          show some (k + 1 + n) = some (k + m)
          congr 1
          omega
      by_cases hsuccess : log.success = some true
      · rw [if_pos hsuccess, (ih _).1, (ih _).2, List.getElem?_modify]
        by_cases heq : idx = i
        · refine ⟨?_, ?_⟩
          · simp only [heq, if_true, Option.map_eq_map]
            apply hadd
            simp [hbucket, hsuccess, heq]
          · simp [hbucket, hsuccess]
        · simp [hbucket, heq]
      · rw [if_neg hsuccess, (ih _).1, (ih _).2, List.getElem?_modify]
        by_cases heq : idx = i
        · refine ⟨?_, ?_⟩
          · simp [hbucket, hsuccess]
          · simp only [heq, if_true, Option.map_eq_map]
            apply hadd
            simp [hbucket, hsuccess, heq]
        · simp [hbucket, heq]

end

/-! ### The labels -/

section

variable {zone : ZoneInfo} {startHour : Int}

theorem chartLabels_get? {i : Nat} (hlt : i < 24) :
    (chartLabels zone startHour)[i]? = some (zone.utcOfWall (startHour + i * hourLength)) := by
  rw [chartLabels, List.getElem?_map, List.getElem?_range hlt, Option.map_some]

theorem chartLabels_sorted_iff :
    (chartLabels zone startHour).Pairwise (· < ·) ↔ ∀ i : Nat, i < 23 →
      zone.wallOffset (startHour + (i + 1) * hourLength) - zone.wallOffset
        (startHour + i * hourLength) < 3600 := by
  rw [chartLabels, ← List.isChain_iff_pairwise, List.isChain_map, List.isChain_range_succ]
  apply forall₂_congr
  intro i _
  rw [ZoneInfo.utcOfWall, ZoneInfo.utcOfWall, hourLength]
  push_cast
  omega

/-! ### The bucket of a log -/

variable {now : Instant} {log : RequestLog} {logs : List RequestLog}

theorem floorHour_emod (wall : Int) : floorHour wall % hourLength = 0 := by
  rw [floorHour, hourLength]
  omega

theorem chartStart_emod : chartStart zone now % hourLength = 0 := by
  have hfloor := floorHour_emod (zone.wallTime now)
  rw [hourLength] at hfloor
  rw [chartStart, hourLength]
  omega

theorem chartBucket_eq_some_iff (hstart : startHour % hourLength = 0) {i : Nat} :
    chartBucket zone startHour log = some i ↔
      i < 24 ∧ floorHour (zone.wallTime log.createdAt) = startHour + i * hourLength := by
  have hfloor := floorHour_emod (zone.wallTime log.createdAt)
  rw [chartBucket]
  generalize floorHour (zone.wallTime log.createdAt) = hour at *
  rw [hourLength] at *
  split
  · refine iff_of_false (fun h => by cases h) ?_
    omega
  · rw [Option.some.injEq]
    omega

/-- It falls in the hour that begins with the label exactly where the offset differs from the one
the hour is converted with by no more than the log is past the hour. -/
theorem chartBucket_exact_iff (hstart : startHour % hourLength = 0) :
    (∃ i label, chartBucket zone startHour log = some i ∧ (chartLabels zone startHour)[i]? =
      some label ∧
        label ≤ log.createdAt ∧ log.createdAt < label + hourLength) ↔
      (startHour ≤ floorHour (zone.wallTime log.createdAt) ∧
        floorHour (zone.wallTime log.createdAt) ≤ startHour + 23 * hourLength) ∧
      zone.wallTime log.createdAt % hourLength - hourLength <
          (zone.utcoffset log.createdAt - zone.wallOffset
            (floorHour (zone.wallTime log.createdAt))) * 1000000 ∧
        (zone.utcoffset log.createdAt - zone.wallOffset (floorHour (zone.wallTime log.createdAt))) *
          1000000 ≤
          zone.wallTime log.createdAt % hourLength := by
  have hfloor : zone.wallTime log.createdAt =
      floorHour (zone.wallTime log.createdAt) + zone.wallTime log.createdAt % hourLength := by
    rw [floorHour, hourLength]
    omega
  have hemod := floorHour_emod (zone.wallTime log.createdAt)
  obtain ⟨t, ht⟩ : ∃ t : Int, log.createdAt = t := ⟨_, rfl⟩
  have hwall : zone.wallTime log.createdAt = t + zone.utcoffset log.createdAt * 1000000 := by
    rw [← ht]; rfl
  -- Where the log is counted, its label is its hour converted.
  have hlabel :
      ∀ i : Nat, i < 24 → floorHour (zone.wallTime log.createdAt) = startHour + i * hourLength →
        (chartLabels zone startHour)[i]? =
          some (floorHour (zone.wallTime log.createdAt) - zone.wallOffset
            (floorHour (zone.wallTime log.createdAt)) * 1000000) := by
    intro i hi hhour
    rw [chartLabels_get? hi, ZoneInfo.utcOfWall, hhour]
  refine ⟨?_, ?_⟩
  · intro ⟨i, label, hbucket, hget, hle, hlt⟩
    obtain ⟨hi, hhour⟩ := (chartBucket_eq_some_iff hstart).mp hbucket
    have heq := Option.some.inj ((hlabel i hi hhour).symm.trans hget)
    have hle : label ≤ t := ht ▸ hle
    have hlt : t < label + hourLength := ht ▸ hlt
    generalize zone.wallTime log.createdAt % hourLength = past at *
    rw [hourLength] at *
    omega
  · intro ⟨⟨hlow, hhigh⟩, hbefore, hafter⟩
    have hhour : floorHour (zone.wallTime log.createdAt) = startHour +
        (((floorHour (zone.wallTime log.createdAt) - startHour) / hourLength).toNat :
           Int) * hourLength := by
      rw [hourLength] at *
      omega
    have hi : ((floorHour (zone.wallTime log.createdAt) - startHour) / hourLength).toNat < 24 := by
      rw [hourLength] at *
      omega
    have hbegun : floorHour (zone.wallTime log.createdAt) -
        zone.wallOffset (floorHour (zone.wallTime log.createdAt)) * 1000000 ≤ t := by
      omega
    have hgoing : t < floorHour (zone.wallTime log.createdAt) -
        zone.wallOffset (floorHour (zone.wallTime log.createdAt)) * 1000000 + hourLength := by
      omega
    exact ⟨_, _, (chartBucket_eq_some_iff hstart).mpr ⟨hi, hhour⟩, hlabel _ hi hhour,
      ht.symm ▸ hbegun, ht.symm ▸ hgoing⟩

end

/-! ### The chart -/

/-- Each log is counted once, in the hour it falls in, and the labels go up. -/
structure ChartExact (zone : ZoneInfo) (now : Instant) (logs : List RequestLog)
    (chart : Chart) : Prop where
  labels : chart.labels.Pairwise (· < ·)
  counted : ∀ log ∈ logs, ∃ i label, chartBucket zone (chartStart zone now) log = some i ∧
    chart.labels[i]? = some label ∧ label ≤ log.createdAt ∧ log.createdAt < label + hourLength
  data : chart.datasets.map ChartDataset.data =
    [(List.range 24).map (bucketCount zone (chartStart zone now) logs true),
      (List.range 24).map (bucketCount zone (chartStart zone now) logs false)]

/-- The times are within the years of a datetime, no clock change between two hours makes up for the
hour, every log reads one of the 24 hours, and between the start of its hour and the log the clock
was changed by no more than the log is past the hour. -/
structure ClockKept (zone : ZoneInfo) (now : Instant) (logs : List RequestLog) : Prop where
  years : ∀ t ∈ chartTimes zone now logs ++ chartLabels zone (chartStart zone now),
    datetimeMin ≤ t ∧ t ≤ datetimeMax
  labels : ∀ i : Nat, i < 23 →
    zone.wallOffset (chartStart zone now + (i + 1) * hourLength) -
      zone.wallOffset (chartStart zone now + i * hourLength) < 3600
  hours : ∀ log ∈ logs, chartStart zone now ≤ floorHour (zone.wallTime log.createdAt) ∧
    floorHour (zone.wallTime log.createdAt) ≤ chartStart zone now + 23 * hourLength
  offsets : ∀ log ∈ logs,
    zone.wallTime log.createdAt % hourLength - hourLength <
        (zone.utcoffset log.createdAt - zone.wallOffset (floorHour (zone.wallTime log.createdAt))) *
          1000000 ∧
      (zone.utcoffset log.createdAt - zone.wallOffset (floorHour (zone.wallTime log.createdAt))) *
        1000000 ≤ zone.wallTime log.createdAt % hourLength

/-- The counts start at zero. -/
theorem countLogs_eq (zone : ZoneInfo) (startHour : Int) (logs : List RequestLog) :
    countLogs zone startHour logs (List.replicate 24 0, List.replicate 24 0) =
      ((List.range 24).map (bucketCount zone startHour logs true),
        (List.range 24).map (bucketCount zone startHour logs false)) := by
  have hzero : ∀ (f : Nat → Nat) (i : Nat),
      (List.replicate 24 0)[i]?.map (· + f i) = ((List.range 24).map f)[i]? := by
    intro f i
    rw [List.getElem?_map, List.getElem?_replicate]
    split
    · next hlt => rw [List.getElem?_range hlt, Option.map_some, Option.map_some, Nat.zero_add]
    · next hge =>
        rw [List.getElem?_eq_none (by rw [List.length_range]; omega), Option.map_none,
          Option.map_none]
  have hcounts := @countLogs_get? zone startHour logs (List.replicate 24 0, List.replicate 24 0)
  apply Prod.ext
  · apply List.ext_getElem?
    intro i
    exact (hcounts i).1.trans (hzero _ i)
  · apply List.ext_getElem?
    intro i
    exact (hcounts i).2.trans (hzero _ i)

/-- What is answered, if all times can be computed. -/
def chartOf (zone : ZoneInfo) (now : Instant) (tz : String) (logs : List RequestLog) : Chart :=
  { range := "24h"
    bucket := "hour"
    tz
    labels := chartLabels zone (chartStart zone now)
    datasets :=
      [{ label := "success"
         color := "#43e97b"
         data := (List.range 24).map (bucketCount zone (chartStart zone now) logs true) },
        { label := "failed"
          color := "#f5576c"
          data := (List.range 24).map (bucketCount zone (chartStart zone now) logs false) }] }

section

variable {zones : String → Option ZoneInfo} {zone : ZoneInfo} {now : Instant} {query : ChartQuery}
  {clients : Table Client} {logs : Table RequestLog}

theorem dashboardChart_eq (hrange : query.range = "24h") (hbucket : query.bucket = "hour")
    (hzone : zones query.tz = some zone) :
    dashboardChart zones now query clients logs =
      if (chartTimes zone now (chartLogs zone now query.clientId clients logs) ++
          chartLabels zone (chartStart zone now)).all fun t =>
            datetimeMin ≤ t && t ≤ datetimeMax then
        .ok (chartOf zone now query.tz (chartLogs zone now query.clientId clients logs))
      else .error .overflowError := by
  simp only [dashboardChart, hrange, hbucket, hzone, countLogs_eq, ne_eq, not_true_eq_false,
    if_false]
  rfl

/-- The chart is exact exactly where the clock was kept. -/
theorem dashboard_chart_exact_iff (hrange : query.range = "24h") (hbucket : query.bucket = "hour")
    (hzone : zones query.tz = some zone) :
    (∃ chart, dashboardChart zones now query clients logs = .ok chart ∧
        ChartExact zone now (chartLogs zone now query.clientId clients logs) chart) ↔
      ClockKept zone now (chartLogs zone now query.clientId clients logs) := by
  have hexact : ∀ log, _ :=
    fun log => @chartBucket_exact_iff zone (chartStart zone now) log chartStart_emod
  rw [dashboardChart_eq hrange hbucket hzone]
  split
  · next hyears =>
    simp only [List.all_eq_true, Bool.and_eq_true, decide_eq_true_eq] at hyears
    refine ⟨?_, ?_⟩
    · intro ⟨chart, hchart, hlabels, hcounted, _⟩
      obtain rfl := Except.ok.inj hchart
      exact ⟨hyears, chartLabels_sorted_iff.mp hlabels,
        fun log hlog => ((hexact log).mp (hcounted log hlog)).1,
        fun log hlog => ((hexact log).mp (hcounted log hlog)).2⟩
    · intro h
      exact ⟨_, rfl, chartLabels_sorted_iff.mpr h.labels,
        fun log hlog => (hexact log).mpr ⟨h.hours log hlog, h.offsets log hlog⟩, rfl⟩
  · next hyears =>
    refine iff_of_false ?_ ?_
    · intro ⟨chart, hchart, _⟩
      cases hchart
    · intro h
      apply hyears
      simpa only [List.all_eq_true, Bool.and_eq_true, decide_eq_true_eq] using h.years

end

/-! ### A day with a clock change -/

/-- New York around the end of summer time on 3 November 2024, at 06:00 UTC. -/
def newYork : ZoneInfo := .changing (-14400) 1730613600000000 (-18000)

/-- A request of the one client. -/
def requestAt (createdAt : Instant) : Table RequestLog :=
  Table.empty.insert
    { requestId := [], clientId := some 1, endpoint := [], method := [], success := some true,
      createdAt }

/-- A request at half past one before the clock is put back, seen at noon. -/
theorem before_change_exact :
    ∃ chart, dashboardChart (fun _ => some newYork) 1730637240000000 {} (Table.empty.insert {})
          (requestAt 1730611800000000) = .ok chart ∧
        ChartExact newYork 1730637240000000
          (chartLogs newYork 1730637240000000 none (Table.empty.insert {})
            (requestAt 1730611800000000)) chart :=
  (dashboard_chart_exact_iff rfl rfl rfl).mpr
    ⟨by decide, by decide, by decide, by decide⟩

/-- Half past one comes again an hour later, and is counted in the hour of the first. -/
theorem after_change_misplaced :
    let log : RequestLog :=
      { requestId := [], clientId := some 1, endpoint := [], method := [], success := some true
        createdAt := 1730615400000000 }
    chartLogs newYork 1730637240000000 none (Table.empty.insert {}) (requestAt 1730615400000000) =
      [log] ∧ chartBucket newYork (chartStart newYork 1730637240000000) log = some 17 ∧
      (chartLabels newYork (chartStart newYork 1730637240000000))[17]? =
        some (1730615400000000 - 5400000000) ∧
      ¬∃ chart, dashboardChart (fun _ => some newYork) 1730637240000000 {} (Table.empty.insert {})
            (requestAt 1730615400000000) = .ok chart ∧
          ChartExact newYork 1730637240000000
            (chartLogs newYork 1730637240000000 none (Table.empty.insert {})
             (requestAt 1730615400000000)) chart := by
  intro log
  have hlogs :
      chartLogs newYork 1730637240000000 none (Table.empty.insert {}) (requestAt 1730615400000000) =
        [log] := by
    decide
  have hbucket : chartBucket newYork (chartStart newYork 1730637240000000) log = some 17 := by
    decide
  have hlabel : (chartLabels newYork (chartStart newYork 1730637240000000))[17]? =
      some (1730615400000000 - 5400000000) := by
    decide
  refine ⟨hlogs, hbucket, hlabel, ?_⟩
  intro ⟨chart, hchart, h⟩
  rw [dashboardChart_eq rfl rfl rfl, if_pos (by decide)] at hchart
  obtain rfl := Except.ok.inj hchart
  obtain ⟨i, label, hcounted, hget, -, hlt⟩ := h.counted log (hlogs ▸ List.mem_singleton_self log)
  obtain rfl := Option.some.inj (hbucket.symm.trans hcounted)
  obtain rfl := Option.some.inj (hlabel.symm.trans hget)
  exact absurd hlt (by decide)

end Fcam

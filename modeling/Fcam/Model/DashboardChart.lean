import Fcam.Model.RequestLogs

/-!
# Requests by the hour

`control_plane.py`: `dashboard_chart`, which counts the requests of the last 24 hours of a time
zone's wall clock. Times of one zone are added and subtracted as their wall clocks read, so only a
conversion to UTC looks at the offset.
-/

namespace Fcam

/-- An hour, in microseconds. -/
def hourLength : Int := 3600000000

/-- `t.replace(minute=0, second=0, microsecond=0)`, of a wall clock. -/
def floorHour (wall : Int) : Int := wall / hourLength * hourLength

/-- A zone that also tells the offset of what a wall clock reads: of a reading that occurs twice the
first one's, of one that is skipped the offset before. -/
structure ZoneInfo extends Zone where
  wallOffset : Int → Int

namespace ZoneInfo

variable (zone : ZoneInfo)

/-- `t.astimezone(timezone.utc)`, of a wall clock. -/
def utcOfWall (wall : Int) : Int := wall - zone.wallOffset wall * 1000000

/-- A zone with one change of its clock. -/
def changing (before : Int) (change : Instant) (after : Int) : ZoneInfo where
  utcoffset t := if t < change then before else after
  wallOffset wall := if wall < change + max before after * 1000000 then before else after

end ZoneInfo

structure ChartQuery where
  range : String := "24h"
  bucket : String := "hour"
  clientId : Option Int := none
  tz : String := "UTC"

structure ChartDataset where
  label : String
  color : String
  data : List Nat
deriving DecidableEq

structure Chart where
  range : String
  bucket : String
  tz : String
  labels : List Int
  datasets : List ChartDataset
deriving DecidableEq

/-- The first of the 24 hours. -/
def chartStart (zone : ZoneInfo) (now : Instant) : Int :=
  floorHour (zone.wallTime now) - 23 * hourLength

/-- The logs of the query: of active clients, or of one, from the start of the first hour to the end
of the last. -/
def chartLogs (zone : ZoneInfo) (now : Instant) (clientId : Option Int) (clients : Table Client)
    (logs : Table RequestLog) :
    List RequestLog :=
  let startUtc := zone.utcOfWall (chartStart zone now)
  let endExclusiveUtc := zone.utcOfWall (floorHour (zone.wallTime now) + hourLength)
  (logs.rows.map Prod.snd).filter fun log =>
    decide (startUtc ≤ log.createdAt) && decide (log.createdAt < endExclusiveUtc) &&
      ((log.clientId.bind clients.get?).any Client.isActive) &&
      clientId.all fun id => log.clientId.any fun n => (n : Int) == id

/-- The bucket a log is counted in, if there is one. -/
def chartBucket (zone : ZoneInfo) (startHour : Int) (log : RequestLog) : Option Nat :=
  let idx := (floorHour (zone.wallTime log.createdAt) - startHour) / hourLength
  if idx < 0 ∨ 24 ≤ idx then none else some idx.toNat

/-- The loop over the logs, with the counts of those that succeeded and of the others. -/
def countLogs (zone : ZoneInfo) (startHour : Int) : List RequestLog → List Nat × List Nat →
    List Nat × List Nat
  | [], counts => counts
  | log :: rest, counts =>
    match chartBucket zone startHour log with
    | none => countLogs zone startHour rest counts
    | some idx =>
      if log.success = some true then
        countLogs zone startHour rest (counts.1.modify idx (· + 1), counts.2)
      else countLogs zone startHour rest (counts.1, counts.2.modify idx (· + 1))

/-- The start of each hour, in UTC. -/
def chartLabels (zone : ZoneInfo) (startHour : Int) : List Int :=
  (List.range 24).map fun i : Nat => zone.utcOfWall (startHour + i * hourLength)

/-- The times that are computed besides, each of which can leave the years a datetime can hold. -/
def chartTimes (zone : ZoneInfo) (now : Instant) (logs : List RequestLog) : List Int :=
  [zone.wallTime now, chartStart zone now, floorHour (zone.wallTime now) + hourLength,
    zone.utcOfWall (floorHour (zone.wallTime now) + hourLength)] ++
    logs.map fun log => zone.wallTime log.createdAt

/-- `dashboard_chart`, on the zones there are. -/
def dashboardChart (zones : String → Option ZoneInfo) (now : Instant) (query : ChartQuery)
    (clients : Table Client) (logs : Table RequestLog) : Except Raised Chart :=
  if query.range ≠ "24h" then .error (.fcam (validationError "Unsupported range"))
  else if query.bucket ≠ "hour" then .error (.fcam (validationError "Unsupported bucket"))
  else
    match zones query.tz with
    | none => .error (.fcam (validationError "Invalid tz"))
    | some zone =>
      let startHour := chartStart zone now
      let rows := chartLogs zone now query.clientId clients logs
      let labels := chartLabels zone startHour
      let counts := countLogs zone startHour rows (List.replicate 24 0, List.replicate 24 0)
      if (chartTimes zone now rows ++ labels).all fun t => datetimeMin ≤ t && t ≤ datetimeMax then
        .ok
          { range := "24h"
            bucket := "hour"
            tz := query.tz
            labels
            datasets :=
              [{ label := "success", color := "#43e97b", data := counts.1 },
                { label := "failed", color := "#f5576c", data := counts.2 }] }
      else .error .overflowError

end Fcam

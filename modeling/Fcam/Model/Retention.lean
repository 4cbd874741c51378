import Fcam.Model.AdminSession
import Fcam.Model.IdempotencyRun
import Fcam.Model.RequestLogs

/-!
# The retention clean-up

`cleanup_retention` deletes the rows of both logs that are past their days and the idempotency
records that have expired, all in one transaction. A history is made of the calls of
`start_or_replay` and `complete`, one after the other, and of such clean-ups; what completes a
request names it by the number of its start.
-/

namespace Fcam

/-- `RetentionConfig`. -/
structure RetentionConfig where
  requestLogsDays : Int := 30
  auditLogsDays : Int := 90

/-- The tables it deletes from; an entry of the audit log comes with its `created_at`. -/
structure RetentionTables where
  requestLogs : Table RequestLog := .empty
  auditLogs : Table (AuditLog × Instant) := .empty
  records : Records := .empty

structure CleanupResult where
  requestLogsDeleted : Nat
  auditLogsDeleted : Nat
  idempotencyRecordsDeleted : Nat
deriving DecidableEq, Repr

/-- Delete the rows from before `now - timedelta(days=days)`, with their number, or nothing where
the time overflows. -/
def deleteOlder {ρ : Type} (days : Int) (now : Instant) (createdAt : ρ → Instant) (t : Table ρ) :
    Option (Nat × Table ρ) :=
  if days ≤ 0 then some (0, t)
  else
    (plusSeconds now (-(days * 86400))).map fun threshold =>
      ((t.select fun row => createdAt row < threshold).length, t.deleteWhere fun _ row =>
        createdAt row < threshold)

/-- `cleanup_retention`; an error rolls everything back. -/
def RetentionTables.cleanupRetention (config : RetentionConfig) (now : Instant)
    (t : RetentionTables) :
    Except Raised CleanupResult × RetentionTables :=
  match deleteOlder config.requestLogsDays now RequestLog.createdAt t.requestLogs,
    deleteOlder config.auditLogsDays now Prod.snd t.auditLogs with
  | some (requestLogsDeleted, requestLogs), some (auditLogsDeleted, auditLogs) =>
    (.ok
        { requestLogsDeleted, auditLogsDeleted,
          idempotencyRecordsDeleted := (t.records.select (expiredAt now)).length },
      { requestLogs, auditLogs, records := Fcam.cleanupRetention now t.records })
  | _, _ => (.error .overflowError, t)

/-! ### Histories of calls -/

inductive RecordCall where
  | start (req : IdempotentRequest) (clock : Nat → Instant)
  | complete (i : Nat) (response : Response) (now : Instant)
  | cleanup (now : Instant)

def RecordCall.isCleanup : RecordCall → Bool
  | cleanup _ => true
  | _ => false

/-- The tables, the time of the last call, and when each start was made and how it was answered. -/
structure RecordHistory where
  clock : Instant
  tables : RetentionTables := {}
  begun : List (Instant × Begun) := []

/-- The record a start has got. -/
def Begun.ctx : Begun → Option Nat
  | letThrough ctx => ctx
  | _ => none

/-- An answer, whatever the id of its record. -/
def Begun.withoutId : Begun → Begun
  | letThrough ctx => letThrough (ctx.map fun _ => 0)
  | begun => begun

namespace RecordHistory

variable (config : AppConfig) (retention : RetentionConfig) (sha256 : Bytes → String)
  (h : RecordHistory)

def serve : RecordCall → RecordHistory
  | .start req clock =>
    let (begun, records) := startOrReplay config sha256 req clock h.tables.records
    { clock := clock 0
      tables := { h.tables with records }
      begun := h.begun ++ [(clock 0, begun)] }
  | .complete i response now =>
    let ctx := (h.begun[i]?).bind fun start => start.2.ctx
    { h with
      clock := now
      tables := { h.tables with records := complete config ctx response h.tables.records } }
  | .cleanup now => { h with clock := now, tables := (h.tables.cleanupRetention retention now).2 }

/-- The clock does not go back, and a request is completed before its record expires. -/
def Timely : RecordCall → Prop
  | .start _ clock => h.clock ≤ clock 0
  | .complete i _ now =>
    h.clock ≤ now ∧ ∀ start ∈ h.begun[i]?, ∀ deadline ∈ expiry config start.1, now ≤ deadline
  | .cleanup now => h.clock ≤ now

instance Timely.decidable : ∀ call, Decidable (h.Timely config call)
  | .start _ clock => inferInstanceAs (Decidable (h.clock ≤ clock 0))
  | .complete i _ now =>
    inferInstanceAs
      (Decidable (h.clock ≤ now ∧
        ∀ start ∈ h.begun[i]?, ∀ deadline ∈ expiry config start.1, now ≤ deadline))
  | .cleanup now => inferInstanceAs (Decidable (h.clock ≤ now))

end RecordHistory

end Fcam

import Fcam.Model.Retention

/-!
# Reading the audit log

`control_plane.py`: `query_audit_logs`, which pages through the entries by their ids. An entry comes
with its `created_at`. Between two pages operations log more of them, and the retention clean-up
deletes some.
-/

namespace Fcam

/-- The parameters of a query. -/
structure AuditQuery where
  limit : Int := 50
  cursor : Option Int := none
  from' : Option PyStr := none
  to' : Option PyStr := none
  actorType : Option String := none
  action : Option String := none
  resourceType : Option String := none
  resourceId : Option String := none

/-- An item of the answer; its other members are the columns of the entry. -/
structure AuditItem where
  id : Nat
  createdAt : Instant
  log : AuditLog
deriving DecidableEq

structure AuditPage where
  items : List AuditItem
  nextCursor : Option Nat
  hasMore : Bool
deriving DecidableEq

def auditItem (row : Nat × AuditLog × Instant) : AuditItem :=
  { id := row.1, createdAt := row.2.2, log := row.2.1 }

/-- The filters of a query besides the cursor. -/
def auditConditions (text : LogText) (query : AuditQuery) :
    Except FcamError (AuditLog × Instant → Condition) := do
  let since ← query.from'.mapM (parseRfc3339 text)
  let upTo ← query.to'.mapM (parseRfc3339 text)
  return fun entry =>
    .all
      [givenCondition since fun at' => some (decide (at' ≤ entry.2)),
        givenCondition upTo fun at' => some (decide (entry.2 ≤ at')),
        givenCondition query.actorType fun actorType => some (entry.1.actorType == actorType),
        givenCondition query.action fun action => some (entry.1.action == action),
        givenCondition query.resourceType fun resourceType =>
          .compare (· == resourceType) entry.1.resourceType,
        givenCondition query.resourceId fun resourceId =>
          .compare (· == resourceId) entry.1.resourceId]

/-- The filters of a query. -/
def auditCondition (cursor : Option Int) (conditions : AuditLog × Instant → Condition)
    (row : Nat × AuditLog × Instant) :
    Condition :=
  .all [givenCondition cursor fun cursor => some (decide ((row.1 : Int) < cursor)),
    conditions row.2]

/-- `query_audit_logs`. -/
def queryAuditLogs (text : LogText) (query : AuditQuery) (logs : Table (AuditLog × Instant)) :
    Except FcamError AuditPage := do
  let limit ← checkLimit query.limit
  let conditions ← auditConditions text query
  let kept := logs.rows.filter fun row => (auditCondition query.cursor conditions row).holds
  let rows := kept.reverse.take (limit + 1)
  let hasMore := decide (limit < rows.length)
  let items := (rows.take limit).map auditItem
  let nextCursor := if hasMore then items.getLast?.map AuditItem.id else none
  return { items, nextCursor, hasMore }

/-! ### What happens to the log -/

inductive AuditStep where
  | logged (entry : AuditLog) (createdAt : Instant)
  | cleanedUp (now : Instant)

namespace RetentionTables

variable (retention : RetentionConfig)

def auditStep (t : RetentionTables) : AuditStep → RetentionTables
  | .logged entry createdAt => { t with auditLogs := t.auditLogs.insert (entry, createdAt) }
  | .cleanedUp now => (t.cleanupRetention retention now).2

/-- The tables each request is answered from, given what happens before the next one. -/
def atRequest (start : RetentionTables) (between : Nat → List AuditStep) : Nat → RetentionTables
  | 0 => start
  | i + 1 => (between i).foldl (auditStep retention) (atRequest start between i)

end RetentionTables

/-- A clean-up leaves the entries since a time. -/
def AuditStep.Spares (retention : RetentionConfig) (since : Instant) : AuditStep → Prop
  | logged _ _ => True
  | cleanedUp now =>
    0 < retention.auditLogsDays →
      ∀ threshold ∈ plusSeconds now (-(retention.auditLogsDays * 86400)), threshold ≤ since

end Fcam

import Fcam.Base.ForeignKey
import Fcam.Model.AdminSession
import Fcam.Model.RequestLogs

/-!
# Purging, statement by statement

`purge_key` and `purge_client` on all seven tables, on a database that enforces the foreign keys of
`models.py` and the widths of its columns. The session does not flush by itself: the statements of
the handler come first, then, with the commit, the audit row, what the relationships of the deleted
object do to the rows they load, and the delete itself.
-/

namespace Fcam

structure Tables where
  db : Db := {}
  requestLogs : Table RequestLog := .empty
  auditLogs : Table AuditLog := .empty

/-! ### The foreign keys -/

def CreditSnapshot.keyRef (row : CreditSnapshot) : Option Nat := some row.apiKeyId

def IdempotencyRecord.clientRef (row : IdempotencyRecord) : Option Nat := some row.clientId

def UpstreamResourceBinding.clientRef (row : UpstreamResourceBinding) : Option Nat :=
  some row.clientId

def UpstreamResourceBinding.keyRef (row : UpstreamResourceBinding) : Option Nat := some row.apiKeyId

/-- The foreign keys `models.py` declares. -/
structure Tables.ForeignKeys (t : Tables) : Prop where
  keyClient : t.db.keys.Refers ApiKey.clientId t.db.clients
  logClient : t.requestLogs.Refers RequestLog.clientId t.db.clients
  logKey : t.requestLogs.Refers RequestLog.apiKeyId t.db.keys
  snapshotKey : t.db.creditSnapshots.Refers CreditSnapshot.keyRef t.db.keys
  recordClient : t.db.idempotencyRecords.Refers IdempotencyRecord.clientRef t.db.clients
  bindingClient : t.db.bindings.Refers UpstreamResourceBinding.clientRef t.db.clients
  bindingKey : t.db.bindings.Refers UpstreamResourceBinding.keyRef t.db.keys

/-- No row refers to a key. -/
structure Tables.KeyFree (t : Tables) (id : Nat) : Prop where
  logs : ¬t.requestLogs.PointsTo RequestLog.apiKeyId id
  snapshots : ¬t.db.creditSnapshots.PointsTo CreditSnapshot.keyRef id
  bindings : ¬t.db.bindings.PointsTo UpstreamResourceBinding.keyRef id

/-- No row refers to a client. -/
structure Tables.ClientFree (t : Tables) (id : Nat) : Prop where
  keys : ¬t.db.keys.PointsTo ApiKey.clientId id
  logs : ¬t.requestLogs.PointsTo RequestLog.clientId id
  records : ¬t.db.idempotencyRecords.PointsTo IdempotencyRecord.clientRef id
  bindings : ¬t.db.bindings.PointsTo UpstreamResourceBinding.clientRef id

/-! ### Statements -/

/-- The widths of the columns of `audit_logs`. -/
def AuditLog.fits (row : AuditLog) : Bool :=
  decide (row.actorType.length ≤ 32) && row.actorId.all (·.length ≤ 255) &&
    decide (row.action.length ≤ 255) && row.resourceType.all (·.length ≤ 64) &&
      row.resourceId.all (·.length ≤ 255) && row.ip.all (·.length ≤ 64) &&
    row.userAgent.all (·.length ≤ 512)

/-- The insert of `_audit`, when it is flushed. -/
def Tables.insertAudit (row : AuditLog) (t : Tables) : Option Tables :=
  if row.fits then some { t with auditLogs := t.auditLogs.insert row } else none

/-- `DELETE` of a row of `api_keys`: its snapshots go with it, any other row that refers to it keeps
it. -/
def Tables.deleteKeyRow (id : Nat) (t : Tables) : Option Tables :=
  if t.requestLogs.PointsTo RequestLog.apiKeyId id ∨
    t.db.bindings.PointsTo UpstreamResourceBinding.keyRef id then none
  else
    some
      { t with
        db :=
          { t.db with
            creditSnapshots := t.db.creditSnapshots.deleteRefs CreditSnapshot.keyRef id
            keys := t.db.keys.delete id } }

/-- `DELETE` of a row of `clients`. -/
def Tables.deleteClientRow (id : Nat) (t : Tables) : Option Tables :=
  if t.db.keys.PointsTo ApiKey.clientId id ∨ t.requestLogs.PointsTo RequestLog.clientId id ∨
      t.db.idempotencyRecords.PointsTo IdempotencyRecord.clientRef id ∨
      t.db.bindings.PointsTo UpstreamResourceBinding.clientRef id then none
  else some { t with db := { t.db with clients := t.db.clients.delete id } }

def clearLogKey (row : RequestLog) : RequestLog := { row with apiKeyId := none }

def clearLogClient (row : RequestLog) : RequestLog := { row with clientId := none }

def clearKeyClient (row : ApiKey) : ApiKey := { row with clientId := none }

/-- `db.delete(key)`, when it is flushed: `request_logs` is set to null, `credit_snapshots` has the
delete cascade, and there is no relationship to the bindings. -/
def Tables.deleteKey (id : Nat) (t : Tables) : Option Tables :=
  Tables.deleteKeyRow id
    { t with
      requestLogs := t.requestLogs.updateWhere RequestLog.apiKeyId id clearLogKey
      db :=
        { t.db with
          creditSnapshots := t.db.creditSnapshots.deleteRefs CreditSnapshot.keyRef id } }

/-- `db.delete(client)`, when it is flushed: its keys, logs and records are set to null, which the
column of the records does not allow. -/
def Tables.deleteClient (id : Nat) (t : Tables) : Option Tables :=
  if t.db.idempotencyRecords.PointsTo IdempotencyRecord.clientRef id then none
  else
    Tables.deleteClientRow id
      { t with
        requestLogs := t.requestLogs.updateWhere RequestLog.clientId id clearLogClient
        db := { t.db with keys := t.db.keys.updateWhere ApiKey.clientId id clearKeyClient } }

/-! ### Handlers -/

/-- The end of both handlers: the tables a statement leaves, or those before the transaction. -/
def Tables.committed (t : Tables) : Option Tables → Except FcamError Unit × Tables
  | some purged => (.ok (), purged)
  | none => (.error (dbUnavailable "Database unavailable"), t)

/-- `purge_key`. -/
def Tables.purgeKey (request : AdminRequest) (id : Nat) (t : Tables) :
    Except FcamError Unit × Tables :=
  match t.db.keys.get? id with
  | none => (.error (notFound "Not found"), t)
  | some key =>
    let updated :=
      { t with requestLogs := t.requestLogs.updateWhere RequestLog.apiKeyId id clearLogKey }
    t.committed ((updated.insertAudit (auditKey request "key.purge" id key)).bind
      (Tables.deleteKey id))

/-- `purge_client`. -/
def Tables.purgeClient (request : AdminRequest) (id : Nat) (t : Tables) :
    Except FcamError Unit × Tables :=
  if (t.db.clients.get? id).isNone then (.error (notFound "Not found"), t)
  else
    let updated :=
      { t with
        requestLogs := t.requestLogs.updateWhere RequestLog.clientId id clearLogClient
        db :=
          { t.db with
            keys := t.db.keys.updateWhere ApiKey.clientId id clearKeyClient
            idempotencyRecords :=
              t.db.idempotencyRecords.deleteRefs IdempotencyRecord.clientRef id } }
    t.committed ((updated.insertAudit (auditClient request "client.purge" id)).bind
      (Tables.deleteClient id))

end Fcam

import Fcam.Base.Table
import Fcam.Model.Text
import Fcam.Model.Time

/-!
# Rows of the database

The columns the modelled functions read or write. A row's id is its key in the `Table`. Quotas,
limits and counters are natural numbers: every request body that sets one is validated to be at
least zero, and the counters only grow from zero.
-/

namespace Fcam

inductive Provider where
  | firecrawl
  | exa
deriving DecidableEq, Repr

/-- The values of `api_keys.status`. -/
inductive KeyStatus where
  | active
  | cooling
  | quotaExceeded
  | failed
  | disabled
  | decryptFailed
deriving DecidableEq, Repr

/-- A row of `api_keys`. -/
structure ApiKey where
  clientId : Option Nat := none
  apiKeyCiphertext : Bytes := []
  apiKeyHash : String := ""
  apiKeyLast4 : String := ""
  accountUsername : Option String := none
  accountPasswordCiphertext : Option Bytes := none
  accountVerifiedAt : Option Instant := none
  name : Option String := none
  planType : String := "free"
  isActive : Bool := true
  dailyQuota : Nat := 5
  dailyUsage : Nat := 0
  quotaResetAt : Option Day := none
  maxConcurrent : Nat := 2
  rateLimitPerMin : Nat := 10
  cooldownUntil : Option Instant := none
  totalRequests : Nat := 0
  lastUsedAt : Option Instant := none
  lastCreditSnapshotId : Option Nat := none
  lastCreditCheckAt : Option Instant := none
  cachedRemainingCredits : Option Int := none
  cachedPlanCredits : Option Int := none
  nextRefreshAt : Option Instant := none
  provider : Provider := .firecrawl
  status : KeyStatus := .active
deriving DecidableEq, Repr

/-- The values of `clients.status`. -/
inductive ClientStatus where
  | active
  | disabled
  | deleted
deriving DecidableEq, Repr

/-- A row of `clients`. -/
structure Client where
  name : String := ""
  tokenHash : String := ""
  isActive : Bool := true
  dailyQuota : Option Nat := none
  dailyUsage : Nat := 0
  quotaResetAt : Option Day := none
  rateLimitPerMin : Nat := 60
  maxConcurrent : Nat := 10
  lastUsedAt : Option Instant := none
  status : ClientStatus := .active
deriving DecidableEq, Repr

/-- A row of `credit_snapshots`. -/
structure CreditSnapshot where
  apiKeyId : Nat
  remainingCredits : Int
  planCredits : Int
  billingPeriodStart : Option Instant := none
  billingPeriodEnd : Option Instant := none
  snapshotAt : Instant
  fetchSuccess : Bool
deriving DecidableEq, Repr

/-- A response of the gateway, as the data-plane handlers return it and as a finished idempotent
request stores it. The stored text is the JSON of a map of the headers and the base64 of the body,
which `_deserialize_response` decodes to the same map and body. -/
structure Response where
  statusCode : Nat
  headers : List (String × String)
  body : Bytes
deriving DecidableEq, Repr

/-- The values of `idempotency_records.status`. -/
inductive RecordStatus where
  | inProgress
  | completed
deriving DecidableEq, Repr

/-- A row of `idempotency_records`. The body column holds the stored headers and body. -/
structure IdempotencyRecord where
  clientId : Nat
  idempotencyKey : String
  requestHash : String
  status : RecordStatus := .inProgress
  responseStatusCode : Option Nat := none
  responseBody : Option (List (String × String) × Bytes) := none
  expiresAt : Option Instant
deriving DecidableEq, Repr

/-- A row of `upstream_resource_bindings`. -/
structure UpstreamResourceBinding where
  clientId : Nat
  apiKeyId : Nat
  resourceType : String
  resourceId : PyStr
  expiresAt : Option Instant := none
deriving DecidableEq, Repr

/-- The tables the data plane, the key pool and the credit monitor work on. -/
structure Db where
  keys : Table ApiKey := .empty
  clients : Table Client := .empty
  creditSnapshots : Table CreditSnapshot := .empty
  idempotencyRecords : Table IdempotencyRecord := .empty
  bindings : Table UpstreamResourceBinding := .empty
deriving DecidableEq

/-- A scope of the round robin: the client, if any, and the provider. -/
structure Scope where
  clientId : Option Nat
  provider : Provider
deriving DecidableEq, Repr

/-- The database and what the process keeps in memory: the round-robin position of each scope and
the failure count of each key, with the instant its window began. -/
structure World where
  db : Db := {}
  rrIndexByScope : Scope → Nat := fun _ => 0
  failures : Nat → Option (Int × Instant) := fun _ => none

namespace World

def withKeys (w : World) (keys : Table ApiKey) : World := { w with db := { w.db with keys } }

/-- Commit a change of one key row. -/
def modifyKey (w : World) (id : Nat) (f : ApiKey → ApiKey) : World :=
  w.withKeys (w.db.keys.modify id f)

def modifyClient (w : World) (id : Nat) (f : Client → Client) : World :=
  { w with db := { w.db with clients := w.db.clients.modify id f } }

def key? (w : World) (id : Nat) : Option ApiKey := w.db.keys.get? id

@[simp] theorem key?_withKeys (w : World) (keys : Table ApiKey) (id : Nat) :
    (w.withKeys keys).key? id = keys.get? id := rfl

@[simp] theorem key?_modifyKey (w : World) (id other : Nat) (f : ApiKey → ApiKey) :
    (w.modifyKey id f).key? other = if other = id then (w.key? other).map f else w.key? other :=
  Table.get?_modify w.db.keys id other f

@[simp] theorem key?_modifyClient (w : World) (id other : Nat) (f : Client → Client) :
    (w.modifyClient id f).key? other = w.key? other := rfl

end World

end Fcam

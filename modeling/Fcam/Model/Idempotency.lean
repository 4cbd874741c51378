import Fcam.Base.Attribute
import Fcam.Base.Loop
import Fcam.Model.Upstream

/-!
# Idempotent requests

`start_or_replay` and `complete`. The statements they send are the definitions of the first
sections, each atomic. `startOrReplay` and `complete` run them without interruption; where other
requests come in between, the same statements are put together by the steps of a session.
`created_at` is read by nothing.
-/

namespace Fcam

abbrev Records := Table IdempotencyRecord

/-- What the handlers pass to `start_or_replay`. -/
structure IdempotentRequest where
  clientId : Nat
  idempotencyKey : Option String
  endpoint : String
  method : String
  payload : Json

/-- What `start_or_replay` returns or raises: the request is let through, with the id of its record
if it has one, or it is answered by a stored response. -/
inductive Begun where
  | letThrough (ctx : Option Nat)
  | replay (response : Response)
  | raised (error : Raised)
deriving DecidableEq

def idempotencyKeyRequired : FcamError :=
  { statusCode := 400, code := .idempotencyKeyRequired, message := "Idempotency key required" }

def idempotencyKeyConflict : FcamError :=
  { statusCode := 409, code := .idempotencyKeyConflict, message := "Idempotency key conflict" }

def idempotencyInProgress : FcamError :=
  { statusCode := 409
    code := .idempotencyInProgress
    message := "Idempotent request in progress"
    retryAfter := some 1 }

def invalidIdempotencyRecord : FcamError := dbUnavailable "Invalid idempotency record"

/-! ### The fingerprint -/

/-- The text `_hash_request` encodes and hashes. -/
def requestText (req : IdempotentRequest) : PyStr :=
  Json.dumps
    (.obj
      [(PyStr.ofString "method", .str ((upper req.method).map Char.toNat)),
        (PyStr.ofString "endpoint", .str (PyStr.ofString req.endpoint)),
        (PyStr.ofString "payload", req.payload)])

/-- `_hash_request`, or nothing where the text cannot be encoded. -/
def hashRequest (sha256 : Bytes → String) (req : IdempotentRequest) : Option String :=
  (utf8Encode (requestText req)).map sha256

/-! ### The stored response -/

/-- `_serialize_response`; the stored text is kept as the headers and the body it consists of. -/
def serializeResponse (response : Response) (maxBytes : Int) :
    Except FcamError (Nat × List (String × String) × Bytes) :=
  if maxBytes < response.body.length then
    .error { statusCode := 413, code := .requestTooLarge, message := "Response too large to store" }
  else .ok (response.statusCode, response.headers, response.body)

/-- `_deserialize_response`. -/
def deserializeResponse (statusCode : Nat) (stored : List (String × String) × Bytes) : Begun :=
  match mkResponse statusCode stored.1 stored.2 with
  | .ok response => .replay response
  | .error _ => .raised (.fcam invalidIdempotencyRecord)

/-- `max(int(config.idempotency.max_response_bytes), 1)`. -/
def maxResponseBytes (config : AppConfig) : Int := max config.idempotency.maxResponseBytes 1

/-! ### The statements -/

/-- `expires_at < now`, for a record that expires. -/
def expiredAt (now : Instant) (record : IdempotencyRecord) : Bool := record.expiresAt.any (· < now)

/-- `_cleanup_expired`. -/
def cleanupExpired (clientId : Nat) (now : Instant) (records : Records) : Records :=
  records.deleteWhere fun _ record => record.clientId == clientId && expiredAt now record

def ofKey (clientId : Nat) (idempotencyKey : String) (record : IdempotencyRecord) : Bool :=
  record.clientId == clientId && record.idempotencyKey == idempotencyKey

/-- The record of a client with an idempotency key, of which the unique constraint allows one. -/
def recordOfKey? (clientId : Nat) (idempotencyKey : String) (records : Records) :
    Option (Nat × IdempotencyRecord) :=
  records.rows.find? fun row => ofKey clientId idempotencyKey row.2

/-- Insert and commit a record, or nothing where the unique constraint is violated. -/
def insertRecord (record : IdempotencyRecord) (records : Records) : Option (Nat × Records) :=
  if (recordOfKey? record.clientId record.idempotencyKey records).isSome then none
  else some (records.nextId, records.insert record)

/-- What a record that has not expired answers a request with the given hash. -/
def answerOf (hash : String) (existing : IdempotencyRecord) : Begun :=
  if existing.requestHash ≠ hash then .raised (.fcam idempotencyKeyConflict)
  else
    match existing.status, existing.responseStatusCode, existing.responseBody with
    | .completed, some statusCode, some stored => deserializeResponse statusCode stored
    | _, _, _ => .raised (.fcam idempotencyInProgress)

/-- What was found in the way of an insert. -/
inductive Reread where
  | expired (id : Nat)
  | answer (begun : Begun)

/-- Read the record that was in the way of a request begun at `now`. -/
def reread (clientId : Nat) (idempotencyKey hash : String) (now : Instant)
    (records : Records) : Reread :=
  match recordOfKey? clientId idempotencyKey records with
  | none => .answer (.raised (.fcam (dbUnavailable "Database unavailable")))
  | some (id, existing) =>
    if expiredAt now existing then .expired id else .answer (answerOf hash existing)

def deleteRecord (id : Nat) (records : Records) : Records :=
  records.deleteWhere fun other _ => other == id

/-- `UPDATE idempotency_records SET ... WHERE id = ...`: the attributes that differ from the loaded
record are written into whatever record has the id by then. -/
def storeResponse (id : Nat) (loaded : IdempotencyRecord) (response : Response)
    (records : Records) : Records :=
  records.modify id fun record =>
    { record with
      status := writeBack loaded.status .completed record.status
      responseStatusCode :=
        writeBack loaded.responseStatusCode (some response.statusCode) record.responseStatusCode
      responseBody :=
        writeBack loaded.responseBody (some (response.headers, response.body)) record.responseBody }

/-! ### The functions -/

section

variable (config : AppConfig) (sha256 : Bytes → String) (req : IdempotentRequest)

/-- `now + timedelta(seconds=max(int(config.idempotency.ttl_seconds), 1))`. -/
def expiry (now : Instant) : Option Instant := plusSeconds now (max config.idempotency.ttlSeconds 1)

def newRecord (idempotencyKey hash : String) (expiresAt : Instant) : IdempotencyRecord :=
  { clientId := req.clientId, idempotencyKey, requestHash := hash, expiresAt := some expiresAt }

/-- The endpoint is one on which a key is required. -/
def keyRequired : Bool :=
  config.idempotency.requireOn.any fun endpoint =>
    let stripped := strip (PyStr.ofString endpoint)
    stripped != [] && stripped == PyStr.ofString req.endpoint

/-- The key under which a request gets a record, or what `start_or_replay` makes of a request
without one. -/
def givenKey : Except Begun String :=
  if !config.idempotency.enabled then .error (.letThrough none)
  else
    match req.idempotencyKey.filter (· ≠ "") with
    | some key => .ok key
    | none =>
      if keyRequired config req then .error (.raised (.fcam idempotencyKeyRequired))
      else .error (.letThrough none)

/-- The hash and the expiry of the record of a request, computed after the clean-up, or the
exception raised on the way. -/
def recordFields (now : Instant) : Except Raised (String × Instant) :=
  match hashRequest sha256 req, expiry config now with
  | none, _ => .error .unicodeEncodeError
  | some _, none => .error .overflowError
  | some hash, some expiresAt => .ok (hash, expiresAt)

/-- One call of `start_or_replay` with a key, up to its end or to the call of itself. -/
def startOnce (key : String) (now : Instant) (records : Records) : Pass Records (Begun × Records) :=
  let records := cleanupExpired req.clientId now records
  match recordFields config sha256 req now with
  | .error error => .done (.raised error, records)
  | .ok (hash, expiresAt) =>
    match insertRecord (newRecord req key hash expiresAt) records with
    | some (id, records) => .done (.letThrough (some id), records)
    | none =>
      match reread req.clientId key hash now records with
      | .expired id => .again (deleteRecord id records)
      | .answer begun => .done (begun, records)

/-- `sys.getrecursionlimit()`. -/
def recursionLimit : Nat := 1000

/-- `start_or_replay`, with the clock readings of its calls. -/
def startOrReplay (clock : Nat → Instant) (records : Records) : Begun × Records :=
  match givenKey config req with
  | .error begun => (begun, records)
  | .ok key =>
    match loopWhile (fun _ => true) (fun i => startOnce config sha256 req key (clock i))
      recursionLimit 0 records with
    | .done ended => ended
    | .again records => (.raised (.other "RecursionError"), records)

/-- `complete`. -/
def complete (ctx : Option Nat) (response : Response) (records : Records) : Records :=
  match ctx.filter fun _ => config.idempotency.enabled with
  | none => records
  | some id =>
    match records.get? id, serializeResponse response (maxResponseBytes config) with
    | some loaded, .ok _ => storeResponse id loaded response records
    | _, _ => records

end

end Fcam

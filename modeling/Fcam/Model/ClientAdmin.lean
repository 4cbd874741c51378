import Fcam.Model.ControlPlane
import Fcam.Model.IdempotencyRun

/-!
# Administration of clients

The handlers of `control_plane.py` that write client rows, the two that purge rows, and
`require_client`, which says whose token a request bears. A handler that raises commits nothing.
-/

namespace Fcam

/-! ### Who is calling -/

/-- `_bearer_token`. -/
def bearerToken (authorization : Option String) : Option String :=
  match authorization.map fun text => text.toList.span (· ≠ ' ') with
  | some (scheme, ' ' :: rest) =>
    let token := ((rest.dropWhile (isSpace ·.toNat)).reverse.dropWhile (isSpace ·.toNat)).reverse
    if scheme.map Char.toLower = "bearer".toList ∧ token ≠ [] then some (String.ofList token)
    else none
  | _ => none

section

variable (security : Security) (masterKey : Option Bytes)

/-- `require_client`: the client whose token the request bears. -/
def requireClient (authorization : Option String) (w : World) : Except FcamError (Nat × Client) :=
  let unauthorized : FcamError :=
    { statusCode := 401, code := .clientUnauthorized, message := "Missing or invalid client token" }
  match masterKey, bearerToken authorization with
  | none, _ => .error notReady
  | some _, none => .error unauthorized
  | some masterKey, some token =>
    match w.db.clients.select fun client =>
      client.tokenHash == security.hmacSha256Hex masterKey token with
    | [] => .error unauthorized
    | [(id, client)] =>
      if client.isActive then .ok (id, client)
      else .error { statusCode := 403, code := .clientDisabled, message := "Client disabled" }
    | _ => .error (dbUnavailable "Database unavailable")

/-! ### One client -/

structure CreateClientRequest where
  name : String
  dailyQuota : Option Nat := none
  rateLimitPerMin : Nat := 60
  maxConcurrent : Nat := 10
  isActive : Bool := true

/-- `create_client`, with the token drawn for the client. -/
def createClient (today : Day) (token : String) (req : CreateClientRequest) (w : World) :
    Except FcamError (Nat × Client) × World :=
  match masterKey with
  | none => (.error notReady, w)
  | some masterKey =>
    let client : Client :=
      { name := req.name
        tokenHash := security.hmacSha256Hex masterKey token
        isActive := req.isActive
        status := if req.isActive then .active else .disabled
        dailyQuota := req.dailyQuota
        quotaResetAt := some today
        rateLimitPerMin := req.rateLimitPerMin
        maxConcurrent := req.maxConcurrent }
    if w.db.clients.rows.any fun row =>
      row.2.name == client.name || row.2.tokenHash == client.tokenHash then
      (.error { statusCode := 400, code := .validationError, message := "Client already exists" },
       w)
    else
      (.ok (w.db.clients.nextId, client),
       { w with db := { w.db with clients := w.db.clients.insert client } })

/-- The body of an update: a field that is absent, or present with a value that may be null. -/
structure UpdateClientRequest where
  dailyQuota : Option (Option Nat) := none
  rateLimitPerMin : Option (Option Nat) := none
  maxConcurrent : Option (Option Nat) := none
  isActive : Option (Option Bool) := none

/-- Enable or disable a client. -/
def setClientActive (isActive : Bool) (client : Client) : Client :=
  { client with isActive, status := if isActive then .active else .disabled }

/-- The row `update_client` writes. A null for `is_active` disables. -/
def updateClientRow (req : UpdateClientRequest) (client : Client) : Client :=
  let client :=
    { client with
      dailyQuota := req.dailyQuota.getD client.dailyQuota
      rateLimitPerMin := (req.rateLimitPerMin.bind id).getD client.rateLimitPerMin
      maxConcurrent := (req.maxConcurrent.bind id).getD client.maxConcurrent }
  match req.isActive with
  | none => client
  | some isActive => setClientActive (isActive.getD false) client

/-- `update_client`. The commit fails on a null for a column that is not nullable. -/
def updateClient (id : Nat) (req : UpdateClientRequest) (w : World) :
    Except FcamError Client × World :=
  match w.db.clients.get? id with
  | none => (.error (notFound "Not found"), w)
  | some client =>
    if client.status = .deleted then (.error (notFound "Not found"), w)
    else if req.rateLimitPerMin = some none ∨ req.maxConcurrent = some none then
      (.error (dbUnavailable "Database unavailable"), w)
    else (.ok (updateClientRow req client), w.modifyClient id (updateClientRow req))

/-- The row of a deleted client. -/
def deleteClientRow (client : Client) : Client :=
  { client with isActive := false, status := .deleted }

/-- `delete_client`. -/
def deleteClient (id : Nat) (w : World) : Except FcamError Unit × World :=
  if (w.db.clients.get? id).isSome then (.ok (), w.modifyClient id deleteClientRow)
  else (.error (notFound "Not found"), w)

/-- `rotate_client_token`, with the new token. The commit fails where another client has its
hash. -/
def rotateClientToken (token : String) (id : Nat) (w : World) : Except FcamError Unit × World :=
  match masterKey, w.db.clients.get? id with
  | none, _ => (.error notReady, w)
  | some _, none => (.error (notFound "Not found"), w)
  | some masterKey, some _ =>
    let tokenHash := security.hmacSha256Hex masterKey token
    if w.db.clients.rows.any fun row => row.1 != id && row.2.tokenHash == tokenHash then
      (.error (dbUnavailable "Database unavailable"), w)
    else (.ok (), w.modifyClient id fun client => { client with tokenHash })

end

/-! ### Batches -/

inductive BatchAction where
  | enable
  | disable
  | delete
deriving DecidableEq, Repr

/-- `apply_batch_action_to_client`. -/
def applyBatchActionToClient (action : BatchAction) (client : Client) : Client :=
  match action with
  | .enable => { client with isActive := true, status := .active }
  | .disable => { client with isActive := false, status := .disabled }
  | .delete => { client with isActive := false, status := .deleted }

/-- `deduplicate_client_ids`: the first of equal ids stays. -/
def deduplicateClientIds : List Nat → List Nat
  | [] => []
  | id :: rest => id :: (deduplicateClientIds rest).filter (· ≠ id)

structure BatchClientResponse where
  successCount : Nat
  failedItems : List (Nat × String)
deriving DecidableEq, Repr

/-- `batch_update_clients`. -/
def batchUpdateClients (clientIds : List Nat) (action : BatchAction) (w : World) :
    BatchClientResponse × World :=
  let ids := deduplicateClientIds clientIds
  let found := ids.filter fun id => (w.db.clients.get? id).isSome
  ({ successCount := found.length
     failedItems :=
       (ids.filter fun id => (w.db.clients.get? id).isNone).map fun id =>
         (id, "Client not found") },
    found.foldl (fun w id => w.modifyClient id (applyBatchActionToClient action)) w)

/-! ### Purging rows -/

section

variable (enforced : Bool)

/-- `purge_client`. A database that enforces foreign keys refuses while resources are bound for the
client. -/
def World.purgeClient (w : World) (id : Nat) : Except FcamError Unit × World :=
  if (w.db.clients.get? id).isNone then (.error (notFound "Not found"), w)
  else if enforced && w.db.bindings.rows.any fun row => row.2.clientId == id then
    (.error (dbUnavailable "Database unavailable"), w)
  else
    (.ok (),
      { w with
        db :=
          { w.db with
            keys := w.db.keys.mapRows fun _ key =>
              if key.clientId = some id then { key with clientId := none } else key
            idempotencyRecords := Fcam.purgeClient id w.db.idempotencyRecords
            clients := w.db.clients.deleteWhere fun other _ => other == id } })

/-- `purge_key`. The snapshots of the key go with it; its bindings do not. -/
def purgeKey (id : Nat) (w : World) : Except FcamError Unit × World :=
  if (w.key? id).isNone then (.error (notFound "Not found"), w)
  else if enforced && w.db.bindings.rows.any fun row => row.2.apiKeyId == id then
    (.error (dbUnavailable "Database unavailable"), w)
  else
    (.ok (),
      { w with
        db :=
          { w.db with
            creditSnapshots :=
              w.db.creditSnapshots.deleteWhere fun _ snapshot => snapshot.apiKeyId == id
            keys := w.db.keys.deleteWhere fun other _ => other == id } })

end

/-! ### Every operation on clients -/

inductive ClientOperation where
  | create (today : Day) (token : String) (req : CreateClientRequest)
  | update (id : Nat) (req : UpdateClientRequest)
  | delete (id : Nat)
  | rotate (token : String) (id : Nat)
  | batch (clientIds : List Nat) (action : BatchAction)
  | purge (id : Nat)

/-- The state an operation leaves. -/
def ClientOperation.perform (security : Security) (masterKey : Option Bytes) (enforced : Bool)
    (op : ClientOperation) (w : World) : World :=
  match op with
  | .create today token req => (createClient security masterKey today token req w).2
  | .update id req => (updateClient id req w).2
  | .delete id => (deleteClient id w).2
  | .rotate token id => (rotateClientToken security masterKey token id w).2
  | .batch clientIds action => (batchUpdateClients clientIds action w).2
  | .purge id => (w.purgeClient enforced id).2

/-- One step of a run. -/
def ClientOperation.next (security : Security) (masterKey : Option Bytes) (enforced : Bool)
    (w : World) (op : ClientOperation) : Option World :=
  some (op.perform security masterKey enforced w)

end Fcam

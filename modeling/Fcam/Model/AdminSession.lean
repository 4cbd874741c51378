import Fcam.Base.Transaction
import Fcam.Model.ClientAdmin
import Fcam.Model.CreditRefresh

/-!
# The transactions of the control plane

Which transactions the handlers of `control_plane.py` commit, and with which audit rows. Most
handlers commit once. A batch of keys commits each key by itself, a test of a key first the outcome,
by the forwarder, and then its audit row, and a refresh of credits what the fetch writes, without
any audit row.
-/

namespace Fcam

/-- A row of `audit_logs`. -/
structure AuditLog where
  actorType : String
  actorId : Option String
  action : String
  resourceType : Option String
  resourceId : Option String
  ip : Option String
  userAgent : Option String
deriving DecidableEq, Repr

/-- What `_audit` reads of a request. -/
structure AdminRequest where
  ip : Option String := none
  userAgent : Option String := none

/-- `_audit`. -/
def audit (request : AdminRequest) (action resourceType resourceId : String) : AuditLog :=
  { actorType := "admin"
    actorId := some "admin"
    action
    resourceType := some resourceType
    resourceId := some resourceId
    ip := request.ip
    userAgent := request.userAgent }

def Provider.text : Provider → String
  | firecrawl => "firecrawl"
  | exa => "exa"

/-- `f"api_key:{key.provider}"`. -/
def keyResource (provider : Provider) : String := "api_key:" ++ provider.text

/-- What a transaction leaves besides its rows: an audit row, or the outcome of a test that the
forwarder has committed. -/
inductive AdminEntry where
  | audit (row : AuditLog)
  | outcome (id : Nat)
deriving DecidableEq, Repr

abbrev AdminSession := Transactions World AdminEntry

/-- A change with its audit rows, as entries. -/
def withAudit (change : World × List AuditLog) : World × List AdminEntry :=
  (change.1, change.2.map .audit)

/-- A session of one transaction, with its audit rows. -/
def auditedOnce (change : World → World × List AuditLog) : AdminSession :=
  .once fun w => withAudit (change w)

section

variable (fwd : Forwarder) (enforced : Bool) (request : AdminRequest)

/-- The audit row about a key. -/
def auditKey (action : String) (id : Nat) (key : ApiKey) : AuditLog :=
  audit request action (keyResource key.provider) (toString id)

/-- The audit row about a client. -/
def auditClient (action : String) (id : Nat) : AuditLog :=
  audit request action "client" (toString id)

/-! ### Handlers that commit once -/

/-- What is committed of a handler: its state with its audit rows, or nothing where it raises. -/
def audited {β : Type} (handled : Except FcamError β × World) (entries : β → List AuditLog) :
    World × List AuditLog :=
  match handled with
  | (.ok result, w) => (w, entries result)
  | (.error _, w) => (w, [])

def createKeySession (today : Day) (nonce : Bytes) (req : CreateKeyRequest) : AdminSession :=
  auditedOnce fun w =>
    audited (createKey fwd.security fwd.masterKey today nonce req w) fun key =>
      [auditKey request "key.create" w.db.keys.nextId key]

def updateKeySession (nonce : Bytes) (id : Nat) (req : UpdateKeyRequest) : AdminSession :=
  auditedOnce fun w =>
    audited (updateKey fwd.security fwd.masterKey nonce id req w) fun key =>
      (if req.apiKey.isSome then [auditKey request "key.rotate" id key]
       else []) ++ [auditKey request "key.update" id key]

def deleteKeySession (id : Nat) : AdminSession :=
  auditedOnce fun w =>
    audited (deleteKey id w) fun _ => (w.key? id).toList.map (auditKey request "key.delete" id)

def purgeKeySession (id : Nat) : AdminSession :=
  auditedOnce fun w =>
    audited (purgeKey enforced id w) fun _ =>
      (w.key? id).toList.map (auditKey request "key.purge" id)

def resetKeysQuotaSession (today : Day) : AdminSession :=
  auditedOnce fun w => (resetKeysQuota today w, [audit request "quota.reset" "api_key" "all"])

def createClientSession (today : Day) (token : String) (req : CreateClientRequest) : AdminSession :=
  auditedOnce fun w =>
    audited (createClient fwd.security fwd.masterKey today token req w) fun created =>
      [auditClient request "client.create" created.1]

def updateClientSession (id : Nat) (req : UpdateClientRequest) : AdminSession :=
  auditedOnce fun w => audited (updateClient id req w) fun _ =>
    [auditClient request "client.update" id]

def deleteClientSession (id : Nat) : AdminSession :=
  auditedOnce fun w => audited (deleteClient id w) fun _ => [auditClient request "client.delete" id]

def purgeClientSession (id : Nat) : AdminSession :=
  auditedOnce fun w => audited (w.purgeClient enforced id) fun _ =>
    [auditClient request "client.purge" id]

def rotateClientTokenSession (token : String) (id : Nat) : AdminSession :=
  auditedOnce fun w =>
    audited (rotateClientToken fwd.security fwd.masterKey token id w) fun _ =>
      [auditClient request "client.rotate" id]

def BatchAction.text : BatchAction → String
  | enable => "enable"
  | disable => "disable"
  | delete => "delete"

def batchClientsSession (clientIds : List Nat) (action : BatchAction) : AdminSession :=
  auditedOnce fun w =>
    ((batchUpdateClients clientIds action w).2,
      ((deduplicateClientIds clientIds).filter fun id => (w.db.clients.get? id).isSome).map
        (auditClient request ("client.batch." ++ action.text)))

/-! ### Imports -/

/-- The audit row of an item, from what the item made of the result. -/
def importAudit (masterKey : Bytes) (item : ParsedKeyLine) (before after : ImportResult)
    (req : ImportRequest) (w : World) : List AuditLog :=
  if after.created = before.created + 1 then
    [audit request "key.import_text.create" (keyResource req.provider) (toString w.db.keys.nextId)]
  else if after.updated = before.updated + 1 then
    let hash := fwd.security.hmacSha256Hex masterKey item.apiKey
    (w.db.keys.rows.find? fun row => row.2.apiKeyHash == hash).toList.map fun row =>
      auditKey request "key.import_text.update" row.1 row.2
  else []

/-- The items of an import. An item whose savepoint fails, at the flush of its key or at the exit,
is rolled back with its audit row. Of the counts only the change an item makes is read here. -/
def importItemsAudited (today : Day) (masterKey : Bytes) (clientId : Option Nat)
    (req : ImportRequest) (nonces : Nat → Bytes × Bytes) (savepoint : Nat → Option String) :
    List ParsedKeyLine → ImportResult → World → World × List AuditLog
  | [], _, w => (w, [])
  | item :: rest, result, w =>
    match savepoint item.lineNo with
    | some text =>
      importItemsAudited today masterKey clientId req nonces savepoint rest
        { result with failures := result.failures ++ [(item.lineNo, item.raw, text)] } w
    | none =>
      let (after, w') :=
        importItem fwd.security today masterKey clientId req (nonces item.lineNo) item result w
      let (last, entries) :=
        importItemsAudited today masterKey clientId req nonces savepoint rest after w'
      (last, importAudit fwd request masterKey item result after req w ++ entries)

def importKeysSession (today : Day) (nonces : Nat → Bytes × Bytes) (savepoint : Nat → Option String)
    (items : List ParsedKeyLine) (failures : List (Nat × String × String)) (req : ImportRequest) :
    AdminSession :=
  auditedOnce fun w =>
    match fwd.masterKey, requestedClient w req.clientId with
    | some masterKey, .ok clientId =>
      if items.isEmpty && !failures.isEmpty then (w, [])
      else importItemsAudited fwd request today masterKey clientId req nonces savepoint items
        { failures } w
    | _, _ => (w, [])

/-! ### Tests and refreshes -/

/-- A test of a key, which does nothing if it raises. The forwarder commits the outcome and goes on
if it cannot; what it keeps in memory stays. The audit row follows. -/
def testKeySession (env : TestEnv) (requestId mode : String) (testUrl : PyStr) (id : Nat)
    (w : World) : AdminSession :=
  match w.key? id with
  | none => .done
  | some key =>
    let tested := testKey fwd env requestId id w mode testUrl key
    match tested.result with
    | .error _ => .done
    | .ok _ =>
      .transact (fun _ => (tested.world, [.outcome id]))
        (fun w => { w with failures := tested.world.failures }) fun _ _ => auditedOnce fun w =>
          (w, [auditKey request "key.test" id key])

/-- `refresh_key_credits_api`, which needs a master key. -/
def refreshKeySession (now : Instant) (env : FetchEnv) (requestId : String)
    (id : Nat) : AdminSession :=
  match fwd.masterKey with
  | none => .done
  | some masterKey =>
    .once fun w =>
      ((refreshKeyCredits fwd.config fwd.security masterKey now env requestId id w).world, [])

/-- The loop of `refresh_all_credits_api`. -/
def refreshAllSession (masterKey : Bytes) (force : Bool) (now : Instant) (env : Nat → FetchEnv)
    (requestId : Nat → String) : List (Nat × ApiKey) → AdminSession
  | [] => .done
  | (id, key) :: rest =>
    if !force && refreshedTooRecently fwd.config now key then
      refreshAllSession masterKey force now env requestId rest
    else
      .transact
        (fun w =>
          ((fetchCreditFromFirecrawl fwd.config fwd.security masterKey (env id) (requestId id) id
            key w).world, []))
        (fun w => w) fun _ _ => refreshAllSession masterKey force now env requestId rest

/-! ### Batches of keys -/

/-- A batch writes the row at all. -/
def BatchKeysRequest.changes (req : BatchKeysRequest) : Bool :=
  let patches (patch : BatchKeyPatch) : Bool :=
    patch.name.isSome || patch.planType.isSome || patch.dailyQuota.isSome ||
      patch.maxConcurrent.isSome || patch.rateLimitPerMin.isSome || patch.isActive.isSome
  req.resetCooldown || req.softDelete || req.patch.any patches

/-- The tests of a batch, one after the other. -/
def batchTestsSession (env : Nat → TestEnv) (requestId mode : String) (testUrl : PyStr) :
    List Nat → World → AdminSession
  | [], _ => .done
  | id :: rest, w =>
    (testKeySession fwd request (env id) requestId mode testUrl id w).andThen
      (batchTestsSession env requestId mode testUrl rest) w

/-- The loop over the ids, each committed by itself, and the ids that are to be tested. -/
def batchLoopSession (req : BatchKeysRequest) (tests : List Nat → World → AdminSession) :
    List Nat → List Nat → World → AdminSession
  | [], done, w => tests done w
  | id :: rest, done, w =>
    match w.key? id with
    | none => batchLoopSession req tests rest done w
    | some key =>
      if req.changes then
        .transact (fun w =>
          withAudit (w.modifyKey id (batchRow req), [auditKey request "key.batch" id key]))
          (fun w => w) fun committed w =>
            batchLoopSession req tests rest (if committed then done ++ [id] else done) w
      else batchLoopSession req tests rest (done ++ [id]) w

/-- `batch_keys`. -/
def batchKeysSession (env : Nat → TestEnv) (requestId : String) (req : BatchKeysRequest)
    (w : World) : AdminSession :=
  match req.test with
  | none => batchLoopSession request req (fun _ _ => .done) req.ids [] w
  | some (mode, testUrl) =>
    if mode ≠ "scrape" then .done
    else if 1 < req.ids.length && mixedProviders req.ids w then .done
    else batchLoopSession request req (batchTestsSession fwd request env requestId mode testUrl)
      req.ids [] w

end

/-! ### Every operation -/

inductive AdminOperation where
  | createKey (today : Day) (nonce : Bytes) (req : CreateKeyRequest)
  | importKeys (today : Day) (nonces : Nat → Bytes × Bytes) (savepoint : Nat → Option String)
      (items : List ParsedKeyLine) (failures : List (Nat × String × String)) (req : ImportRequest)
  | updateKey (nonce : Bytes) (id : Nat) (req : UpdateKeyRequest)
  | deleteKey (id : Nat)
  | purgeKey (id : Nat)
  | batchKeys (env : Nat → TestEnv) (requestId : String) (req : BatchKeysRequest)
  | resetKeysQuota (today : Day)
  | testKey (env : TestEnv) (requestId mode : String) (testUrl : PyStr) (id : Nat)
  | refreshKey (now : Instant) (env : FetchEnv) (requestId : String) (id : Nat)
  | refreshAll (keyIds : List Nat) (force : Bool) (now : Instant) (env : Nat → FetchEnv)
      (requestId : Nat → String)
  | createClient (today : Day) (token : String) (req : CreateClientRequest)
  | updateClient (id : Nat) (req : UpdateClientRequest)
  | deleteClient (id : Nat)
  | purgeClient (id : Nat)
  | rotateClientToken (token : String) (id : Nat)
  | batchClients (clientIds : List Nat) (action : BatchAction)

/-- The transactions of an operation that begins in a state. -/
def AdminOperation.session (fwd : Forwarder) (enforced : Bool) (request : AdminRequest)
    (op : AdminOperation) (w : World) : AdminSession :=
  match op with
  | .createKey today nonce req => createKeySession fwd request today nonce req
  | .importKeys today nonces savepoint items failures req =>
    importKeysSession fwd request today nonces savepoint items failures req
  | .updateKey nonce id req => updateKeySession fwd request nonce id req
  | .deleteKey id => deleteKeySession request id
  | .purgeKey id => purgeKeySession enforced request id
  | .batchKeys env requestId req => batchKeysSession fwd request env requestId req w
  | .resetKeysQuota today => resetKeysQuotaSession request today
  | .testKey env requestId mode testUrl id =>
    testKeySession fwd request env requestId mode testUrl id w
  | .refreshKey now env requestId id => refreshKeySession fwd now env requestId id
  | .refreshAll keyIds force now env requestId =>
    let ids := keyIds.filter (0 < ·)
    let keys :=
      (w.db.keys.select refreshAllScope).filter fun row => ids.isEmpty || ids.contains row.1
    fwd.masterKey.elim .done fun masterKey =>
      refreshAllSession fwd masterKey force now env requestId keys
  | .createClient today token req => createClientSession fwd request today token req
  | .updateClient id req => updateClientSession request id req
  | .deleteClient id => deleteClientSession request id
  | .purgeClient id => purgeClientSession enforced request id
  | .rotateClientToken token id => rotateClientTokenSession fwd request token id
  | .batchClients clientIds action => batchClientsSession request clientIds action

/-- The actions of its audit rows. -/
def AdminOperation.actions : AdminOperation → List String
  | createKey .. => ["key.create"]
  | importKeys .. => ["key.import_text.create", "key.import_text.update"]
  | updateKey .. => ["key.update"]
  | deleteKey _ => ["key.delete"]
  | purgeKey _ => ["key.purge"]
  | batchKeys .. => ["key.batch", "key.test"]
  | resetKeysQuota _ => ["quota.reset"]
  | testKey .. => ["key.test"]
  | refreshKey .. => []
  | refreshAll .. => []
  | createClient .. => ["client.create"]
  | updateClient .. => ["client.update"]
  | deleteClient _ => ["client.delete"]
  | purgeClient _ => ["client.purge"]
  | rotateClientToken .. => ["client.rotate"]
  | batchClients _ action => ["client.batch." ++ action.text]

/-- The state an operation leaves where nothing fails. -/
def AdminOperation.perform (fwd : Forwarder) (enforced : Bool) (op : AdminOperation)
    (w : World) : World :=
  match op with
  | .createKey today nonce req => (Fcam.createKey fwd.security fwd.masterKey today nonce req w).2
  | .importKeys today nonces _ items failures req =>
    (Fcam.importKeys fwd.security fwd.masterKey today nonces items failures req w).2
  | .updateKey nonce id req => (Fcam.updateKey fwd.security fwd.masterKey nonce id req w).2
  | .deleteKey id => (Fcam.deleteKey id w).2
  | .purgeKey id => (Fcam.purgeKey enforced id w).2
  | .batchKeys env requestId req => (Fcam.batchKeys fwd env requestId req w).2
  | .resetKeysQuota today => Fcam.resetKeysQuota today w
  | .testKey env requestId mode testUrl id =>
    (w.key? id).elim w fun key => (Fcam.testKey fwd env requestId id w mode testUrl key).world
  | .refreshKey now env requestId id =>
    fwd.masterKey.elim w fun masterKey =>
      (refreshKeyCredits fwd.config fwd.security masterKey now env requestId id w).world
  | .refreshAll keyIds force now env requestId =>
    fwd.masterKey.elim w fun masterKey =>
      (refreshAllCredits fwd.config fwd.security masterKey keyIds force now env requestId w).1
  | .createClient today token req =>
    (Fcam.createClient fwd.security fwd.masterKey today token req w).2
  | .updateClient id req => (Fcam.updateClient id req w).2
  | .deleteClient id => (Fcam.deleteClient id w).2
  | .purgeClient id => (w.purgeClient enforced id).2
  | .rotateClientToken token id => (Fcam.rotateClientToken fwd.security fwd.masterKey token id w).2
  | .batchClients clientIds action => (batchUpdateClients clientIds action w).2

/-- No savepoint of an import fails. -/
def AdminOperation.savepointsHold : AdminOperation → Prop
  | importKeys _ _ savepoint .. => ∀ lineNo, savepoint lineNo = none
  | _ => True

end Fcam

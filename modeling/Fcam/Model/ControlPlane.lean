import Fcam.Model.KeyTest

/-!
# Administration of keys

The handlers of `control_plane.py` that write key rows. A handler that raises commits nothing; each
returns the row it would describe to the administrator. The audit rows they add are not modelled.
-/

namespace Fcam

def notFound (message : String) : FcamError := { statusCode := 404, code := .notFound, message }

def apiKeyDuplicate : FcamError :=
  { statusCode := 409, code := .apiKeyDuplicate, message := "Duplicate api key" }

/-- `text[-4:]`. -/
def last4 (text : String) : String := String.ofList (text.toList.drop (text.toList.length - 4))

section

variable (security : Security) (masterKey : Option Bytes) (today : Day)

/-! ### Creating keys -/

structure CreateKeyRequest where
  apiKey : String
  clientId : Option Nat := none
  name : Option String := none
  planType : String := "free"
  dailyQuota : Nat := 5
  maxConcurrent : Nat := 2
  rateLimitPerMin : Nat := 10
  isActive : Bool := true
  provider : Provider := .firecrawl

/-- The client a request names, where 0 stands for none. -/
def requestedClient (w : World) (clientId : Option Nat) : Except FcamError (Option Nat) :=
  match clientId with
  | none => .ok none
  | some 0 => .ok none
  | some id =>
    if (w.db.clients.get? id).isSome then .ok (some id) else .error (notFound "Client not found")

/-- The status a key is created with. -/
def initialStatus (isActive : Bool) : KeyStatus := if isActive then .active else .disabled

/-- `create_key`. -/
def createKey (nonce : Bytes) (req : CreateKeyRequest) (w : World) :
    Except FcamError ApiKey × World :=
  match masterKey, requestedClient w req.clientId with
  | none, _ => (.error notReady, w)
  | some _, .error error => (.error error, w)
  | some masterKey, .ok clientId =>
    let key : ApiKey :=
      { clientId
        apiKeyCiphertext := security.encryptApiKey masterKey nonce req.apiKey
        apiKeyHash := security.hmacSha256Hex masterKey req.apiKey
        apiKeyLast4 := last4 req.apiKey
        name := req.name
        planType := req.planType
        isActive := req.isActive
        status := initialStatus req.isActive
        dailyQuota := req.dailyQuota
        quotaResetAt := some today
        maxConcurrent := req.maxConcurrent
        rateLimitPerMin := req.rateLimitPerMin
        provider := req.provider }
    if w.db.keys.rows.any fun row => row.2.apiKeyHash == key.apiKeyHash then
      (.error apiKeyDuplicate, w)
    else (.ok key, w.withKeys (w.db.keys.insert key))

/-! ### Importing keys -/

/-- A parsed line of an import. -/
structure ParsedKeyLine where
  lineNo : Nat
  raw : String
  apiKey : String
  accountUsername : Option String := none
  accountPassword : Option String := none
  accountVerifiedAt : Option Instant := none

structure ImportRequest where
  clientId : Option Nat := none
  planType : String := "free"
  dailyQuota : Nat := 5
  maxConcurrent : Nat := 2
  rateLimitPerMin : Nat := 10
  isActive : Bool := true
  provider : Provider := .firecrawl

structure ImportResult where
  created : Nat := 0
  updated : Nat := 0
  skipped : Nat := 0
  failures : List (Nat × String × String) := []

/-- `value or None` for texts: an empty text counts as none. -/
def nonempty (text : Option String) : Option String := text.filter fun text => text != ""

/-- The row an import makes of a key that exists already, for the client of the import, if any. -/
def mergeImported (clientId : Option Nat) (item : ParsedKeyLine) (password : Option Bytes)
    (key : ApiKey) : ApiKey :=
  { key with
    clientId := key.clientId.or clientId
    accountUsername :=
      (nonempty key.accountUsername).or ((nonempty item.accountUsername).or key.accountUsername)
    accountPasswordCiphertext := key.accountPasswordCiphertext.or password
    accountVerifiedAt := key.accountVerifiedAt.or item.accountVerifiedAt }

/-- One item of an import, with the nonces drawn for it. -/
def importItem (masterKey : Bytes) (clientId : Option Nat) (req : ImportRequest)
    (nonces : Bytes × Bytes) (item : ParsedKeyLine) (result : ImportResult) (w : World) :
    ImportResult × World :=
  let hash := security.hmacSha256Hex masterKey item.apiKey
  let password :=
    (nonempty item.accountPassword).map (security.encryptAccountPassword masterKey nonces.2)
  match w.db.keys.rows.find? fun row => row.2.apiKeyHash == hash with
  | none =>
    let key : ApiKey :=
      { clientId
        apiKeyCiphertext := security.encryptApiKey masterKey nonces.1 item.apiKey
        apiKeyHash := hash
        apiKeyLast4 := last4 item.apiKey
        accountUsername := item.accountUsername
        accountPasswordCiphertext := password
        accountVerifiedAt := item.accountVerifiedAt
        planType := req.planType
        isActive := req.isActive
        status := initialStatus req.isActive
        dailyQuota := req.dailyQuota
        quotaResetAt := some today
        maxConcurrent := req.maxConcurrent
        rateLimitPerMin := req.rateLimitPerMin
        provider := req.provider }
    ({ result with created := result.created + 1 }, w.withKeys (w.db.keys.insert key))
  | some (id, existing) =>
    if clientId.isSome && existing.clientId.isSome && existing.clientId != clientId then
      let failure := (item.lineNo, item.raw, "api key already bound to a different client")
      ({ result with failures := result.failures ++ [failure] }, w)
    else
      let merged := mergeImported clientId item password existing
      if merged = existing then ({ result with skipped := result.skipped + 1 }, w)
      else
        ({ result with updated := result.updated + 1 },
          w.modifyKey id (mergeImported clientId item password))

def importItems (masterKey : Bytes) (clientId : Option Nat) (req : ImportRequest)
    (nonces : Nat → Bytes × Bytes) :
    List ParsedKeyLine → ImportResult → World → ImportResult × World
  | [], result, w => (result, w)
  | item :: rest, result, w =>
    let (result, w) :=
      importItem security today masterKey clientId req (nonces item.lineNo) item result w
    importItems masterKey clientId req nonces rest result w

/-- `import_keys_text`, from the parsed lines and the lines that could not be parsed. -/
def importKeys (nonces : Nat → Bytes × Bytes) (items : List ParsedKeyLine)
    (failures : List (Nat × String × String)) (req : ImportRequest) (w : World) :
    Except FcamError ImportResult × World :=
  match masterKey, requestedClient w req.clientId with
  | none, _ => (.error notReady, w)
  | some _, .error error => (.error error, w)
  | some masterKey, .ok clientId =>
    if items.isEmpty && !failures.isEmpty then
      (.error
        { statusCode := 400
          code := .validationError
          message := "No valid lines to import" }, w)
    else
      let (result, w) :=
        importItems security today masterKey clientId req nonces items { failures } w
      (.ok result, w)

/-! ### Changing keys -/

/-- A new daily quota; a key that has used it up counts as exceeded at once. -/
def patchQuota (dailyQuota : Option Nat) (key : ApiKey) : ApiKey :=
  match dailyQuota with
  | none => key
  | some dailyQuota =>
    let key := { key with dailyQuota }
    if dailyQuota ≤ key.dailyUsage then { key with status := .quotaExceeded } else key

/-- Disabling or enabling a key. -/
def patchActive (isActive : Option Bool) (key : ApiKey) : ApiKey :=
  match isActive with
  | none => key
  | some isActive =>
    let key := { key with isActive }
    if !isActive then { key with status := .disabled }
    else if key.status = .disabled then { key with status := .active }
    else key

structure UpdateKeyRequest where
  clientId : Option Nat := none
  name : Option String := none
  planType : Option String := none
  dailyQuota : Option Nat := none
  maxConcurrent : Option Nat := none
  rateLimitPerMin : Option Nat := none
  isActive : Option Bool := none
  apiKey : Option String := none

/-- A new secret for a key. -/
def rotateKey (masterKey nonce : Bytes) (apiKey : String) (key : ApiKey) : ApiKey :=
  { key with
    apiKeyCiphertext := security.encryptApiKey masterKey nonce apiKey
    apiKeyHash := security.hmacSha256Hex masterKey apiKey
    apiKeyLast4 := last4 apiKey }

/-- The columns that both `update_key` and `batch_keys` patch, in their order. -/
def patchRow (planType : Option String) (dailyQuota maxConcurrent rateLimitPerMin : Option Nat)
    (isActive : Option Bool) (key : ApiKey) : ApiKey :=
  let key := patchQuota dailyQuota { key with planType := planType.getD key.planType }
  patchActive isActive
    { key with
      maxConcurrent := maxConcurrent.getD key.maxConcurrent
      rateLimitPerMin := rateLimitPerMin.getD key.rateLimitPerMin }

/-- The row `update_key` writes, apart from the secret. -/
def updateRow (clientId : Option Nat) (req : UpdateKeyRequest) (key : ApiKey) : ApiKey :=
  patchRow req.planType req.dailyQuota req.maxConcurrent req.rateLimitPerMin req.isActive
    { key with
      clientId := if req.clientId.isSome then clientId else key.clientId
      name := req.name.or key.name }

/-- `update_key`. -/
def updateKey (nonce : Bytes) (id : Nat) (req : UpdateKeyRequest) (w : World) :
    Except FcamError ApiKey × World :=
  match w.key? id, requestedClient w req.clientId with
  | none, _ => (.error (notFound "Not found"), w)
  | some _, .error error => (.error error, w)
  | some key, .ok clientId =>
    match req.apiKey, masterKey with
    | none, _ =>
      let row := updateRow clientId req key
      (.ok row, w.modifyKey id fun _ => row)
    | some _, none => (.error notReady, w)
    | some apiKey, some masterKey =>
      let row := updateRow clientId req (rotateKey security masterKey nonce apiKey key)
      if w.db.keys.rows.any fun other => other.1 != id && other.2.apiKeyHash == row.apiKeyHash then
        (.error apiKeyDuplicate, w)
      else (.ok row, w.modifyKey id fun _ => row)

/-- `delete_key`. -/
def deleteKey (id : Nat) (w : World) : Except FcamError Unit × World :=
  if (w.key? id).isSome then (.ok (), w.modifyKey id disableKey)
  else (.error (notFound "Not found"), w)

/-- The row after `reset_keys_quota`. -/
def resetQuotaRow (key : ApiKey) : ApiKey :=
  { key with
    dailyUsage := 0
    quotaResetAt := some today
    status := if key.status = .quotaExceeded ∧ key.isActive then .active else key.status }

/-- `reset_keys_quota`. -/
def resetKeysQuota (w : World) : World :=
  w.withKeys (w.db.keys.mapRows fun _ => resetQuotaRow today)

/-! ### Batches -/

structure BatchKeyPatch where
  name : Option (Option String) := none
  planType : Option String := none
  dailyQuota : Option Nat := none
  maxConcurrent : Option Nat := none
  rateLimitPerMin : Option Nat := none
  isActive : Option Bool := none

structure BatchKeysRequest where
  ids : List Nat
  patch : Option BatchKeyPatch := none
  resetCooldown : Bool := false
  softDelete : Bool := false
  test : Option (String × PyStr) := none

/-- The cooldown part of a batch. -/
def resetCooldownRow (key : ApiKey) : ApiKey :=
  { key with
    cooldownUntil := none
    status := if backsOff key && key.isActive then .active else key.status }

/-- The row a batch writes for one key. -/
def batchRow (req : BatchKeysRequest) (key : ApiKey) : ApiKey :=
  let key := if req.resetCooldown then resetCooldownRow key else key
  let key :=
    match req.patch with
    | none => key
    | some patch =>
      patchRow patch.planType patch.dailyQuota patch.maxConcurrent patch.rateLimitPerMin
        patch.isActive { key with name := patch.name.getD key.name }
  if req.softDelete then disableKey key else key

/-- The loop over the ids: the result of each, in order. -/
def batchLoop (req : BatchKeysRequest) :
    List Nat → World → List (Nat × Except FcamError ApiKey) × World
  | [], w => ([], w)
  | id :: rest, w =>
    match w.key? id with
    | none =>
      let (results, last) := batchLoop req rest w
      ((id, .error (notFound "Not found")) :: results, last)
    | some key =>
      let (results, last) := batchLoop req rest (w.modifyKey id (batchRow req))
      ((id, .ok (batchRow req key)) :: results, last)

/-- The tests of a batch, one after the other over the keys that were found. A batch runs them side
by side, each in its own session. -/
def batchTests (fwd : Forwarder) (env : Nat → TestEnv) (requestId : String) (mode : String)
    (testUrl : PyStr) :
    List (Nat × Except FcamError ApiKey) → World → List (Except Raised KeyTestResult) × World
  | [], w => ([], w)
  | (_, .error _) :: rest, w => batchTests fwd env requestId mode testUrl rest w
  | (id, .ok _) :: rest, w =>
    match w.key? id with
    | none => batchTests fwd env requestId mode testUrl rest w
    | some key =>
      let tested := testKey fwd (env id) requestId id w mode testUrl key
      let (results, last) := batchTests fwd env requestId mode testUrl rest tested.world
      (tested.result :: results, last)

/-- The keys with the ids of a request belong to more than one provider. -/
def mixedProviders (ids : List Nat) (w : World) : Bool :=
  let providers :=
    (w.db.keys.rows.filter fun row => ids.contains row.1).map fun row => row.2.provider
  providers.contains .firecrawl && providers.contains .exa

/-- `batch_keys`. -/
def batchKeys (fwd : Forwarder) (env : Nat → TestEnv) (requestId : String) (req : BatchKeysRequest)
    (w : World) :
    Except FcamError (List (Nat × Except FcamError ApiKey) × List (Except Raised KeyTestResult)) ×
      World :=
  match req.test with
  | none =>
    let (results, w) := batchLoop req req.ids w
    (.ok (results, []), w)
  | some (mode, testUrl) =>
    if mode ≠ "scrape" then
      (.error { statusCode := 400, code := .validationError, message := "Unsupported test mode" },
       w)
    else if 1 < req.ids.length && mixedProviders req.ids w then
      (.error
        { statusCode := 400
          code := .mixedProviderBatch
          message := "Batch test does not support mixed providers: exa, firecrawl" }, w)
    else
      let (results, w) := batchLoop req req.ids w
      let (tests, w) := batchTests fwd env requestId mode testUrl results w
      (.ok (results, tests), w)

end

/-! ### Counting keys -/

/-- The classes of keys `GET /admin/stats` counts. -/
inductive StatsClass where
  | active
  | cooling
  | quotaExceeded
  | disabled
  | failed
deriving DecidableEq, Repr

def StatsClass.counts (key : ApiKey) : StatsClass → Bool
  | active => key.isActive && key.status == .active
  | cooling => key.status == .cooling
  | quotaExceeded => key.status == .quotaExceeded
  | disabled => !key.isActive || key.status == .disabled
  | failed => key.status == .failed

end Fcam

import Fcam.Base.Loop
import Fcam.Model.Forwarder

/-!
# Forwarding a request

`Forwarder.forward`: at most so many passes over the pinned key, or over the key pool, each of which
picks a key, takes a rate token and a lease, decrypts the key and sends the request. What a pass
asks of its surroundings (the clock, the limiter, the leases, the cooldown store, the upstream) is
answered by a `Turn`; what it did is logged as events. Every statement sent to the database
succeeds.
-/

namespace Fcam

/-- What the surroundings answer during one pass. -/
structure Turn where
  pool : PoolEnv
  allow : Nat → Nat → Except FcamError (Bool × Option Int)
  tryAcquire : Nat → Nat → Except FcamError Bool
  outcome : Outcome
  settledAt : Instant

/-- A turn in which nothing is refused or delayed. -/
def Turn.unhindered (now : Instant) (today : Day) (outcome : Outcome) : Turn :=
  { pool :=
      { reading := { now, today }
        secondsUntilNextMidnight := 0
        remainingSeconds := fun _ => .ok none }
    allow := fun _ _ => .ok (true, none)
    tryAcquire := fun _ _ => .ok true
    outcome
    settledAt := now }

/-- One client with a quota, and one key of it. -/
def servedWorld (dailyQuota : Nat) : World :=
  { db :=
      { clients := Table.empty.insert { dailyQuota := some 10, quotaResetAt := some 0 }
        keys :=
          Table.empty.insert
            { clientId := some 1
              apiKeyCiphertext := [107]
              dailyQuota
              quotaResetAt := some 0
              cachedRemainingCredits := some 100 } } }

structure ForwardRequest where
  clientId : Nat
  method : String
  upstreamPath : String
  jsonBody : Option Json := none
  inboundHeaders : List (String × String) := []
  requestId : String := ""
  pinnedApiKeyId : Option Nat := none
  provider : Provider := .firecrawl

/-- What a forward does, in order. -/
inductive Event where
  | examined (today : Day) (keys : List Examined)
  | rateLimited (id : Nat)
  | tokenTaken (id : Nat)
  | busy (id : Nat)
  | leased (id : Nat)
  | exchanged (exchange : Exchange)
  | released (id : Nat)

structure ForwardResult where
  response : Response
  upstreamStatusCode : Option Nat
  apiKeyId : Option Nat
  retryCount : Nat

/-- The end of a forward: what it returns or raises, the state it leaves and what it did. -/
structure Forwarded where
  result : Except Raised ForwardResult
  world : World
  events : List Event

/-- The local variables of a forward between two passes. -/
structure Progress where
  world : World
  upstreamAttempts : Nat := 0
  retryCount : Nat := 0
  lastUpstreamStatus : Option Nat := none
  lastApiKeyId : Option Nat := none
  decryptFailedSeen : Bool := false
  events : List Event := []

namespace Progress

def log (p : Progress) (events : List Event) : Progress := { p with events := p.events ++ events }

def raise (p : Progress) (error : FcamError) : Forwarded :=
  { result := .error (.fcam error), world := p.world, events := p.events }

/-- An exception that is not an `FcamError` leaves the forward. -/
def fail (p : Progress) (text : String) : Forwarded :=
  { result := .error (.other text), world := p.world, events := p.events }

/-- `return ForwardResult(...)`. Building the response can raise, after everything else is done. -/
def respond (p : Progress) (r : UpstreamResponse) : Forwarded where
  result :=
    (toFastapiResponse r).map fun response =>
      { response
        upstreamStatusCode := p.lastUpstreamStatus
        apiKeyId := p.lastApiKeyId
        retryCount := p.retryCount }
  world := p.world
  events := p.events

end Progress

section Errors

variable (fwd : Forwarder) (req : ForwardRequest)

def notReady : FcamError :=
  { statusCode := 503, code := .notReady, message := "Master key not configured" }

def keyDecryptFailed : FcamError :=
  { statusCode := 503
    code := .keyDecryptFailed
    message := "Failed to decrypt API key; check FCAM_MASTER_KEY" }

/-- The details every error of a dispatch loop carries. -/
def callDetails : ErrorDetails :=
  { baseUrl := some fwd.config.firecrawl.baseUrl
    attempts := some (fwd.totalAttempts req.provider)
    method := some req.method
    upstreamPath := some req.upstreamPath }

def allKeysBusy (apiKeyId : Option Nat) (retryAfter : Option Int) : FcamError :=
  { statusCode := 503
    code := .allKeysBusy
    message := "All keys busy or rate-limited"
    details := some { callDetails fwd req with clientId := some req.clientId, apiKeyId }
    retryAfter }

def upstreamTimeout : FcamError :=
  { statusCode := 504
    code := .upstreamTimeout
    message := "Upstream timeout"
    details := some { callDetails fwd req with timeoutS := some fwd.config.firecrawl.timeout } }

def upstreamUnavailable (error : String) : FcamError :=
  { statusCode := 503
    code := .upstreamUnavailable
    message := "Upstream unavailable"
    details := some { callDetails fwd req with error := some error } }

/-- The error after the loop over the pool. -/
def noAttemptLeft (p : Progress) : FcamError :=
  if p.upstreamAttempts = 0 then allKeysBusy fwd req none none
  else
    { statusCode := 503
      code := .upstreamUnavailable
      message := "Upstream unavailable"
      details := some
        { callDetails fwd req with
          clientId := some req.clientId
          lastUpstreamStatusCode := some p.lastUpstreamStatus
          lastApiKeyId := some p.lastApiKeyId } }

end Errors

section Passes

variable (fwd : Forwarder) (masterKey : Bytes) (baseUrl : String) (req : ForwardRequest)

/-- The request sent with a decrypted key. No header it carries besides the credentials is one that
is dropped. -/
def upstreamRequest (plaintextKey : String) : UpstreamRequest :=
  { baseUrl
    method := req.method
    path := req.upstreamPath
    headers :=
      sanitizedRequestHeaders req.inboundHeaders req.requestId ++
        [fwd.providerAuthHeader req.provider plaintextKey]
    jsonBody := req.jsonBody }

/-- The exchange made with a key, logged unless the request could not even be built. -/
def exchanges (outcome : Outcome) (id : Nat) (plaintextKey : String)
    (before after : World) : List Event :=
  match outcome with
  | .unsent _ => []
  | outcome =>
    [.exchanged
      { request := upstreamRequest fwd baseUrl req plaintextKey
        keyId := id
        secret := plaintextKey
        outcome
        before := before.db.keys
        after := after.db.keys }]

/-- Send the request with a leased and decrypted key, release the lease and write the outcome. -/
def call (turn : Turn) (id : Nat) (plaintextKey : String) (p : Progress) : Progress :=
  let world :=
    settle fwd.config req.method req.upstreamPath turn.outcome turn.settledAt req.clientId id
      p.world
  { p.log (exchanges fwd baseUrl req turn.outcome id plaintextKey p.world world ++
      [.released id]) with
    world
    upstreamAttempts := p.upstreamAttempts + 1
    lastUpstreamStatus :=
      match turn.outcome with
      | .response r => some r.statusCode
      | _ => p.lastUpstreamStatus }

/-! ### The pinned key -/

/-- The key a pin is accepted for. -/
def pinnedKey? (w : World) (id : Nat) : Option ApiKey :=
  (w.key? id).filter fun key => key.clientId == some req.clientId && !isDisabled key &&
    key.provider == req.provider

/-- One attempt with the pinned key. -/
def pinnedPass (turns : Nat → Turn) (id attempt : Nat) (p : Progress) : Pass Progress Forwarded :=
  let turn := turns attempt
  match p.world.key? id with
  | none => .done (p.fail "ObjectDeletedError")
  | some key =>
    match turn.allow id key.rateLimitPerMin with
    | .error error => .done (p.raise error)
    | .ok (false, retryAfter) =>
      .done ((p.log [.rateLimited id]).raise (allKeysBusy fwd req (some id) retryAfter))
    | .ok (true, _) =>
      let p := p.log [.tokenTaken id]
      match turn.tryAcquire id key.maxConcurrent with
      | .error error => .done (p.raise error)
      | .ok false => .done ((p.log [.busy id]).raise (allKeysBusy fwd req (some id) none))
      | .ok true =>
        let p := p.log [.leased id]
        match fwd.decrypt masterKey key with
        | none =>
          let p :=
            { p.log [.released id] with world := p.world.modifyKey id disableKeyDecryptFailed }
          .done (p.raise keyDecryptFailed)
        | some plaintextKey =>
          let p := call fwd baseUrl req turn id plaintextKey p
          let last := fwd.totalAttempts req.provider ≤ attempt + 1
          match turn.outcome with
          | .exception text => .done (p.fail text)
          | .unsent text => .done (p.fail text)
          | .timeout => if last then .done (p.raise (upstreamTimeout fwd req)) else .again p
          | .httpError text =>
            if last then .done (p.raise (upstreamUnavailable fwd req text)) else .again p
          | .response r =>
            let p := { p with retryCount := if 0 < attempt then attempt else p.retryCount }
            let retried := 500 ≤ r.statusCode
            if retried ∧ ¬last then .again p else .done (p.respond r)

/-! ### The key pool -/

/-- The codes of a refusing pool that a decryption failure of the same forward explains. -/
def explainedByDecryption (code : ErrorCode) : Bool :=
  code == .noKeyConfigured || code == .allKeysDisabled || code == .noKeyAvailable

/-- The statuses after which the pool is asked for another key. -/
def retriedStatus (statusCode : Nat) : Bool :=
  statusCode == 429 || statusCode == 401 || statusCode == 403 || 500 ≤ statusCode

/-- One round of the loop over the pool. -/
def pooledPass (turns : Nat → Turn) (i : Nat) (p : Progress) : Pass Progress Forwarded :=
  let turn := turns i
  let selection := select turn.pool p.world (some req.clientId) req.provider
  let p :=
    { p.log [.examined turn.pool.reading.today selection.examined] with world := selection.world }
  match selection.result with
  | .error error =>
    .done (p.raise (if p.decryptFailedSeen && explainedByDecryption error.code then keyDecryptFailed
      else error))
  | .ok (id, key) =>
    let p := { p with lastApiKeyId := some id }
    let retried := { p with retryCount := p.retryCount + 1 }
    match turn.allow id key.rateLimitPerMin with
    | .error error => .done (p.raise error)
    | .ok (false, _) => .again (retried.log [.rateLimited id])
    | .ok (true, _) =>
      match turn.tryAcquire id key.maxConcurrent with
      | .error error => .done ((p.log [.tokenTaken id]).raise error)
      | .ok false => .again (retried.log [.tokenTaken id, .busy id])
      | .ok true =>
        match fwd.decrypt masterKey key with
        | none =>
          .again
            { retried.log [.tokenTaken id, .leased id, .released id] with
              world := p.world.modifyKey id disableKeyDecryptFailed
              decryptFailedSeen := true }
        | some plaintextKey =>
          let p := call fwd baseUrl req turn id plaintextKey (p.log [.tokenTaken id, .leased id])
          let retried := { p with retryCount := p.retryCount + 1 }
          let last := fwd.totalAttempts req.provider ≤ p.upstreamAttempts
          match turn.outcome with
          | .exception text => .done (p.fail text)
          | .unsent text => .done (p.fail text)
          | .timeout =>
            if last then .done (retried.raise (upstreamTimeout fwd req)) else .again retried
          | .httpError text =>
            if last then .done (retried.raise (upstreamUnavailable fwd req text))
            else .again retried
          | .response r =>
            if retriedStatus r.statusCode ∧ ¬last then .again retried else .done (p.respond r)

def maxSelectionTries (totalAttempts : Nat) : Nat := max (totalAttempts * 20) 50

/-- The loop over the pool, and the error after it. -/
def forwardPooled (turns : Nat → Turn) (p : Progress) : Forwarded :=
  let total := fwd.totalAttempts req.provider
  let guard (p : Progress) : Bool := p.upstreamAttempts < total
  match loopWhile guard (pooledPass fwd masterKey baseUrl req turns) (maxSelectionTries total) 0
    p with
  | .done forwarded => forwarded
  | .again p => p.raise (noAttemptLeft fwd req p)

/-- The attempts with an accepted pin; they end within the loop. -/
def forwardPinned (turns : Nat → Turn) (id : Nat) (p : Progress) : Forwarded :=
  let p := { p with lastApiKeyId := some id }
  match loopWhile (fun _ => true) (pinnedPass fwd masterKey baseUrl req turns id)
    (fwd.totalAttempts req.provider) 0 p with
  | .done forwarded => forwarded
  | .again p => forwardPooled fwd masterKey baseUrl req turns { p with upstreamAttempts := 0 }

end Passes

/-- `Forwarder.forward`. -/
def forward (fwd : Forwarder) (turns : Nat → Turn) (req : ForwardRequest) (w : World) : Forwarded :=
  let p : Progress := { world := w }
  match fwd.masterKey with
  | none => p.raise notReady
  | some masterKey =>
    match fwd.providerBaseUrl req.provider with
    | .error error => p.raise error
    | .ok baseUrl =>
      match req.pinnedApiKeyId.bind fun id => (pinnedKey? req w id).map fun _ => id with
      | some id => forwardPinned fwd masterKey baseUrl req turns id p
      | none => forwardPooled fwd masterKey baseUrl req turns p

end Fcam

import Fcam.Base.Run
import Fcam.Model.Forward
import Fcam.Model.LoadedRow

/-!
# Forwards side by side

Every request passes `enforce_client_governance` and `Forwarder.forward` in a session of its own.
Each load and each commit is a step; between two steps of a session any other session may move.
After a commit or a rollback everything a session has loaded is expired and is loaded anew when it
is next read; until then it stays as it was loaded, also where a query returns the row again.
-/

namespace Fcam

/-- Where a request is, with what it holds: in the quota check of its client, before and after the
commit of a reset; about to look its pinned key up; about to select a key, with the key it still
holds; about to commit a selection; about to load the key for an attempt; at the limiter, in the
upstream call, about to write its outcome, and about to commit a success; or at its end, with the
2xx answer it got, if any. -/
inductive DispatchPhase where
  | governing (client : Client)
  | checking
  | lookingUp
  | choosing (held : Option (Nat × ApiKey))
  | picked (idx id : Nat) (loaded : List (Nat × ApiKey)) (examined : List Examined)
  | selected (id : Nat)
  | gating (id : Nat) (key : ApiKey)
  | calling (id : Nat) (key : ApiKey)
  | settling (id : Nat) (key : ApiKey) (outcome : Outcome)
  | accounting (id : Nat) (key : ApiKey) (client : Client) (r : UpstreamResponse)
  | finished (answered : Option (Nat × UpstreamResponse))

/-- A request in its session, with its client as loaded unless that is expired. -/
structure Dispatch where
  req : ForwardRequest
  client : Option Client := none
  pinned : Bool := false
  upstreamAttempts : Nat := 0
  selectionTries : Nat := 0
  phase : DispatchPhase

/-- The client of a new day. -/
def resetClient (today : Day) (client : Client) : Client :=
  { client with dailyUsage := 0, quotaResetAt := some today }

/-- The rows of a query, where the session's own copy stands for the row it still holds. -/
def withHeld (held : Option (Nat × ApiKey)) (rows : List (Nat × ApiKey)) : List (Nat × ApiKey) :=
  rows.map fun row => (row.1, ((held.filter fun own => own.1 = row.1).map Prod.snd).getD row.2)

/-- The changes `select` commits. -/
def examinedWrites (loaded : List (Nat × ApiKey)) (examined : List Examined) : List Write :=
  examined.filterMap fun e => (loaded.lookup e.id).map fun before => .key e.id before e.row

namespace Dispatch

def moveTo (d : Dispatch) (phase : DispatchPhase) : Dispatch := { d with phase }

/-- The same after a commit or a rollback. -/
def expire (d : Dispatch) : Dispatch := { d with client := none }

section

variable (fwd : Forwarder)

/-- `forward` begins, with the client loaded. -/
def begin (d : Dispatch) (client : Client) : Dispatch :=
  let phase : DispatchPhase :=
    match fwd.masterKey, fwd.providerBaseUrl d.req.provider with
    | some _, .ok _ => if d.req.pinnedApiKeyId.isSome then .lookingUp else .choosing none
    | _, _ => .finished none
  { d with client := some client, phase }

/-- The quota test of a client. -/
def testClient (d : Dispatch) (client : Client) : Dispatch :=
  if client.dailyQuota.any (client.dailyUsage < ·) then d.begin fwd client
  else d.moveTo (.finished none)

/-- The next attempt after one that gave no answer to return, with the key still held or to be
loaded. -/
def retry (d : Dispatch) (expired : Bool) (id : Nat) (key : ApiKey) : Dispatch :=
  if expired then d.expire.moveTo (if d.pinned then .selected id else .choosing none)
  else d.moveTo (if d.pinned then .gating id key else .choosing (some (id, key)))

/-- An attempt refused or failed for good ends a pinned request; one from the pool asks for another
key. -/
def tryAnother (d : Dispatch) (held : Option (Nat × ApiKey)) : Dispatch :=
  d.moveTo (if d.pinned then .finished none else .choosing held)

/-- The outcome is one that is retried while attempts are left. -/
def retried (d : Dispatch) : Outcome → Bool
  | .timeout => true
  | .httpError _ => true
  | .response r => if d.pinned then 500 ≤ r.statusCode else retriedStatus r.statusCode
  | .exception _ => false
  | .unsent _ => false

/-- `_record_failure`, on a loaded row: the changes it makes, and whether it ends in a commit or a
rollback. -/
def failureWrites (now : Instant) (id : Nat) (key : ApiKey) (w : World) : List Write × Bool :=
  if isDisabled key then ([], false)
  else
    let (count, firstAt) := failuresInWindow fwd.config now id w
    let counted : Write := .failures id (count + 1, firstAt)
    if count + 1 < fwd.config.firecrawl.failureThreshold then ([counted], false)
    else ([counted, .key id key (markFailed fwd.config now key)], true)

/-- The changes an outcome without a success makes, and whether it ends in a commit or a
rollback. -/
def outcomeWrites (now : Instant) (id : Nat) (key : ApiKey) (outcome : Outcome) (w : World) :
    List Write × Bool :=
  match outcome with
  | .timeout => failureWrites fwd now id key w
  | .httpError _ => failureWrites fwd now id key w
  | .exception _ => ([], false)
  | .unsent _ => ([], false)
  | .response r =>
    if r.statusCode = 429 then
      if isDisabled key then ([], false)
      else ([.key id key (markCooling now (cooldownOf fwd.config r.headers) key)], true)
    else if r.statusCode = 401 ∨ r.statusCode = 403 then ([.key id key (disableKey key)], true)
    else if 500 ≤ r.statusCode then failureWrites fwd now id key w
    else ([], false)

/-- The credits a 2xx answer of the request is charged. -/
def cost (d : Dispatch) (r : UpstreamResponse) : Option Int :=
  localCost fwd.config d.req.method d.req.upstreamPath r

/-- The changes `_consume_quota_on_success` commits, with the local deduction made before. -/
def accountWrites (d : Dispatch) (now : Instant) (id : Nat) (key : ApiKey) (client : Client)
    (r : UpstreamResponse) :
    List Write :=
  [.client d.req.clientId client (consumeClient now client),
    .key id key (consumeKey now (deductCredits (d.cost fwd r) key))]

variable (turn : Turn) (w : World)

/-- One round of the loop over the pool, up to the commit of the selection. -/
def choose (d : Dispatch) (held : Option (Nat × ApiKey)) : Dispatch :=
  let total := fwd.totalAttempts d.req.provider
  if d.upstreamAttempts < total ∧ d.selectionTries < maxSelectionTries total then
    let keys := withHeld held (w.db.keys.select (inScope (some d.req.clientId) d.req.provider))
    if keys.isEmpty || !keys.any fun row => row.2.isActive then d.moveTo (.finished none)
    else
      let start :=
        w.rrIndexByScope { clientId := some d.req.clientId, provider := d.req.provider } %
          keys.length
      match scan turn.pool (cyclicFrom start keys) with
      | (.selected idx id _, examined) => d.moveTo (.picked idx id keys examined)
      | _ => d.moveTo (.finished none)
  else d.moveTo (.finished none)

/-- The limiter, the lease and the decryption. -/
def gate (d : Dispatch) (id : Nat) (key : ApiKey) : Dispatch × List Write :=
  match turn.allow id key.rateLimitPerMin, turn.tryAcquire id key.maxConcurrent with
  | .error _, _ => (d.moveTo (.finished none), [])
  | .ok (false, _), _ => (d.tryAnother (some (id, key)), [])
  | .ok (true, _), .error _ => (d.moveTo (.finished none), [])
  | .ok (true, _), .ok false => (d.tryAnother (some (id, key)), [])
  | .ok (true, _), .ok true =>
    match fwd.masterKey.bind fun masterKey => fwd.decrypt masterKey key with
    | none => (d.expire.tryAnother none, [.key id key (disableKeyDecryptFailed key)])
    | some _ => (d.moveTo (.calling id key), [])

/-- What is made of an outcome. -/
def settle (d : Dispatch) (id : Nat) (key : ApiKey) (outcome : Outcome) : Dispatch × List Write :=
  let unsuccessful : Dispatch × List Write :=
    let (writes, expired) := outcomeWrites fwd turn.settledAt id key outcome w
    if d.retried outcome ∧ d.upstreamAttempts < fwd.totalAttempts d.req.provider then
      (d.retry expired id key, writes)
    else (d.moveTo (.finished none), writes)
  match outcome with
  | .response r =>
    if is2xx r.statusCode then
      if fwd.config.quota.countMode = .success then
        match d.client.or (w.client? d.req.clientId) with
        | none => (d.moveTo (.finished (some (id, r))), [])
        | some client => (d.moveTo (.accounting id key client r), [])
      else (d.moveTo (.finished (some (id, r))), [.key id key (deductCredits (d.cost fwd r) key)])
    else unsuccessful
  | _ => unsuccessful

/-- The next step of a request: where it is then, and what it has written. -/
def step (d : Dispatch) : Option (Dispatch × List Write) :=
  match d.phase with
  | .governing client =>
    if !fwd.config.quota.enableQuotaCheck || client.dailyQuota.isNone then
      some (d.begin fwd client, [])
    else if client.quotaResetAt = some turn.pool.reading.today then
      some (d.testClient fwd client, [])
    else
      some
        (d.expire.moveTo .checking,
          [.client d.req.clientId client (resetClient turn.pool.reading.today client)])
  | .checking =>
    match w.client? d.req.clientId with
    | none => some (d.moveTo (.finished none), [])
    | some client => some (d.testClient fwd client, [])
  | .lookingUp =>
    let ofClient (id : Nat) := (w.key? id).filter fun key => key.clientId == some d.req.clientId
    match d.req.pinnedApiKeyId.bind fun id => (ofClient id).map fun key => (id, key) with
    | none => some (d.moveTo (.choosing none), [])
    | some (id, key) =>
      if !isDisabled key && key.provider == d.req.provider then
        some ({ d with pinned := true, phase := .gating id key }, [])
      else some (d.moveTo (.choosing (some (id, key))), [])
  | .choosing held => some (d.choose fwd turn w held, [])
  | .picked idx id loaded examined =>
    let scope : Scope := { clientId := some d.req.clientId, provider := d.req.provider }
    some
      ({ d.expire with selectionTries := d.selectionTries + 1, phase := .selected id },
        examinedWrites loaded examined ++ [.roundRobin scope (idx + 1)])
  | .selected id =>
    match w.key? id with
    | none => some (d.moveTo (.finished none), [])
    | some key => some (d.moveTo (.gating id key), [])
  | .gating id key => some (d.gate fwd turn id key)
  | .calling id key =>
    let phase : DispatchPhase :=
      match turn.outcome with
      | .exception _ => .finished none
      | .unsent _ => .finished none
      | outcome => .settling id key outcome
    some ({ d with upstreamAttempts := d.upstreamAttempts + 1, phase }, [])
  | .settling id key outcome => some (d.settle fwd turn w id key outcome)
  | .accounting id key client r =>
    some (d.expire.moveTo (.finished (some (id, r))), d.accountWrites fwd turn.settledAt id key
      client r)
  | .finished _ => none

end

end Dispatch

/-- The state all requests share, and every request. -/
structure DispatchState where
  world : World
  requests : List Dispatch := []

inductive DispatchAction where
  | arrive (req : ForwardRequest)
  | advance (i : Nat) (turn : Turn)

/-- One step of a run; a request arrives with the client that its token names, which is active. -/
def DispatchAction.next (fwd : Forwarder) (st : DispatchState) :
    DispatchAction → Option DispatchState
  | arrive req =>
    ((st.world.client? req.clientId).filter Client.isActive).map fun client =>
      { st with requests := st.requests ++ [{ req, phase := .governing client }] }
  | advance i turn =>
    (st.requests[i]?.bind fun d => d.step fwd turn st.world).map fun (d, writes) =>
      { world := commit writes st.world, requests := st.requests.set i d }

end Fcam

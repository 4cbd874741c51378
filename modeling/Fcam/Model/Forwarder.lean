import Fcam.Model.BaseUrl
import Fcam.Model.CreditEstimator
import Fcam.Model.KeyPool
import Fcam.Model.Upstream

/-!
# The forwarder: providers and bookkeeping

The provider-dependent settings of `Forwarder` and the functions that write an upstream outcome into
the key's and the client's rows. Each is first the change of one row, then the change of the state.
-/

namespace Fcam

structure Forwarder where
  config : AppConfig
  security : Security
  masterKey : Option Bytes

/-- A gateway with the default configuration and transparent primitives. -/
def defaultForwarder : Forwarder := { config := {}, security := .plain, masterKey := some [] }

namespace Forwarder

/-- `_firecrawl_upstream_base_url`. -/
def firecrawlUpstreamBaseUrl (fwd : Forwarder) : String :=
  String.ofList (stripFirecrawlVersionSuffix fwd.config.firecrawl.baseUrl.toList).1

/-- `_firecrawl_upstream_version`. -/
def firecrawlUpstreamVersion (fwd : Forwarder) : Option ApiVersion :=
  (stripFirecrawlVersionSuffix fwd.config.firecrawl.baseUrl.toList).2

def providerBaseUrl (fwd : Forwarder) : Provider → Except FcamError String
  | .firecrawl => .ok fwd.firecrawlUpstreamBaseUrl
  | .exa =>
    if fwd.config.providers.exa.enabled then
      .ok (String.ofList (rstripChar '/' fwd.config.providers.exa.baseUrl.toList))
    else
      .error
        { statusCode := 400
          code := .providerNotConfigured
          message := "Provider 'exa' is not configured or enabled" }

def providerMaxRetries (fwd : Forwarder) : Provider → Int
  | .firecrawl => fwd.config.firecrawl.maxRetries
  | .exa => fwd.config.providers.exa.maxRetries

/-- `max(self._provider_max_retries(provider), 0) + 1`. -/
def totalAttempts (fwd : Forwarder) (provider : Provider) : Nat :=
  (max (fwd.providerMaxRetries provider) 0).toNat + 1

def providerAuthHeader (fwd : Forwarder) (provider : Provider) (plaintextKey : String) :
    String × String :=
  match provider with
  | .firecrawl => ("authorization", "Bearer " ++ plaintextKey)
  | .exa =>
    if fwd.config.providers.exa.authMode = .xApiKey then ("x-api-key", plaintextKey)
    else ("authorization", "Bearer " ++ plaintextKey)

def decrypt (fwd : Forwarder) (masterKey : Bytes) (key : ApiKey) : Option String :=
  fwd.security.decryptApiKey masterKey key.apiKeyCiphertext

end Forwarder

/-! ### Changes of one row -/

/-- `not key.is_active or key.status == "disabled"`, under which the status writers do nothing, is
`isDisabled`. `_mark_active`. -/
def markActive (key : ApiKey) : ApiKey :=
  if isDisabled key then key else { key with status := .active, cooldownUntil := none }

/-- `_mark_cooling`; an instant past the last one a datetime can hold raises, and the change is
rolled back. -/
def markCooling (now : Instant) (cooldownSeconds : Int) (key : ApiKey) : ApiKey :=
  if isDisabled key then key
  else
    match plusSeconds now cooldownSeconds with
    | none => key
    | some cooldownUntil => { key with status := .cooling, cooldownUntil := some cooldownUntil }

/-- `_disable_key`. -/
def disableKey (key : ApiKey) : ApiKey := { key with status := .disabled, isActive := false }

/-- `_disable_key_decrypt_failed`. -/
def disableKeyDecryptFailed (key : ApiKey) : ApiKey :=
  { key with status := .decryptFailed, isActive := false }

/-- The row part of `_record_failure` once the threshold is reached. -/
def markFailed (config : AppConfig) (now : Instant) (key : ApiKey) : ApiKey :=
  match plusSeconds now (max config.firecrawl.failedCooldownSeconds 1) with
  | none => key
  | some cooldownUntil => { key with status := .failed, cooldownUntil := some cooldownUntil }

/-- The key part of `_consume_quota_on_success`. -/
def consumeKey (now : Instant) (key : ApiKey) : ApiKey :=
  let counted :=
    { key with
      dailyUsage := key.dailyUsage + 1
      totalRequests := key.totalRequests + 1
      lastUsedAt := some now }
  if counted.dailyQuota ≤ counted.dailyUsage then { counted with status := .quotaExceeded }
  else counted

/-- The client part of `_consume_quota_on_success`. -/
def consumeClient (now : Instant) (client : Client) : Client :=
  { client with
    dailyUsage := if client.dailyQuota.isSome then client.dailyUsage + 1 else client.dailyUsage
    lastUsedAt := some now }

/-- The cost a 2xx answer is charged against the cached credits, if it is charged. -/
def localCost (config : AppConfig) (method upstreamPath : String)
    (r : UpstreamResponse) : Option Int :=
  let monitoring := config.creditMonitoring
  let endpoint := normalizeEndpoint upstreamPath
  if monitoring.enabled && monitoring.localEstimation.enabled &&
    monitoring.localEstimation.syncOnRequest &&
      upper method != ['G', 'E', 'T'] && (creditCostMap.lookup endpoint).isSome then
    let contentType := lower ((header r.headers "content-type").getD "")
    let responseData := if "application/json".toList.isPrefixOf contentType then r.json else none
    estimateCreditCost endpoint responseData
  else none

/-- The local deduction of a cost; an uninitialised cache stays so. -/
def deductCredits (cost : Option Int) (key : ApiKey) : ApiKey :=
  match cost, key.cachedRemainingCredits with
  | some cost, some old => { key with cachedRemainingCredits := some (max 0 (old - cost)) }
  | _, _ => key

/-! ### Changes of the state -/

/-- The failures of a key in its current window, and the instant the window began. -/
def failuresInWindow (config : AppConfig) (now : Instant) (id : Nat) (w : World) : Int × Instant :=
  let (count, firstAt) := (w.failures id).getD (0, now)
  if config.firecrawl.failureWindowSeconds * 1000000 < now - firstAt then (0, now)
  else (count, firstAt)

/-- `_record_failure`: count the failure in the key's window and mark the key failed at the
threshold. -/
def recordFailure (config : AppConfig) (now : Instant) (id : Nat) (w : World) : World :=
  match w.key? id with
  | none => w
  | some key =>
    if isDisabled key then w
    else
      let (count, firstAt) := failuresInWindow config now id w
      let counted :=
        { w with failures := Function.update w.failures id (some (count + 1, firstAt)) }
      if count + 1 < config.firecrawl.failureThreshold then counted
      else counted.modifyKey id (markFailed config now)

/-- The accounting of a 2xx answer: the local deduction and, in success mode, the counters. -/
def accountSuccess (config : AppConfig) (method upstreamPath : String) (r : UpstreamResponse)
    (now : Instant) (clientId id : Nat) (w : World) : World :=
  let deducted := w.modifyKey id (deductCredits (localCost config method upstreamPath r))
  if config.quota.countMode = .success then
    (deducted.modifyClient clientId (consumeClient now)).modifyKey id (consumeKey now)
  else deducted

/-- What the state becomes when an upstream request made with a key has ended. -/
def settle (config : AppConfig) (method upstreamPath : String) (outcome : Outcome) (now : Instant)
    (clientId id : Nat) (w : World) : World :=
  match outcome with
  | .timeout => recordFailure config now id w
  | .httpError _ => recordFailure config now id w
  | .exception _ => w
  | .unsent _ => w
  | .response r =>
    if r.statusCode = 429 then w.modifyKey id (markCooling now (cooldownOf config r.headers))
    else if r.statusCode = 401 ∨ r.statusCode = 403 then w.modifyKey id disableKey
    else if 500 ≤ r.statusCode then recordFailure config now id w
    else if is2xx r.statusCode then accountSuccess config method upstreamPath r now clientId id w
    else w

end Fcam

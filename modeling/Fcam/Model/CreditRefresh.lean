import Fcam.Model.CreditFetcher

/-!
# Refreshing credits

The three callers of the fetch: the background pass over the due keys, the refresh of one key, and
the refresh of all keys of the Firecrawl provider.
-/

namespace Fcam

section

variable (config : AppConfig) (security : Security) (masterKey : Bytes)

/-! ### The background pass -/

/-- The filter of `_refresh_once`'s query. -/
def refreshDue (now : Instant) (key : ApiKey) : Bool :=
  key.isActive && (key.status == .active || key.status == .cooling) &&
    match key.nextRefreshAt with
    | none => true
    | some nextRefreshAt => nextRefreshAt ≤ now

/-- Write the next refresh time of a key. -/
def scheduleRefresh (nextRefreshAt : Instant) (key : ApiKey) : ApiKey :=
  { key with nextRefreshAt := some nextRefreshAt }

/-- The time the pass, begun at `now`, writes for a key it has just fetched; nothing where even the
retry delay overflows. -/
def nextRefresh (now : Instant) (env : FetchEnv) (id : Nat) (fetched : Fetched) : Option Instant :=
  let retryAt := plusMinutes now (max config.creditMonitoring.retryDelayMinutes 1)
  match fetched.result, fetched.world.key? id with
  | .ok _, some key => (calculateNextRefreshTime config env.writtenAt key).orElse fun _ => retryAt
  | _, _ => retryAt

/-- The loop over the due keys, with the state and the exchanges so far. An overflow ends the
pass. -/
def refreshKeys (now : Instant) (env : Nat → FetchEnv) (requestId : Nat → String) :
    List (Nat × ApiKey) → World → World × List Exchange
  | [], w => (w, [])
  | (id, key) :: rest, w =>
    let fetched :=
      fetchCreditFromFirecrawl config security masterKey (env id) (requestId id) id key w
    match nextRefresh config now (env id) id fetched with
    | none => (fetched.world, fetched.exchanges)
    | some nextRefreshAt =>
      let (last, exchanges) :=
        refreshKeys now env requestId rest
          (fetched.world.modifyKey id (scheduleRefresh nextRefreshAt))
      (last, fetched.exchanges ++ exchanges)

/-- `cleanup_old_snapshots`. -/
def cleanupOldSnapshots (now : Instant) (w : World) : World :=
  if config.creditMonitoring.retentionDays ≤ 0 then w
  else
    match plusSeconds now (-(config.creditMonitoring.retentionDays * 86400)) with
    | none => w
    | some cutoff =>
      { w with
        db :=
          { w.db with
            creditSnapshots :=
              w.db.creditSnapshots.deleteWhere fun _ snapshot => snapshot.snapshotAt < cutoff } }

/-- `_refresh_once`, begun at `now`. -/
def refreshOnce (now : Instant) (env : Nat → FetchEnv) (requestId : Nat → String)
    (cleanupAt : Instant) (w : World) :
    World × List Exchange :=
  match w.db.keys.select (refreshDue now) with
  | [] => (w, [])
  | keys =>
    let (last, exchanges) := refreshKeys config security masterKey now env requestId keys w
    (cleanupOldSnapshots config cleanupAt last, exchanges)

/-! ### The refreshes an administrator starts -/

/-- `config.credit_monitoring.min_manual_refresh_interval_seconds or 300`. -/
def minManualInterval : Int :=
  let seconds := config.creditMonitoring.minManualRefreshIntervalSeconds
  if seconds = 0 then 300 else seconds

/-- The key was checked less than the minimal interval ago. -/
def refreshedTooRecently (now : Instant) (key : ApiKey) : Bool :=
  match key.lastCreditCheckAt with
  | none => false
  | some last => now - last < minManualInterval config * 1000000

/-- `refresh_key_credits_api`. -/
def refreshKeyCredits (now : Instant) (env : FetchEnv) (requestId : String) (id : Nat)
    (w : World) : Fetched :=
  let refuse (error : FcamError) : Fetched :=
    { result := .error (.fcam error), world := w, exchanges := [] }
  match w.key? id with
  | none => refuse { statusCode := 404, code := .keyNotFound, message := "API Key not found" }
  | some key =>
    match key.provider with
    | .exa =>
      refuse
        { statusCode := 400
          code := .unsupportedProviderOperation
          message := "Credit refresh is not supported for provider 'exa'" }
    | .firecrawl =>
      if refreshedTooRecently config now key then
        let elapsed := now - key.lastCreditCheckAt.getD now
        let wait := (minManualInterval config * 1000000 - elapsed).tdiv 1000000
        refuse
          { statusCode := 429
            code := .refreshTooFrequent
            message := "Please wait " ++ toString wait ++ " seconds before refreshing again" }
      else fetchCreditFromFirecrawl config security masterKey env requestId id key w

/-- The filter of `refresh_all_credits_api`'s query. -/
def refreshAllScope (key : ApiKey) : Bool := key.isActive && key.provider == .firecrawl

/-- The loop of `refresh_all_credits_api`. -/
def refreshAllKeys (force : Bool) (now : Instant) (env : Nat → FetchEnv)
    (requestId : Nat → String) :
    List (Nat × ApiKey) → World → World × List Exchange
  | [], w => (w, [])
  | (id, key) :: rest, w =>
    if !force && refreshedTooRecently config now key then
      refreshAllKeys force now env requestId rest w
    else
      let fetched :=
        fetchCreditFromFirecrawl config security masterKey (env id) (requestId id) id key w
      let (last, exchanges) := refreshAllKeys force now env requestId rest fetched.world
      (last, fetched.exchanges ++ exchanges)

/-- `refresh_all_credits_api`, for the keys with the given ids where any is positive. -/
def refreshAllCredits (keyIds : List Nat) (force : Bool) (now : Instant) (env : Nat → FetchEnv)
    (requestId : Nat → String) (w : World) : World × List Exchange :=
  let ids := keyIds.filter (0 < ·)
  let keys := (w.db.keys.select refreshAllScope).filter fun row => ids.isEmpty || ids.contains row.1
  refreshAllKeys config security masterKey force now env requestId keys w

end

end Fcam

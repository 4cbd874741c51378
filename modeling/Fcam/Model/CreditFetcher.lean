import Fcam.Model.Forwarder

/-!
# Fetching a key's credits

`fetch_credit_from_firecrawl`: ask the Firecrawl API for a key's remaining credits, write a snapshot
and bring the key's row up to date. Every outcome has its own change of the row.
-/

namespace Fcam

/-- What the surroundings answer during one fetch: how the request ends, the clock before it is
sent, and the clock when the outcome is written. -/
structure FetchEnv where
  outcome : Outcome
  now : Instant
  writtenAt : Instant

structure Fetched where
  result : Except Raised CreditSnapshot
  world : World
  exchanges : List Exchange

/-- `calculate_next_refresh_time`, with the usage ratio taken exactly; nothing where the time cannot
be represented. -/
def calculateNextRefreshTime (config : AppConfig) (now : Instant) (key : ApiKey) : Option Instant :=
  let monitoring := config.creditMonitoring
  match key.cachedRemainingCredits, key.cachedPlanCredits with
  | some remaining, some plan =>
    if plan = 0 then plusMinutes now monitoring.fixedRefresh.intervalMinutes
    else if remaining = 0 then nextMonthStart now
    else
      let usageRatio : Rat := 1 - (remaining : Rat) / plan
      let interval :=
        if !monitoring.smartRefresh.enabled then monitoring.fixedRefresh.intervalMinutes
        else if 9 / 10 < usageRatio then monitoring.smartRefresh.highUsageInterval
        else if 7 / 10 < usageRatio then monitoring.smartRefresh.mediumUsageInterval
        else if 1 / 2 < usageRatio then monitoring.smartRefresh.normalUsageInterval
        else monitoring.smartRefresh.lowUsageInterval
      plusMinutes now interval
  | _, _ => some now

/-! ### Changes of the row -/

/-- The row after a 401 or 403. -/
def fetchUnauthorized (key : ApiKey) : ApiKey := { key with status := .failed, isActive := false }

/-- The row after a 429, received by a fetch that began at `now`. -/
def fetchRateLimited (now : Instant) (key : ApiKey) : ApiKey :=
  { key with status := .cooling, cooldownUntil := some now }

/-- The row after a success with the numbers of the answer. -/
def fetchSucceeded (config : AppConfig) (now writtenAt : Instant) (snapshotId : Nat)
    (remaining plan : Int) (key : ApiKey) : ApiKey :=
  let key :=
    { key with
      cachedRemainingCredits := some remaining
      cachedPlanCredits := some plan
      lastCreditSnapshotId := some snapshotId
      lastCreditCheckAt := some now }
  { key with nextRefreshAt := calculateNextRefreshTime config writtenAt key }

/-! ### The answer -/

/-- `int(data.get(field) or 0)`, or nothing where it raises. -/
def creditField (data : Json) (field : String) : Option Int :=
  (data.get? field .null).bind fun value => if value.truthy then value.toInt? else some 0

/-- What the JSON of a 200 says: it is not an object, it reports no success, its numbers cannot be
read, or it holds the remaining and the plan credits. -/
inductive CreditAnswer where
  | notAnObject
  | unsuccessful
  | unreadable
  | credits (remaining plan : Int)
deriving DecidableEq, Repr

def creditAnswer (payload : Json) : CreditAnswer :=
  match payload.get? "success" .null, payload.get? "data" .null with
  | some success, some data =>
    if !success.truthy then .unsuccessful
    else
      let data := if data.truthy then data else .obj []
      match creditField data "remainingCredits", creditField data "planCredits" with
      | some remaining, some plan => .credits remaining plan
      | _, _ => .unreadable
  | _, _ => .notAnObject

example :
    creditAnswer
        (.obj
          [(PyStr.ofString "success", .bool true),
            (PyStr.ofString "data", .obj [(PyStr.ofString "remainingCredits", .int 7)])]) =
      .credits 7 0 := by
  decide

/-! ### The fetch -/

/-- `CreditSnapshot(api_key_id=..., remaining_credits=0, plan_credits=0, fetch_success=False)`. -/
def failedSnapshot (id : Nat) (writtenAt : Instant) : CreditSnapshot :=
  { apiKeyId := id, remainingCredits := 0, planCredits := 0, snapshotAt := writtenAt,
    fetchSuccess := false }

namespace World

def addSnapshot (w : World) (snapshot : CreditSnapshot) : World :=
  { w with db := { w.db with creditSnapshots := w.db.creditSnapshots.insert snapshot } }

@[simp] theorem key?_addSnapshot (w : World) (snapshot : CreditSnapshot) (id : Nat) :
    (w.addSnapshot snapshot).key? id = w.key? id := rfl

end World

/-- The result of a fetch and the state it leaves once its request has ended. -/
def settleFetch (config : AppConfig) (env : FetchEnv) (id : Nat) (w : World) :
    Except Raised CreditSnapshot × World :=
  let failed := w.addSnapshot (failedSnapshot id env.writtenAt)
  let raise (statusCode : Nat) (code : ErrorCode) (message : String) (w : World) :
    Except Raised CreditSnapshot × World :=
    (.error (.fcam { statusCode, code, message }), w)
  match env.outcome with
  | .timeout => raise 504 .timeout "Firecrawl API request timeout" failed
  | .httpError text => (.error (.other text), w)
  | .exception text => (.error (.other text), w)
  | .unsent text => (.error (.other text), w)
  | .response r =>
    if r.statusCode = 200 then
      match r.json.map creditAnswer with
      | none => raise 502 .upstreamError "Invalid upstream JSON" failed
      | some .unsuccessful => raise 502 .upstreamError "Firecrawl credit usage failed" failed
      | some .notAnObject => (.error (.other "AttributeError"), w)
      | some .unreadable => (.error (.other "ValueError"), w)
      | some (.credits remaining plan) =>
        let snapshot : CreditSnapshot :=
          { apiKeyId := id
            remainingCredits := remaining
            planCredits := plan
            snapshotAt := env.writtenAt
            fetchSuccess := true }
        let update :=
          fetchSucceeded config env.now env.writtenAt w.db.creditSnapshots.nextId remaining plan
        (.ok snapshot, (w.addSnapshot snapshot).modifyKey id update)
    else if r.statusCode = 401 ∨ r.statusCode = 403 then
      raise r.statusCode .invalidApiKey "API key is invalid or unauthorized"
        (failed.modifyKey id fetchUnauthorized)
    else if r.statusCode = 429 then
      raise 429 .rateLimited "Firecrawl API rate limited"
        (failed.modifyKey id (fetchRateLimited env.now))
    else
      raise r.statusCode .upstreamError
        ("Firecrawl API error: " ++ String.ofList (Nat.toDigits 10 r.statusCode)) failed

/-- `fetch_credit_from_firecrawl`, for the key row with an id. -/
def fetchCreditFromFirecrawl (config : AppConfig) (security : Security) (masterKey : Bytes)
    (env : FetchEnv) (requestId : String) (id : Nat) (key : ApiKey) (w : World) : Fetched :=
  match security.decryptApiKey masterKey key.apiKeyCiphertext with
  | none =>
    { result :=
        .error (.fcam
          { statusCode := 500, code := .decryptionFailed, message := "Failed to decrypt API key" })
      world := (w.addSnapshot (failedSnapshot id env.writtenAt)).modifyKey id
        disableKeyDecryptFailed
      exchanges := [] }
  | some plaintextKey =>
    let settled := settleFetch config env id w
    let exchange : Exchange :=
      { request :=
          { baseUrl := config.firecrawl.baseUrl
            method := "GET"
            path := "/v2/team/credit-usage"
            headers :=
              [("Authorization", "Bearer " ++ plaintextKey), ("X-Request-Id", requestId),
                ("Accept", "application/json")]
            jsonBody := none }
        keyId := id
        secret := plaintextKey
        outcome := env.outcome
        before := w.db.keys
        after := settled.2.db.keys }
    { result := settled.1
      world := settled.2
      exchanges :=
        match env.outcome with
        | .unsent _ => []
        | _ => [exchange] }

/-- A fetch with a database whose columns can hold the row it writes, or cannot: a number beyond the
range of its column or a text with a lone surrogate is refused, and everything is rolled back. -/
def storedFetch (held : Bool) (w : World) (fetched : Fetched) : Fetched :=
  if held then fetched
  else
    { fetched with
      result :=
        match fetched.result with
        | .ok _ => .error (.fcam (dbUnavailable "Database unavailable"))
        | error => error
      world := w }

end Fcam

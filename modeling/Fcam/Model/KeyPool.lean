import Fcam.Model.Error
import Fcam.Model.Rows

/-!
# The key pool

`KeyPool.select`: which key of a client and a provider the next upstream call may use. `examine` is
the body of its loop for one key, with the row as the loop leaves it, `scan` the loop over the keys
in cyclic order. The changes the scan makes to rows are committed when it returns a key and
discarded when it raises. Every statement sent to the database succeeds.
-/

namespace Fcam

/-- What the surroundings answer during one call of `select`: the clock, the seconds to the next
midnight, and the cooldown store's remaining seconds for each key. -/
structure PoolEnv where
  reading : Reading
  secondsUntilNextMidnight : Int
  remainingSeconds : Nat → Except FcamError (Option Int)

/-- `_is_disabled`. -/
def isDisabled (key : ApiKey) : Bool := !key.isActive || key.status == .disabled

/-- `_cooldown_remaining_seconds`. -/
def cooldownRemainingSeconds (key : ApiKey) (now : Instant) : Int :=
  match key.cooldownUntil with
  | none => 0
  | some cooldownUntil => max (wholeSeconds cooldownUntil now) 0

/-- The lazy reset of a key whose counter belongs to another day. -/
def lazyReset (today : Day) (key : ApiKey) : ApiKey :=
  if key.quotaResetAt = some today then key
  else
    { key with
      dailyUsage := 0
      quotaResetAt := some today
      status := if key.status = .quotaExceeded then .active else key.status }

/-- `key.status in {"cooling", "failed"}`. -/
def backsOff (key : ApiKey) : Bool := key.status == .cooling || key.status == .failed

/-- What the loop makes of one key. -/
inductive Verdict where
  | disabled
  | cooling (remaining : Int)
  | quotaExceeded
  | eligible
deriving DecidableEq, Repr

/-- The quota test, the last of the tests. -/
def testQuota (key : ApiKey) : Verdict × ApiKey :=
  if key.dailyQuota ≤ key.dailyUsage then (.quotaExceeded, { key with status := .quotaExceeded })
  else (.eligible, key)

/-- The seconds for which a key in back-off is passed over, the store's where it reports more. -/
def backOffSeconds (env : PoolEnv) (id : Nat) (key : ApiKey) : Except FcamError Int := do
  let remaining := cooldownRemainingSeconds key env.reading.now
  if key.status = .cooling then
    return match ← env.remainingSeconds id with
      | none => remaining
      | some stored => max remaining stored
  else return remaining

/-- The body of the loop for one key, and the row as it leaves it. -/
def examine (env : PoolEnv) (id : Nat) (key : ApiKey) : Except FcamError (Verdict × ApiKey) :=
  if isDisabled key then .ok (.disabled, key)
  else
    let key := lazyReset env.reading.today key
    if backsOff key then
      match backOffSeconds env id key with
      | .error error => .error error
      | .ok remaining =>
        if 0 < remaining then .ok (.cooling remaining, key)
        else .ok (testQuota { key with cooldownUntil := none, status := .active })
    else .ok (testQuota key)

/-- One key the loop has passed. -/
structure Examined where
  id : Nat
  verdict : Verdict
  row : ApiKey
deriving DecidableEq, Repr

/-- Where the loop ended: at an eligible key with its position, at the end of the keys, or in an
error of the cooldown store; with the keys passed, in order. -/
inductive ScanEnd where
  | selected (idx id : Nat) (key : ApiKey)
  | exhausted
  | raised (error : FcamError)

def scan (env : PoolEnv) : List ((Nat × ApiKey) × Nat) → ScanEnd × List Examined
  | [] => (.exhausted, [])
  | ((id, key), idx) :: rest =>
    match examine env id key with
    | .error error => (.raised error, [])
    | .ok (.eligible, row) => (.selected idx id row, [⟨id, .eligible, row⟩])
    | .ok (verdict, row) =>
      let (scanEnd, examined) := scan env rest
      (scanEnd, ⟨id, verdict, row⟩ :: examined)

/-- The keys in the order the loop visits them, each with its position. -/
def cyclicFrom (start : Nat) (keys : List (Nat × ApiKey)) : List ((Nat × ApiKey) × Nat) :=
  keys.zipIdx.rotate start

def countVerdicts (p : Verdict → Bool) (examined : List Examined) : Nat :=
  (examined.filter fun e => p e.verdict).length

def Verdict.isCooling : Verdict → Bool
  | cooling _ => true
  | _ => false

/-- `cooling_retry_after`: the least remaining time of a cooling key. -/
def coolingRetryAfter : List Examined → Option Int
  | [] => none
  | ⟨_, .cooling remaining, _⟩ :: rest =>
    some (match coolingRetryAfter rest with
      | none => remaining
      | some least => min remaining least)
  | _ :: rest => coolingRetryAfter rest

/-- The error of a loop that found no eligible key. -/
def exhaustedError (env : PoolEnv) (clientId : Option Nat) (examined : List Examined) : FcamError :=
  let total := examined.length
  let disabledSeen := countVerdicts (· == .disabled) examined
  let quotaSeen := countVerdicts (· == .quotaExceeded) examined
  let coolingSeen := countVerdicts Verdict.isCooling examined
  if disabledSeen = total then
    { statusCode := 503, code := .allKeysDisabled, message := "All keys disabled" }
  else if quotaSeen ≠ 0 ∧ quotaSeen + disabledSeen = total then
    { statusCode := 429
      code := .allKeysQuotaExceeded
      message := "All keys quota exceeded"
      retryAfter := some env.secondsUntilNextMidnight }
  else if coolingSeen ≠ 0 ∧ coolingSeen + disabledSeen = total then
    { statusCode := 429
      code := .allKeysCooling
      message := "All keys cooling"
      retryAfter := coolingRetryAfter examined }
  else
    { statusCode := 503
      code := .noKeyAvailable
      message := if clientId.isSome then "No key available for client" else "No key available" }

def noKeyConfigured (clientId : Option Nat) : FcamError :=
  { statusCode := 503
    code := .noKeyConfigured
    message := if clientId.isSome then "No key configured for client" else "No key configured" }

def allKeysDisabled (clientId : Option Nat) : FcamError :=
  { statusCode := 503
    code := .allKeysDisabled
    message := if clientId.isSome then "All keys disabled for client" else "All keys disabled" }

/-- The filter of `select`'s query. -/
def inScope (clientId : Option Nat) (provider : Provider) (key : ApiKey) : Bool :=
  key.provider == provider && (clientId.isNone || key.clientId == clientId)

/-- The rows of a scan, put over the rows of the table. -/
def commitExamined (keys : Table ApiKey) (examined : List Examined) : Table ApiKey :=
  keys.mapRows fun id row => ((examined.find? (·.id = id)).map Examined.row).getD row

/-- The result of `select`, the keys its loop examined, and the state it leaves. -/
structure Selection where
  result : Except FcamError (Nat × ApiKey)
  examined : List Examined
  world : World

/-- `KeyPool.select`. -/
def select (env : PoolEnv) (w : World) (clientId : Option Nat) (provider : Provider) : Selection :=
  let keys := w.db.keys.select (inScope clientId provider)
  if keys.isEmpty then { result := .error (noKeyConfigured clientId), examined := [], world := w }
  else if !keys.any fun row => row.2.isActive then
    { result := .error (allKeysDisabled clientId), examined := [], world := w }
  else
    let scope : Scope := { clientId, provider }
    let start := w.rrIndexByScope scope % keys.length
    match scan env (cyclicFrom start keys) with
    | (.raised error, examined) => { result := .error error, examined, world := w }
    | (.exhausted, examined) =>
      { result := .error (exhaustedError env clientId examined), examined, world := w }
    | (.selected idx id key, examined) =>
      { result := .ok (id, key)
        examined
        world :=
          { w with
            db := { w.db with keys := commitExamined w.db.keys examined }
            rrIndexByScope := Function.update w.rrIndexByScope scope (idx + 1) } }

end Fcam

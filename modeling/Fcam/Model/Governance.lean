import Fcam.Model.Concurrency
import Fcam.Model.Config
import Fcam.Model.Error
import Fcam.Model.Rows

/-!
# The governance of a client

`enforce_client_governance` wraps the handler of every data plane request: a lease of the client, a
rate token and the daily quota come before it, the release after it. Every step that can raise is
answered by the environment, and a failed statement can leave the session unable to read the
client's row again.
-/

namespace Fcam

/-- What the steps of one request answer, where they are reached. -/
structure GovernanceEnv where
  /-- The state backend of the leases; in memory there is none to fail. -/
  leases : Except Raised Unit := .ok ()
  allow : Except Raised (Bool × Int)
  today : Except Raised Day
  commit : Except Raised Unit := .ok ()
  /-- The client's row as it is read after the commit of its reset. -/
  reload : Except Raised Client
  /-- The session can still read the client's row after the commit or the reload has failed. -/
  readable : Bool := true
  secondsUntilNextMidnight : Except Raised Int
  handler : Except Raised Unit := .ok ()

/-- How the quota check of a client ends; a failure finds the client's id readable or not. -/
inductive QuotaCheck where
  | passed
  | exceeded (retryAfter : Int)
  | failed (readable : Bool)

/-- The end of a request: what its handler returns or what is raised, its lease, and the leases of
all clients. -/
structure Governed where
  result : Except Raised Unit
  lease : Option Lease
  manager : ConcurrencyManager

section

variable (config : AppConfig) (env : GovernanceEnv)

/-- The client the quota test reads. -/
def quotaClient (today : Day) (client : Client) : Except Raised Client :=
  if client.quotaResetAt = some today then .ok client else env.commit.bind fun _ => env.reload

/-- The test of the usage; a quota that has been taken away meanwhile cannot be compared. -/
def testClientQuota (client : Client) : QuotaCheck :=
  match client.dailyQuota with
  | none => .failed true
  | some dailyQuota =>
    if dailyQuota ≤ client.dailyUsage then
      match env.secondsUntilNextMidnight with
      | .error _ => .failed true
      | .ok retryAfter => .exceeded retryAfter
    else .passed

/-- The body of the `try` around the quota check. -/
def checkClientQuota (client : Client) : QuotaCheck :=
  if config.quota.enableQuotaCheck && client.dailyQuota.isSome then
    match env.today with
    | .error _ => .failed true
    | .ok today =>
      match quotaClient env today client with
      | .error _ => .failed env.readable
      | .ok client => testClientQuota env client
  else .passed

def clientConcurrencyLimited : FcamError :=
  { statusCode := 429, code := .clientConcurrencyLimited, message := "Client concurrency limited" }

def clientRateLimited (retryAfter : Int) : FcamError :=
  { statusCode := 429, code := .clientRateLimited, message := "Client rate limited",
    retryAfter := some retryAfter }

def clientQuotaExceeded (retryAfter : Int) : FcamError :=
  { statusCode := 429, code := .clientQuotaExceeded, message := "Client quota exceeded",
    retryAfter := some retryAfter }

/-- A request that ends with the release of its lease. -/
def releaseAndEnd (m : ConcurrencyManager) (lease : Lease)
    (result : Except Raised Unit) : Governed :=
  { result, lease := some (m.release lease).1, manager := (m.release lease).2 }

/-- `enforce_client_governance`, up to the end of the request. -/
def enforceClientGovernance (id : Nat) (client : Client) (m : ConcurrencyManager) : Governed :=
  match env.leases, m.tryAcquire id client.maxConcurrent with
  | .error raised, _ => { result := .error raised, lease := none, manager := m }
  | .ok _, (none, m) =>
    { result := .error (.fcam clientConcurrencyLimited), lease := none, manager := m }
  | .ok _, (some lease, m) =>
    match env.allow with
    | .error raised => { result := .error raised, lease := some lease, manager := m }
    | .ok (false, retryAfter) =>
      releaseAndEnd m lease (.error (.fcam (clientRateLimited retryAfter)))
    | .ok (true, _) =>
      match checkClientQuota config env client with
      | .exceeded retryAfter =>
        releaseAndEnd m lease (.error (.fcam (clientQuotaExceeded retryAfter)))
      | .failed true =>
        releaseAndEnd m lease (.error (.fcam (dbUnavailable "Database unavailable")))
      -- The log record of the failure reads `client.id` before the release.
      | .failed false =>
        { result := .error (.other "PendingRollbackError"), lease := some lease, manager := m }
      | .passed => releaseAndEnd m lease env.handler

end

end Fcam

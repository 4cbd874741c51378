import Fcam.Model.Concurrency
import Fcam.Model.Forward
import Fcam.Model.RateLimit

/-!
# Forwards with the limiter and the leases of the process

`forward` asks its surroundings for rate tokens and leases. `forwardLive` answers from the two maps
a process keeps for its keys, and changes them by what the forward logs.
-/

namespace Fcam

/-- The maps the process keeps for the keys: rate tokens and leases. -/
structure Stores where
  limiter : TokenBucketRateLimiter := {}
  leases : ConcurrencyManager := {}

/-- What the surroundings answer during one pass, besides the stores. -/
structure LiveTurn where
  pool : PoolEnv
  monotonic : ℚ
  outcome : Outcome
  settledAt : Instant

/-- The answers of one pass, with the stores as the pass finds them. -/
def LiveTurn.turn (live : LiveTurn) (stores : Stores) : Turn where
  pool := live.pool
  allow id ratePerMin :=
    let (allowed, retryAfter) := (stores.limiter.allow live.monotonic id ratePerMin).1
    .ok (allowed, some retryAfter)
  tryAcquire id maximum := .ok (stores.leases.tryAcquire id maximum).1.isSome
  outcome := live.outcome
  settledAt := live.settledAt

/-- What a logged event has done to the stores. -/
def Stores.logged (monotonic : ℚ) (w : World) (stores : Stores) (event : Event) : Stores :=
  let allow (id : Nat) : Stores :=
    match w.key? id with
    | none => stores
    | some key =>
      { stores with limiter := (stores.limiter.allow monotonic id key.rateLimitPerMin).2 }
  let tryAcquire (id : Nat) : Stores :=
    match w.key? id with
    | none => stores
    | some key => { stores with leases := (stores.leases.tryAcquire id key.maxConcurrent).2 }
  match event with
  | .rateLimited id => allow id
  | .tokenTaken id => allow id
  | .busy id => tryAcquire id
  | .leased id => tryAcquire id
  | .released id =>
    match w.key? id with
    | none => stores
    | some key =>
      if key.maxConcurrent = 0 then stores else { stores with leases := stores.leases.giveBack id }
  | .examined _ _ => stores
  | .exchanged _ => stores

section

variable (fwd : Forwarder) (masterKey : Bytes) (baseUrl : String) (req : ForwardRequest)
  (live : Nat → LiveTurn)

/-- A pass with the stores, and the stores after it. -/
def livePass (pass : (Nat → Turn) → Nat → Progress → Pass Progress Forwarded) (i : Nat)
    (s : Progress × Stores) :
    Pass (Progress × Stores) (Forwarded × Stores) :=
  let (p, stores) := s
  let after (events : List Event) : Stores :=
    (events.drop p.events.length).foldl (Stores.logged (live i).monotonic p.world) stores
  match pass (fun _ => (live i).turn stores) i p with
  | .again p' => .again (p', after p'.events)
  | .done forwarded => .done (forwarded, after forwarded.events)

def forwardPooledLive (s : Progress × Stores) : Forwarded × Stores :=
  let total := fwd.totalAttempts req.provider
  let guard (s : Progress × Stores) : Bool := s.1.upstreamAttempts < total
  match loopWhile guard (livePass live (pooledPass fwd masterKey baseUrl req))
    (maxSelectionTries total) 0 s with
  | .done r => r
  | .again (p, stores) => (p.raise (noAttemptLeft fwd req p), stores)

def forwardPinnedLive (id : Nat) (s : Progress × Stores) : Forwarded × Stores :=
  let pass turns := pinnedPass fwd masterKey baseUrl req turns id
  let s := ({ s.1 with lastApiKeyId := some id }, s.2)
  match loopWhile (fun _ => true) (livePass live pass) (fwd.totalAttempts req.provider) 0 s with
  | .done r => r
  | .again (p, stores) =>
    forwardPooledLive fwd masterKey baseUrl req live ({ p with upstreamAttempts := 0 }, stores)

/-- `Forwarder.forward`, with the stores of its process. -/
def forwardLive (w : World) (stores : Stores) : Forwarded × Stores :=
  let p : Progress := { world := w }
  match fwd.masterKey with
  | none => (p.raise notReady, stores)
  | some masterKey =>
    match fwd.providerBaseUrl req.provider with
    | .error error => (p.raise error, stores)
    | .ok baseUrl =>
      match req.pinnedApiKeyId.bind fun id => (pinnedKey? req w id).map fun _ => id with
      | some id => forwardPinnedLive fwd masterKey baseUrl req live id (p, stores)
      | none => forwardPooledLive fwd masterKey baseUrl req live (p, stores)

end

end Fcam

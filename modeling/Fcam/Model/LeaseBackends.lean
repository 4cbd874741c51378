import Fcam.Model.Concurrency
import Fcam.Model.RedisLeases

/-!
# The two managers of leases

`ConcurrencyManager` and `RedisConcurrencyManager` behind the interface the gateway uses: a lease is
asked for with the id of a row, the lease a request was answered with is released, and the leases of
an id are counted. A request is named by its number. The Redis manager sends its scripts, one after
the other.
-/

namespace Fcam

/-- A call of a manager; or time passes, or the server finds a key expired. -/
inductive LeaseRequest where
  | tick (elapsed : Nat)
  | expire (key : PyStr) (noticed : Bool)
  | tryAcquire (id : Nat) (maximum : Int)
  | release (i : Nat)
  | current (id : Nat)
deriving DecidableEq

/-- What the caller of a manager sees. -/
inductive LeaseAnswer where
  | done
  | granted (granted : Bool)
  | count (n : Nat)
deriving DecidableEq, Repr

/-! ### In memory -/

/-- The manager, and what each request for a lease was answered with. -/
structure MemoryLeases where
  manager : ConcurrencyManager := {}
  leases : List (Option Lease) := []

def MemoryLeases.serve (m : MemoryLeases) : LeaseRequest → LeaseAnswer × MemoryLeases
  | .tick _ | .expire _ _ => (.done, m)
  | .tryAcquire id maximum =>
    let (lease, manager) := m.manager.tryAcquire id maximum.toNat
    (.granted lease.isSome, { manager, leases := m.leases ++ [lease] })
  | .release i =>
    match m.leases[i]? with
    | some (some lease) =>
      let (lease, manager) := m.manager.release lease
      (.done, { manager, leases := m.leases.set i (some lease) })
    | _ => (.done, m)
  | .current id => (.count (m.manager.current id), m)

/-! ### In Redis -/

/-- `str(id)`. -/
def decimal (n : Nat) : PyStr := (Nat.toDigits 10 n).map Char.toNat

/-- The name a manager gives the leases of a row. -/
def leaseName (keyPrefix scope : PyStr) (id : Nat) : LeaseName :=
  { keyPrefix, scope, key := decimal id }

/-- The server, and the token of each request that sent a script. -/
structure RedisLeases where
  redis : RedisState
  tokens : List (Option Nat) := []

/-- What the manager answers over a server that runs its scripts. -/
def RedisLeases.serve (ttl : Int) (keyPrefix scope : PyStr) (m : RedisLeases) :
    LeaseRequest → Option (LeaseAnswer × RedisLeases)
  | .tick elapsed => (m.redis.next ttl (.tick elapsed)).map fun redis => (.done, { m with redis })
  | .expire key noticed =>
    some (.done, { m with redis := (m.redis.next ttl (.expire key noticed)).getD m.redis })
  | .tryAcquire id maximum =>
    if maximum ≤ 0 then some (.granted true, { m with tokens := m.tokens ++ [none] })
    else
      let token := m.redis.calls.length
      (m.redis.next ttl (.tryAcquire (leaseName keyPrefix scope id) maximum)).bind fun redis =>
        (redis.next ttl (.call token .script)).map fun redis =>
          (.granted (redis.calls[token]?.any fun call => call.phase == .granted false),
            { redis, tokens := m.tokens ++ [some token] })
  | .release i =>
    match m.tokens[i]? with
    | some (some token) =>
      -- a request that was refused has no lease to release
      if m.redis.calls[token]?.any fun call => call.phase == .refused then some (.done, m)
      else (m.redis.next ttl (.call token .release)).map fun redis => (.done, { m with redis })
    | _ => some (.done, m)
  | .current id =>
    let name := leaseName keyPrefix scope id
    (m.redis.next ttl (.current name m.redis.clock)).map fun redis =>
      (.count (redis.sets name.redisKey).zcard, { m with redis })

/-! ### Side by side -/

structure LeaseBackends where
  memory : MemoryLeases := {}
  redis : RedisLeases

/-- Both managers serve the same request. -/
def LeaseBackends.next (ttl : Int) (keyPrefix scope : PyStr) (b : LeaseBackends)
    (request : LeaseRequest) :
    Option LeaseBackends :=
  (b.redis.serve ttl keyPrefix scope request).map fun (_, redis) =>
    { memory := (b.memory.serve request).2, redis }

/-- Every lease that is out is younger than its lifetime. -/
def LeaseBackends.Fresh (ttl : Int) (b : LeaseBackends) : Prop :=
  ∀ call ∈ b.redis.redis.calls, call.phase = .granted false →
    b.redis.redis.clock < call.readAt + ttl

instance (ttl : Int) (b : LeaseBackends) : Decidable (b.Fresh ttl) :=
  inferInstanceAs (Decidable (∀ call ∈ b.redis.redis.calls, _))

/-- Both managers answer the request alike. -/
def LeaseBackends.Agree (ttl : Int) (keyPrefix scope : PyStr) (b : LeaseBackends)
    (request : LeaseRequest) : Prop :=
  (b.redis.serve ttl keyPrefix scope request).map Prod.fst = some (b.memory.serve request).1

end Fcam

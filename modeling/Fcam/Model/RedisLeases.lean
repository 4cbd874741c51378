import Mathlib.Logic.Function.Basic
import Fcam.Base.ScoredSet
import Fcam.Model.Text

/-!
# Leases in Redis

`RedisConcurrencyManager`: the leases of a key are the members of a sorted set, each with the time
its lease ends as score. `try_acquire` reads the clock and sends a script; where the server knows no
scripts it watches the key, evicts, counts and sends the new member in a transaction, up to five
times. The calls of any number of processes take these steps one at a time, in any order; a token is
the number of its call.
-/

namespace Fcam

/-- `text.strip(":")`. -/
def stripColons (text : PyStr) : PyStr :=
  ((text.dropWhile fun c => c = 58).reverse.dropWhile fun c => c = 58).reverse

/-- What a lease is asked for: the prefix and the scope of the manager, and the key. -/
structure LeaseName where
  keyPrefix : PyStr
  scope : PyStr
  key : PyStr
deriving DecidableEq

/-- `_redis_key`. -/
def LeaseName.redisKey (name : LeaseName) : PyStr :=
  let keyPrefix :=
    stripColons (if name.keyPrefix = [] then PyStr.ofString "fcam" else name.keyPrefix)
  let stripped := stripColons name.key
  let safeKey := if stripped = [] then PyStr.ofString "unknown" else stripped
  keyPrefix ++ PyStr.ofString ":concurrency:" ++ stripColons name.scope ++ PyStr.ofString ":" ++
    safeKey

/-- `self._lease_ttl_ms`. -/
def leaseTtl (leaseTtlMs : Int) : Int := max leaseTtlMs 1000

/-- `max(1, ceil(ttl / 1000))`. -/
def expireSeconds (ttl : Int) : Int := max 1 ((ttl + 999) / 1000)

/-- Where a call of `try_acquire` with a positive maximum is, with the version it watches. -/
inductive CallPhase where
  | asking
  | watching (round : Nat)
  | evicting (round version : Nat)
  | counting (round version : Nat)
  | executing (round version : Nat)
  | granted (released : Bool)
  | refused
  | unavailable
deriving DecidableEq

structure AcquireCall where
  name : LeaseName
  maximum : Int
  readAt : Int
  phase : CallPhase := .asking
deriving DecidableEq

/-- What a call does next. -/
inductive CallStep where
  | script
  | noScripts
  | watch
  | evict
  | count
  | execute
  | release
deriving DecidableEq

/-- A new member and the expiry of the whole set, as the script and the transaction write them. -/
def ScoredSet.lease (clock readAt ttl : Int) (token : Nat) (set : ScoredSet Nat) : ScoredSet Nat :=
  (set.zadd token (readAt + ttl)).expire (clock + expireSeconds ttl * 1000)

/-- The next step of a call: where it is then, and the set of its key. -/
def AcquireCall.step (ttl clock : Int) (token : Nat) (call : AcquireCall) (set : ScoredSet Nat) :
    CallStep → Option (CallPhase × ScoredSet Nat)
  | .script =>
    -- `_ACQUIRE_LUA`
    if call.phase = .asking then
      let set := set.zremrangebyscore call.readAt
      if call.maximum ≤ set.zcard then some (.refused, set)
      else some (.granted false, set.lease clock call.readAt ttl token)
    else none
  | .noScripts => if call.phase = .asking then some (.watching 0, set) else none
  -- the loop of `_acquire_fallback`
  | .watch =>
    match call.phase with
    | .watching round => some (.evicting round set.version, set)
    | _ => none
  | .evict =>
    match call.phase with
    | .evicting round version => some (.counting round version, set.zremrangebyscore call.readAt)
    | _ => none
  | .count =>
    match call.phase with
    | .counting round version =>
      if call.maximum ≤ set.zcard then some (.refused, set)
      else some (.executing round version, set)
    | _ => none
  | .execute =>
    match call.phase with
    | .executing round version =>
      if set.version = version then some (.granted false, set.lease clock call.readAt ttl token)
      else if round + 1 < 5 then some (.watching (round + 1), set)
      else some (.unavailable, set)
    | _ => none
  | .release =>
    match call.phase with
    | .granted released => some (.granted true, if released then set else set.zrem token)
    | _ => none

/-- The clock, the sets of all keys and the calls so far. -/
structure RedisState where
  clock : Int
  sets : PyStr → ScoredSet Nat := fun _ => .empty
  calls : List AcquireCall := []

/-- Time passes, a call begins or takes a step, `current` evicts by a clock it has read, or a key
expires. -/
inductive RedisAction where
  | tick (elapsed : Nat)
  | tryAcquire (name : LeaseName) (maximum : Int)
  | call (token : Nat) (step : CallStep)
  | current (name : LeaseName) (readAt : Int)
  | expire (key : PyStr) (noticed : Bool)

/-- One step of a run. -/
def RedisState.next (ttl : Int) (st : RedisState) : RedisAction → Option RedisState
  | .tick elapsed => some { st with clock := st.clock + elapsed }
  | .tryAcquire name maximum =>
    -- a maximum below 1 asks for no lease
    if maximum ≤ 0 then some st
    else some { st with calls := st.calls ++ [{ name, maximum, readAt := st.clock }] }
  | .call token step =>
    st.calls[token]?.bind fun call =>
      (call.step ttl st.clock token (st.sets call.name.redisKey) step).map fun (phase, set) =>
        { st with
          sets := Function.update st.sets call.name.redisKey set
          calls := st.calls.set token { call with phase } }
  | .current name readAt =>
    if readAt ≤ st.clock then
      some
        { st with
          sets := Function.update st.sets name.redisKey
            ((st.sets name.redisKey).zremrangebyscore readAt) }
    else none
  | .expire key noticed =>
    if (st.sets key).expiresAt.any (· ≤ st.clock) then
      some { st with sets := Function.update st.sets key ((st.sets key).gone noticed) }
    else none

/-- A lease that is out under a Redis key, and at some time younger than its lifetime. -/
def AcquireCall.live (ttl : Int) (key : PyStr) (at' : Int) (call : AcquireCall) : Bool :=
  call.phase == .granted false && call.name.redisKey == key && decide (at' < call.readAt + ttl)

/-- The number of these. -/
def RedisState.liveLeases (ttl : Int) (st : RedisState) (key : PyStr) (at' : Int) : Nat :=
  st.calls.countP (AcquireCall.live ttl key at')

end Fcam

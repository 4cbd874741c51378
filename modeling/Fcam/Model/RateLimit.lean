import Mathlib.Data.Rat.Floor
import Mathlib.Logic.Function.Basic
import Fcam.Model.Error

/-!
# Token buckets

`TokenBucketRateLimiter`, the rate limiter of one process, with exact rationals for its floats and
for the seconds of the monotonic clock, and `RedisTokenBucketRateLimiter`, the one its instances
share, on the milliseconds of their wall clocks. Their keys are the ids of rows, in decimal.
-/

namespace Fcam

structure Bucket where
  tokens : ℚ
  lastRefill : ℚ
deriving DecidableEq

structure TokenBucketRateLimiter where
  buckets : Nat → Option Bucket := fun _ => none

namespace TokenBucketRateLimiter

/-- Whether a call is allowed, the seconds to wait where it is not, and the limiter after it. -/
def allow (limiter : TokenBucketRateLimiter) (now : ℚ) (key ratePerMin : Nat) :
    (Bool × Int) × TokenBucketRateLimiter :=
  if ratePerMin = 0 then ((true, 0), limiter)
  else
    let capacity : ℚ := ratePerMin
    let refillPerSec := capacity / 60
    let bucket := (limiter.buckets key).getD { tokens := capacity, lastRefill := now }
    let elapsed := max (now - bucket.lastRefill) 0
    let tokens := min capacity (bucket.tokens + elapsed * refillPerSec)
    let put (tokens : ℚ) : TokenBucketRateLimiter :=
      { buckets := Function.update limiter.buckets key (some { tokens, lastRefill := now }) }
    if 1 ≤ tokens then ((true, 0), put (tokens - 1))
    else ((false, max ((1 - tokens) / refillPerSec).ceil 1), put tokens)

variable {limiter limiter' : TokenBucketRateLimiter} (now : ℚ) {key : Nat} (ratePerMin : Nat)

/-- A call sees and changes the bucket of its key only. -/
theorem allow_congr (h : limiter.buckets key = limiter'.buckets key) :
    (limiter.allow now key ratePerMin).1 = (limiter'.allow now key ratePerMin).1 ∧
      (limiter.allow now key ratePerMin).2.buckets key =
        (limiter'.allow now key ratePerMin).2.buckets key := by
  simp only [allow, h]
  split
  · exact ⟨rfl, h⟩
  split
  · exact ⟨rfl, by simp⟩
  · exact ⟨rfl, by simp⟩

theorem allow_of_ne {other : Nat} (hne : other ≠ key) :
    (limiter.allow now key ratePerMin).2.buckets other = limiter.buckets other := by
  simp only [allow]
  split
  · rfl
  split
  · exact Function.update_of_ne hne _ _
  · exact Function.update_of_ne hne _ _

end TokenBucketRateLimiter

/-! ### The buckets in Redis -/

/-- The hash of a bucket, and the millisecond of the server's clock after which it is gone. -/
structure BucketHash where
  tokens : ℚ
  last : Int
  expiresAt : Int
deriving DecidableEq

structure RedisTokenBucketRateLimiter where
  hashes : Nat → Option BucketHash := fun _ => none

/-- What `EVAL` meets: a server that runs the script, one without the command, where the
transactions of the fallback meet some conflicts, or any other failure. -/
inductive EvalAnswer where
  | runs
  | unknownCommand (conflicts : Nat)
  | fails
deriving DecidableEq

namespace RedisTokenBucketRateLimiter

/-- The hash Redis still has, by the server's clock. -/
def hash? (limiter : RedisTokenBucketRateLimiter) (clock : Int) (key : Nat) : Option BucketHash :=
  (limiter.hashes key).filter fun hash => clock ≤ hash.expiresAt

/-- `HMGET key tokens last`. -/
def hmget (limiter : RedisTokenBucketRateLimiter) (clock : Int) (key : Nat) :
    Option ℚ × Option Int :=
  let hash := limiter.hash? clock key
  (hash.map (·.tokens), hash.map (·.last))

/-- `HMSET` of both fields with `EXPIRE key 120`. -/
def hmset (limiter : RedisTokenBucketRateLimiter) (clock : Int) (key : Nat) (tokens : ℚ)
    (last : Int) :
    RedisTokenBucketRateLimiter :=
  { hashes := Function.update limiter.hashes key
      (some { tokens, last, expiresAt := clock + 120 * 1000 }) }

/-- `_ALLOW_LUA`. -/
def allowLua (limiter : RedisTokenBucketRateLimiter) (clock : Int) (key : Nat) (now : Int)
    (capacity refillPerMs : ℚ) :
    (Int × Int) × RedisTokenBucketRateLimiter :=
  if capacity ≤ 0 then ((1, 0), limiter)
  else
    let data := limiter.hmget clock key
    let tokens := data.1.getD capacity
    let last := data.2.getD now
    let elapsed := if now - last < 0 then 0 else now - last
    let tokens := min capacity (tokens + elapsed * refillPerMs)
    if 1 ≤ tokens then ((1, 0), limiter.hmset clock key (tokens - 1) now)
    else
      let msNeeded := (1 - tokens) / refillPerMs
      let retryAfter := (msNeeded / 1000).ceil
      ((0, if retryAfter < 1 then 1 else retryAfter), limiter.hmset clock key tokens now)

/-- `_allow_fallback`: a transaction that meets a conflict writes nothing and is tried again, five
times in all. -/
def allowFallback (limiter : RedisTokenBucketRateLimiter) (conflicts : Nat) (clock : Int)
    (key : Nat) (now : Int) (capacity refillPerMs : ℚ) :
    Except FcamError (Int × Int) × RedisTokenBucketRateLimiter :=
  if 5 ≤ conflicts then (.error (dbUnavailable "State backend unavailable"), limiter)
  else
    let raw := limiter.hmget clock key
    let tokens := raw.1.getD capacity
    let last := raw.2.getD now
    let elapsed := max (now - last) 0
    let tokens := min capacity (tokens + elapsed * refillPerMs)
    if 1 ≤ tokens then (.ok (1, 0), limiter.hmset clock key (tokens - 1) now)
    else
      let msNeeded := (1 - tokens) / refillPerMs
      let retryAfter := (msNeeded / 1000).ceil
      (.ok (0, max retryAfter 1), limiter.hmset clock key tokens now)

/-- A call of an instance whose wall clock reads `now`, in milliseconds. -/
def allow (limiter : RedisTokenBucketRateLimiter) (answer : EvalAnswer) (clock : Int) (key : Nat)
    (now : Int) (ratePerMin : Nat) : Except FcamError (Bool × Int) × RedisTokenBucketRateLimiter :=
  if ratePerMin = 0 then (.ok (true, 0), limiter)
  else
    let capacity : ℚ := ratePerMin
    let refillPerMs := capacity / 60000
    let (result, limiter) : Except FcamError (Int × Int) × RedisTokenBucketRateLimiter :=
      match answer with
      | .runs =>
        let (result, limiter) := limiter.allowLua clock key now capacity refillPerMs
        (.ok result, limiter)
      | .unknownCommand conflicts =>
        limiter.allowFallback conflicts clock key now capacity refillPerMs
      | .fails => (.error (dbUnavailable "State backend unavailable"), limiter)
    (result.map fun (allowed, retryAfter) => (allowed != 0, retryAfter), limiter)

end RedisTokenBucketRateLimiter

end Fcam

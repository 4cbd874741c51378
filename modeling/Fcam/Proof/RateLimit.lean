import Fcam.Base.Run
import Fcam.Base.TokenBucket
import Fcam.Model.RateLimit

/-!
# The token buckets of the gateway

The limiter of a process, the Lua script and the `WATCH` fallback are three programs for one bucket
of `Fcam.Level`. Each is rewritten once to `Level.take`, and the statements are about that.
-/

namespace Fcam

def Bucket.level (bucket : Bucket) : Level ℚ :=
  { tokens := bucket.tokens, last := bucket.lastRefill }

def BucketHash.level (hash : BucketHash) : Level ℚ := { tokens := hash.tokens, last := hash.last }

/-- What a limiter answers where a bucket of `rate` tokens a minute is left as `call` says. -/
def answered (rate : ℚ) (call : Bool × Level ℚ) : Bool × Int :=
  (call.1, if call.1 then 0 else Level.wait (rate / 60) call.2.tokens)

theorem ceil_eq (q : ℚ) : q.ceil = ⌈q⌉ :=
  eq_of_forall_ge_iff fun _ => Rat.ceil_le_iff.trans Int.ceil_le.symm

variable {rate key : Nat}

namespace TokenBucketRateLimiter

variable {limiter : TokenBucketRateLimiter} {now : ℚ}

/-- The bucket of a key as `Level` sees it. -/
def level (limiter : TokenBucketRateLimiter) (key : Nat) : Option (Level ℚ) :=
  (limiter.buckets key).map Bucket.level

theorem refilled_eq (capacity refillPerSec : ℚ) :
    let bucket := (limiter.buckets key).getD { tokens := capacity, lastRefill := now }
    min capacity (bucket.tokens + max (now - bucket.lastRefill) 0 * refillPerSec) =
      Level.refilled capacity refillPerSec now (limiter.level key) := by
  unfold level
  cases limiter.buckets key with
  | none => simp
  | some bucket => rfl

theorem allow_eq (limiter : TokenBucketRateLimiter) (now : ℚ) (key : Nat) (hrate : 0 < rate) :
    (limiter.allow now key rate).1 =
      answered rate (Level.take (rate : ℚ) (rate / 60) now (limiter.level key)) ∧
      (limiter.allow now key rate).2.level key =
        some (Level.take (rate : ℚ) (rate / 60) now (limiter.level key)).2 := by
  unfold allow
  rw [if_neg hrate.ne']
  simp only [refilled_eq]
  rcases le_or_gt 1 (Level.refilled (rate : ℚ) (rate / 60) now (limiter.level key)) with h | h
  · rw [if_pos h, Level.take_of_le h]
    exact ⟨rfl, by simp [level, Bucket.level]⟩
  · rw [if_neg h.not_ge, Level.take_of_lt h, ceil_eq]
    exact ⟨rfl, by simp [level, Bucket.level]⟩

/-! ### Calls of one key -/

/-- The limiter after calls at these times. -/
def called (key rate : Nat) (limiter : TokenBucketRateLimiter) (times : List ℚ) :
    TokenBucketRateLimiter :=
  times.foldl (fun limiter now => (limiter.allow now key rate).2) limiter

/-- The times of the calls that are allowed. -/
def granted (key rate : Nat) : TokenBucketRateLimiter → List ℚ → List ℚ
  | _, [] => []
  | limiter, now :: times =>
    let rest := granted key rate (limiter.allow now key rate).2 times
    if (limiter.allow now key rate).1.1 then now :: rest else rest

theorem granted_eq_taken (hrate : 0 < rate) (times : List ℚ) :
    granted key rate limiter times = Level.taken (rate : ℚ) (rate / 60)
      (limiter.level key) times := by
  induction times generalizing limiter with
  | nil => rfl
  | cons now times ih =>
    obtain ⟨hresult, hlevel⟩ := limiter.allow_eq now key hrate
    rw [granted, Level.taken_cons, ← hlevel, ← ih, hresult]
    rfl

theorem allow_granted (hrate : 0 < rate) :
    (limiter.allow now key rate).1.1 = true ↔ 1 ≤ Level.refilled (rate : ℚ)
      (rate / 60) now (limiter.level key) := by
  rw [(limiter.allow_eq now key hrate).1]
  exact Level.take_granted

theorem allow_later (hallowed : (limiter.allow now key rate).1.1 = true) {later : ℚ}
    (hle : now ≤ later) :
    (limiter.allow later key rate).1.1 = true := by
  rcases Nat.eq_zero_or_pos rate with rfl | hrate
  · rfl
  · have hflow : (0 : ℚ) ≤ rate / 60 := by positivity
    rw [allow_granted hrate] at hallowed ⊢
    exact hallowed.trans (Level.refilled_mono hflow hle)

/-- In every window the bucket lets its rate through and what flows in meanwhile. After a denial,
the seconds it answers with are the fewest after which the next call is sure to be allowed. -/
theorem window_bounded_and_retry_after_least (hnone : limiter.buckets key = none) (hrate : 1 ≤ rate)
    {times : List ℚ} (hsorted : times.Pairwise (· ≤ ·)) :
    (∀ t₀ t₁ : ℚ, t₀ ≤ t₁ →
      ((granted key rate limiter times).countP (fun t => t₀ ≤ t ∧ t ≤ t₁) :
        ℚ) ≤ rate + rate * (t₁ - t₀) / 60) ∧
    ∀ (before after : List ℚ) (now : ℚ) (retryAfter : Int), times = before ++ now :: after →
      ((called key rate limiter before).allow now key rate).1 = (false, retryAfter) →
      IsLeast {s : Int | 1 ≤ s ∧ ∀ next : ℚ, now + s ≤ next →
        (((called key rate limiter before).allow now key rate).2.allow next key rate).1.1 = true}
          retryAfter := by
  have hcapacity : (1 : ℚ) ≤ rate := Nat.one_le_cast.mpr hrate
  constructor
  · intro t₀ t₁ hle
    have hsolvent : Level.Solvent (limiter.level key) := by simp [level, hnone, Level.Solvent]
    rw [granted_eq_taken hrate]
    calc _ ≤ (rate : ℚ) + rate / 60 * (t₁ - t₀) :=
          Level.countP_taken_window_le (by linarith) (by linarith) hsolvent hsorted hle
      _ = rate + rate * (t₁ - t₀) / 60 := by ring
  · intro before after now retryAfter _ hdenied
    obtain ⟨hresult, hlevel⟩ := (called key rate limiter before).allow_eq now key hrate
    have hflow : (0 : ℚ) < rate / 60 := by linarith
    have hwait := Level.isLeast_wait hcapacity hflow
      (l := (Level.take (rate : ℚ) (rate / 60) now ((called key rate limiter before).level key)).2)
    rw [hdenied, answered, Prod.mk.injEq] at hresult
    rw [← hresult.1, if_neg (by decide)] at hresult
    simpa only [allow_granted hrate, hlevel, hresult.2, Level.take_last] using hwait

/-- One call a minute: a second later the next one is 59 seconds away. -/
theorem window_bounded_and_retry_after_least_of_denied :
    IsLeast {s : Int | 1 ≤ s ∧ ∀ next : ℚ, 1 + s ≤ next →
      (((called 7 1 {} [0]).allow 1 7 1).2.allow next 7 1).1.1 = true} 59 :=
  (window_bounded_and_retry_after_least rfl le_rfl
   (show ([0, 1] : List ℚ).Pairwise (· ≤ ·) by simp)).2 [0] [] 1 59 rfl
    (by decide +kernel)

end TokenBucketRateLimiter

/-- The evaluation gets an answer: the script runs, or one of the five transactions meets no
conflict. -/
def EvalAnswer.Answers : EvalAnswer → Prop
  | .runs => True
  | .unknownCommand conflicts => conflicts < 5
  | .fails => False

namespace RedisTokenBucketRateLimiter

variable {limiter : RedisTokenBucketRateLimiter} {clock now : Int} {answer : EvalAnswer}

/-- The hash Redis still has as `Level` sees it. -/
def level (limiter : RedisTokenBucketRateLimiter) (clock : Int) (key : Nat) : Option (Level ℚ) :=
  (limiter.hash? clock key).map BucketHash.level

/-- What the script and the fallback make of the fields of a hash. -/
theorem refilled_eq (capacity refillPerMs : ℚ) :
    min capacity ((limiter.hmget clock key).1.getD capacity +
        ((max (now - (limiter.hmget clock key).2.getD now) 0 : Int) : ℚ) * refillPerMs) =
      Level.refilled capacity refillPerMs now (limiter.level clock key) := by
  unfold hmget level
  cases limiter.hash? clock key with
  | none => simp
  | some hash => simp [Level.refilled_some, BucketHash.level]

theorem wait_eq (rate tokens : ℚ) :
    max ((1 - tokens) / (rate / 60000) / 1000).ceil 1 = Level.wait (rate / 60) tokens := by
  have hunit : rate / 60000 * 1000 = rate / 60 := by ring
  rw [div_div, hunit, ceil_eq]
  rfl

/-- The script and a fallback that gets its transaction through do the same. -/
theorem allowFallback_eq {capacity refillPerMs : ℚ} (hcapacity : 0 < capacity) {conflicts : Nat}
    (hconflicts : conflicts < 5) :
    limiter.allowFallback conflicts clock key now capacity refillPerMs =
      (.ok (limiter.allowLua clock key now capacity refillPerMs).1,
        (limiter.allowLua clock key now capacity refillPerMs).2) := by
  unfold allowFallback allowLua
  rw [if_neg (by omega), if_neg hcapacity.not_ge]
  simp only [← max_def_lt]
  split
  · rfl
  · rfl

theorem allowLua_eq (hrate : 0 < rate) :
    limiter.allowLua clock key now rate (rate / 60000) =
      let call := Level.take (rate : ℚ) (rate / 60000) now (limiter.level clock key)
      ((if call.1 then 1
        else 0, (answered rate call).2), limiter.hmset clock key call.2.tokens now) := by
  have hcapacity : (0 : ℚ) < rate := Nat.cast_pos.mpr hrate
  unfold allowLua
  rw [if_neg hcapacity.not_ge]
  simp only [← max_def_lt, refilled_eq, wait_eq]
  rcases le_or_gt 1 (Level.refilled (rate : ℚ) (rate / 60000) now (limiter.level clock key)) with
    h | h
  · rw [if_pos h, Level.take_of_le h]
    rfl
  · rw [if_neg h.not_ge, Level.take_of_lt h]
    rfl

theorem allow_eq (hrate : 0 < rate) (hanswer : answer.Answers) :
    limiter.allow answer clock key now rate =
      let call := Level.take (rate : ℚ) (rate / 60000) now (limiter.level clock key)
      (.ok (answered rate call), limiter.hmset clock key call.2.tokens now) := by
  have hcapacity : (0 : ℚ) < rate := Nat.cast_pos.mpr hrate
  unfold allow
  rw [if_neg hrate.ne']
  cases answer with
  | fails => exact hanswer.elim
  | runs =>
    simp only [allowLua_eq hrate]
    cases hgranted : (Level.take (rate : ℚ) (rate / 60000) now (limiter.level clock key)).1 <;>
      simp [answered, hgranted, Except.map]
  | unknownCommand conflicts =>
    simp only [allowFallback_eq hcapacity hanswer, allowLua_eq hrate]
    cases hgranted : (Level.take (rate : ℚ) (rate / 60000) now (limiter.level clock key)).1 <;>
      simp [answered, hgranted, Except.map]

theorem allow_of_not_answers (hrate : 0 < rate) (hanswer : ¬ answer.Answers) :
    limiter.allow answer clock key now rate =
      (.error (dbUnavailable "State backend unavailable"), limiter) := by
  unfold allow
  rw [if_neg hrate.ne']
  cases answer with
  | runs => exact absurd trivial hanswer
  | fails => rfl
  | unknownCommand conflicts =>
    simp only [allowFallback, if_pos (not_lt.mp hanswer)]
    rfl

/-! ### Calls of one key by several instances -/

/-- The limiter of one Redis server, with the calls of one key that were allowed and the readings
they came with. -/
structure Shared where
  limiter : RedisTokenBucketRateLimiter := {}
  granted : Nat := 0
  readings : List Int := []

/-- A call of some instance: its clock reads `now`. -/
structure SharedCall where
  answer : EvalAnswer
  clock : Int
  now : Int

/-- Whether a call is allowed. -/
def allowed (result : Except FcamError (Bool × Int)) : Bool :=
  match result with
  | .ok (granted, _) => granted
  | .error _ => false

def Shared.next (key rate : Nat) (s : Shared) (call : SharedCall) : Option Shared :=
  let (result, limiter) := s.limiter.allow call.answer call.clock key call.now rate
  some
    { limiter
      granted := s.granted + (allowed result).toNat
      readings := call.now :: s.readings }

/-- Redis has not dropped the hash. -/
def Unexpired (key : Nat) (s : Shared) (call : SharedCall) : Prop :=
  ∀ hash ∈ s.limiter.hashes key, call.clock ≤ hash.expiresAt

/-- The reading is no older than the one the hash was left with. -/
def InOrder (key : Nat) (s : Shared) (call : SharedCall) : Prop :=
  ∀ hash ∈ s.limiter.hashes key, hash.last ≤ call.now

/-- What the allowed calls took and what is left was there at first or has flowed in since the first
reading. -/
structure Paid (key rate : Nat) (s : Shared) : Prop where
  unused : s.limiter.hashes key = none → s.granted = 0
  tokens : ∀ hash ∈ s.limiter.hashes key, 0 ≤ hash.tokens
  last : ∀ hash ∈ s.limiter.hashes key, hash.last ∈ s.readings
  paid : ∀ hash ∈ s.limiter.hashes key, ∀ lo ∈ lowerBounds {now | now ∈ s.readings},
    s.granted + hash.tokens ≤ rate + (rate : ℚ) / 60000 * (hash.last - lo)

theorem level_of_unexpired (hunexpired : ∀ hash ∈ limiter.hashes key, clock ≤ hash.expiresAt) :
    limiter.level clock key = (limiter.hashes key).map BucketHash.level := by
  unfold level hash?
  cases hhash : limiter.hashes key with
  | none => rfl
  | some hash => rw [Option.filter_some, if_pos (by simpa using hunexpired hash hhash)]

/-- The tokens a call in order finds were there at first or have flowed in since the first
reading. -/
theorem Paid.found {s : Shared} (hrate : 0 < rate) (h : Paid key rate s)
    (hin : ∀ hash ∈ s.limiter.hashes key, hash.last ≤ now) {lo : Int}
    (hlo : lo ∈ lowerBounds {t | t ∈ now :: s.readings}) :
    s.granted + Level.refilled (rate : ℚ)
      (rate / 60000) now ((s.limiter.hashes key).map BucketHash.level) ≤
      rate + (rate : ℚ) / 60000 * (now - lo) := by
  have hflow : (0 : ℚ) ≤ rate / 60000 := by positivity
  cases hhash : s.limiter.hashes key with
  | none =>
    have hfirst : (lo : ℚ) ≤ now := by exact_mod_cast hlo (List.mem_cons_self)
    rw [h.unused hhash, Option.map_none, Level.refilled_none, Nat.cast_zero, zero_add]
    exact le_add_of_nonneg_right (mul_nonneg hflow (sub_nonneg.mpr hfirst))
  | some hash =>
    have hlast : hash.level.last ≤ (now : ℚ) := Int.cast_le.mpr (hin hash hhash)
    have hpaid := h.paid hash hhash lo fun t ht => hlo (List.mem_cons_of_mem now ht)
    have hfound : Level.refilled (rate : ℚ) (rate / 60000) now (some hash.level) ≤ _ :=
      Level.refilled_le_of_le hlast
    calc _ ≤ (s.granted : ℚ) + (hash.tokens + (rate : ℚ) / 60000 * (now - hash.last)) :=
      add_le_add_right hfound _
      _ ≤ rate + (rate : ℚ) / 60000 * (hash.last - lo) + rate / 60000 * (now - hash.last) := by
        rw [← add_assoc]
        exact add_le_add_left hpaid _
      _ = rate + (rate : ℚ) / 60000 * (now - lo) := by ring

theorem Paid.next {s s' : Shared} {call : SharedCall} (hrate : 0 < rate) (h : Paid key rate s)
    (hok : Unexpired key s call ∧ InOrder key s call) (hnext : s.next key rate call = some s') :
    Paid key rate s' := by
  by_cases hanswers : call.answer.Answers
  · have hlevel := level_of_unexpired hok.1
    simp only [Shared.next, allow_eq hrate hanswers, hlevel, Option.some.injEq] at hnext
    subst hnext
    have hsolvent : Level.Solvent ((s.limiter.hashes key).map BucketHash.level) := by
      rintro l hl
      obtain ⟨hash, hhash, rfl⟩ := Option.map_eq_some_iff.mp hl
      exact h.tokens hash hhash
    have hflow : (0 : ℚ) ≤ rate / 60000 := by positivity
    have hleft : Level.Solvent (some (Level.take (rate : ℚ) (rate / 60000) call.now _).2) :=
      Level.solvent_take (Nat.cast_nonneg rate) hflow hsolvent
    refine ⟨by simp [hmset], ?_, ?_, ?_⟩
    · simpa [hmset] using hleft _ rfl
    · simp [hmset]
    · simp only [hmset, Function.update_self, Option.mem_some_iff, forall_eq', Nat.cast_add]
      intro lo hlo
      have hfound := h.found hrate hok.2 hlo
      rw [← Level.take_tokens, ← add_assoc] at hfound
      convert hfound using 3
      simp only [allowed, answered]
      cases (Level.take (rate :
        ℚ) (rate / 60000) call.now ((s.limiter.hashes key).map BucketHash.level)).1 <;> rfl
  · simp only [Shared.next, allow_of_not_answers hrate hanswers, Option.some.injEq] at hnext
    subst hnext
    refine ⟨h.unused, h.tokens, fun hash hhash => List.mem_cons_of_mem _ (h.last hash hhash),
      fun hash hhash lo hlo => ?_⟩
    exact h.paid hash hhash lo fun t ht => hlo (List.mem_cons_of_mem _ ht)

/-- Where no reading is older than the one the hash was left with, the allowed calls are paid by a
full bucket and by what flows in between the first and the last reading. -/
theorem granted_le_of_in_order (hrate : 0 < rate) (hnone : limiter.hashes key = none)
    {calls : List SharedCall} {s : Shared}
    (hmeets : Meets (Shared.next key rate) (fun s call => Unexpired key s call ∧ InOrder key s call)
      { limiter } calls) (hexec : exec (Shared.next key rate) { limiter } calls = some s)
        {lo hi : Int}
    (hlo : IsLeast {now | now ∈ s.readings} lo) (hhi : IsGreatest {now | now ∈ s.readings} hi) :
    (s.granted : ℚ) ≤ rate + (rate : ℚ) / 60000 * (hi - lo) := by
  have hstart : Paid key rate { limiter } :=
    ⟨fun _ => rfl, by simp [hnone], by simp [hnone], by simp [hnone]⟩
  have hpaid : Paid key rate s :=
    exec_invariant_of_meets (fun _ _ _ h hok hnext => h.next hrate hok hnext) hmeets hexec hstart
  have hflow : (0 : ℚ) ≤ rate / 60000 := by positivity
  cases hhash : s.limiter.hashes key with
  | none =>
    have hle : (lo : ℚ) ≤ hi := Int.cast_le.mpr (hlo.2 hhi.1)
    rw [hpaid.unused hhash, Nat.cast_zero]
    exact add_nonneg (Nat.cast_nonneg rate) (mul_nonneg hflow (sub_nonneg.mpr hle))
  | some hash =>
    have hlast : (hash.last : ℚ) ≤ hi := Int.cast_le.mpr (hhi.2 (hpaid.last hash hhash))
    have htokens := hpaid.tokens hash hhash
    have hbound := hpaid.paid hash hhash lo hlo.2
    have hgrow : (rate : ℚ) / 60000 * (hash.last - lo) ≤ rate / 60000 * (hi - lo) :=
      mul_le_mul_of_nonneg_left (sub_le_sub_right hlast _) hflow
    linarith

/-- Two calls a minute apart, by the one token of the start and the one that flows in. -/
theorem granted_le_of_in_order_of_two :
    ∃ s, exec (Shared.next 7 1) {} [⟨.runs, 0, 0⟩, ⟨.unknownCommand 2, 0, 60000⟩] = some s ∧
      s.granted = 2 ∧
      (s.granted : ℚ) ≤ (1 : Nat) + ((1 : Nat) : ℚ) / 60000 * ((60000 : Int) - (0 : Int)) := by
  have hmeets : Meets (Shared.next 7 1) (fun s call => Unexpired 7 s call ∧ InOrder 7 s call) {}
      [⟨.runs, 0, 0⟩, ⟨.unknownCommand 2, 0, 60000⟩] := by
    refine meets_cons rfl ⟨nofun, nofun⟩ (meets_cons rfl ⟨?_, ?_⟩ trivial)
    · unfold Unexpired
      decide +kernel
    · unfold InOrder
      decide +kernel
  exact ⟨_, rfl, by decide +kernel,
    granted_le_of_in_order one_pos rfl hmeets rfl (by simp [IsLeast, lowerBounds])
      (by simp [IsGreatest, upperBounds])⟩

/-- From an unused bucket, and as long as Redis does not drop its hash, the allowed calls of every
run are paid by a full bucket and by what flows in between the first and the last reading. -/
def BoundedByReadings (answer : EvalAnswer) (key rate : Nat) : Prop :=
  ∀ (calls : List SharedCall) (s : Shared) (lo hi : Int), (∀ call ∈ calls, call.answer = answer) →
    Meets (Shared.next key rate) (Unexpired key) {} calls →
      exec (Shared.next key rate) {} calls = some s →
    IsLeast {now | now ∈ s.readings} lo → IsGreatest {now | now ∈ s.readings} hi →
    (s.granted : ℚ) ≤ rate + (rate : ℚ) / 60000 * (hi - lo)

/-- While the clock of the server stands still, nothing expires. -/
theorem meets_unexpired (clock : Int) (hrate : 0 < rate) {calls : List SharedCall} {s : Shared}
    (hclock : ∀ call ∈ calls, call.clock = clock)
    (hunexpired : ∀ hash ∈ s.limiter.hashes key, clock ≤ hash.expiresAt) :
    Meets (Shared.next key rate) (Unexpired key) s calls := by
  induction calls generalizing s with
  | nil => trivial
  | cons call calls ih =>
    have hcall : call.clock = clock := hclock call List.mem_cons_self
    refine ⟨by rwa [Unexpired, hcall],
      fun s' hnext => ih (fun c hc => hclock c (List.mem_cons_of_mem call hc)) ?_⟩
    by_cases hanswers : call.answer.Answers
    · simp only [Shared.next, allow_eq hrate hanswers, Option.some.injEq] at hnext
      subst hnext
      simp [hmset, hcall]
    · simp only [Shared.next, allow_of_not_answers hrate hanswers, Option.some.injEq] at hnext
      subst hnext
      exact hunexpired

/-- Readings that go back a minute and forth again fill the bucket for the same minute twice. -/
theorem not_boundedByReadings :
    ¬ BoundedByReadings .runs 7 1 ∧ ¬ BoundedByReadings (.unknownCommand 0) 7 1 := by
  constructor
  · intro h
    have hbound :=
      h ([0, 60000, 0, 60000].map fun now => { answer := .runs, clock := 0, now }) _ 0 60000
        (by simp)
      (meets_unexpired 0 one_pos (by simp) nofun) rfl (by simp [IsLeast, lowerBounds])
      (by simp [IsGreatest, upperBounds])
    revert hbound
    decide +kernel
  · intro h
    have hbound :=
      h ([0, 60000, 0, 60000].map fun now => { answer := .unknownCommand 0, clock := 0, now }) _ 0
        60000
      (by simp) (meets_unexpired 0 one_pos (by simp) nofun) rfl (by simp [IsLeast, lowerBounds])
      (by simp [IsGreatest, upperBounds])
    revert hbound
    decide +kernel

end RedisTokenBucketRateLimiter

/-! ### Three programs, one bucket -/

/-- The bucket of a process and the hash in Redis after the same calls. -/
inductive SameBucket : Option Bucket → Option BucketHash → Prop where
  | unused : SameBucket none none
  | used (tokens : ℚ) (ms : Int) : 0 ≤ tokens →
      SameBucket (some { tokens, lastRefill := ms / 1000 })
        (some { tokens, last := ms, expiresAt := ms + 120 * 1000 })

theorem SameBucket.solvent {limiter : TokenBucketRateLimiter} {hash : Option BucketHash}
    (h : SameBucket (limiter.buckets key) hash) : Level.Solvent (limiter.level key) := by
  unfold TokenBucketRateLimiter.level
  generalize limiter.buckets key = bucket at h
  cases h with
  | unused => exact nofun
  | used tokens ms htokens =>
    rintro l ⟨⟩
    exact htokens

/-- The next call finds the same tokens, also where Redis has dropped the hash by then. -/
theorem SameBucket.refilled_eq {limiter : TokenBucketRateLimiter}
    {shared : RedisTokenBucketRateLimiter} {ms : Int}
    (h : SameBucket (limiter.buckets key) (shared.hashes key))
    (hms : ∀ hash ∈ shared.hashes key, hash.last ≤ ms) :
    Level.refilled (rate : ℚ) (rate / 60) (ms / 1000) (limiter.level key) =
      Level.refilled (rate : ℚ) (rate / 60000) ms (shared.level ms key) := by
  unfold TokenBucketRateLimiter.level RedisTokenBucketRateLimiter.level
    RedisTokenBucketRateLimiter.hash?
  generalize limiter.buckets key = bucket, shared.hashes key = hash at h hms
  cases h with
  | unused => rfl
  | used tokens last htokens =>
    have hlast : (last : ℚ) ≤ ms := Int.cast_le.mpr (hms _ rfl)
    by_cases hkept : ms ≤ last + 120 * 1000
    · have hunit : (rate : ℚ) / 60000 = rate / 60 / 1000 := by ring
      rw [Option.filter_some, if_pos (by simpa using hkept), hunit]
      exact Level.refilled_rescale (by norm_num) (rate : ℚ) (rate / 60) ms tokens last
    · have hgone : (last : ℚ) + 120 * 1000 ≤ ms := by exact_mod_cast (not_le.mp hkept).le
      have hcapacity : (0 : ℚ) ≤ rate := Nat.cast_nonneg rate
      rw [Option.filter_some, if_neg (by simpa using hkept)]
      refine Level.refilled_of_le_mul htokens (show (last : ℚ) / 1000 ≤ ms / 1000 by linarith) ?_
      show (rate : ℚ) ≤ (ms / 1000 - last / 1000) * (rate / 60)
      calc (rate : ℚ) ≤ 120 * (rate / 60) := by linarith
        _ ≤ _ := mul_le_mul_of_nonneg_right (by linarith) (by linarith)

/-- A call gets the same answer from both, and leaves them the same. -/
theorem SameBucket.allow {limiter : TokenBucketRateLimiter} {shared : RedisTokenBucketRateLimiter}
    {ms : Int} {answer : EvalAnswer} (h : SameBucket (limiter.buckets key) (shared.hashes key))
    (hms : ∀ hash ∈ shared.hashes key, hash.last ≤ ms) (hrate : 0 < rate)
    (hanswer : answer.Answers) :
    (shared.allow answer ms key ms rate).1 = .ok (limiter.allow (ms / 1000) key rate).1 ∧
      SameBucket ((limiter.allow (ms / 1000) key rate).2.buckets key)
        ((shared.allow answer ms key ms rate).2.hashes key) ∧
      ∀ hash ∈ (shared.allow answer ms key ms rate).2.hashes key, hash.last = ms := by
  obtain ⟨hresult, hlevel⟩ := limiter.allow_eq (ms / 1000) key hrate
  have hfound : Level.refilled (rate : ℚ) (rate / 60) (ms / 1000) (limiter.level key) = _ :=
    h.refilled_eq hms
  obtain ⟨hgranted, htokens⟩ := Level.take_congr hfound
  have hcapacity : (0 : ℚ) ≤ rate := Nat.cast_nonneg rate
  have hsolvent :
      Level.Solvent (some (Level.take (rate : ℚ) (rate / 60) (ms / 1000) (limiter.level key)).2) :=
    Level.solvent_take hcapacity (by linarith) h.solvent
  have hnonneg := hsolvent _ rfl
  rw [htokens] at hnonneg
  obtain ⟨bucket, hbucket, hleft⟩ := Option.map_eq_some_iff.mp hlevel
  have hbucket' : bucket = { tokens := bucket.level.tokens, lastRefill := bucket.level.last } := rfl
  rw [RedisTokenBucketRateLimiter.allow_eq hrate hanswer, hresult, hbucket, hbucket', hleft,
    htokens, Level.take_last]
  refine ⟨?_, ?_, ?_⟩
  · simp only [answered, hgranted, htokens]
  · simpa [RedisTokenBucketRateLimiter.hmset] using SameBucket.used _ ms hnonneg
  · simp [RedisTokenBucketRateLimiter.hmset]

/-- What the limiter of a process answers to calls at these milliseconds, with these rates. -/
def TokenBucketRateLimiter.answers (key : Nat) : TokenBucketRateLimiter → List (Int × Nat) →
    List (Bool × Int)
  | _, [] => []
  | limiter, (ms, rate) :: calls =>
    (limiter.allow (ms / 1000) key rate).1 :: answers key (limiter.allow (ms / 1000) key rate).2
      calls

/-- What the limiter in Redis answers to them, on one clock. -/
def RedisTokenBucketRateLimiter.answers (answer : EvalAnswer) (key : Nat) :
    RedisTokenBucketRateLimiter → List (Int × Nat) → List (Except FcamError (Bool × Int))
  | _, [] => []
  | limiter, (ms, rate) :: calls =>
    (limiter.allow answer ms key ms rate).1 :: answers answer key
      (limiter.allow answer ms key ms rate).2 calls

theorem SameBucket.answers {limiter : TokenBucketRateLimiter} {shared : RedisTokenBucketRateLimiter}
    {answer : EvalAnswer} (h : SameBucket (limiter.buckets key) (shared.hashes key))
    {calls : List (Int × Nat)} (hsorted : (calls.map Prod.fst).Pairwise (· ≤ ·))
    (hlast : ∀ hash ∈ shared.hashes key, ∀ call ∈ calls,
      hash.last ≤ call.1) (hrates : ∀ call ∈ calls, 0 < call.2) (hanswer : answer.Answers) :
    shared.answers answer key calls = (limiter.answers key calls).map .ok := by
  induction calls generalizing limiter shared with
  | nil => rfl
  | cons call calls ih =>
    obtain ⟨ms, rate⟩ := call
    obtain ⟨hfirst, hrest⟩ := List.pairwise_cons.mp hsorted
    obtain ⟨hresult, hsame, hleft⟩ :=
      h.allow (fun hash hhash => hlast hash hhash (ms, rate) List.mem_cons_self)
      (hrates (ms, rate) List.mem_cons_self) hanswer
    rw [RedisTokenBucketRateLimiter.answers, TokenBucketRateLimiter.answers, List.map_cons, hresult]
    congr 1
    refine ih hsame hrest (fun hash hhash call hcall => ?_) fun call hcall =>
      hrates call (List.mem_cons_of_mem _ hcall)
    rw [hleft hash hhash]
    exact hfirst call.1 (List.mem_map_of_mem hcall)

/-- Called at the same milliseconds with the same rates, the limiter of a process, the script and
the fallback answer the same. -/
theorem limiters_agree {limiter : TokenBucketRateLimiter} {shared : RedisTokenBucketRateLimiter}
    (hbucket : limiter.buckets key = none) (hhash : shared.hashes key = none)
    {calls : List (Int × Nat)} (hsorted : (calls.map Prod.fst).Pairwise (· ≤ ·))
    (hrates : ∀ call ∈ calls, 0 < call.2) :
    shared.answers .runs key calls = (limiter.answers key calls).map .ok ∧
      shared.answers (.unknownCommand 0) key calls = (limiter.answers key calls).map .ok := by
  have hsame : SameBucket (limiter.buckets key) (shared.hashes key) := by
    rw [hbucket, hhash]
    exact .unused
  have hlast : ∀ hash ∈ shared.hashes key, ∀ call ∈ calls, hash.last ≤ call.1 := by simp [hhash]
  exact ⟨hsame.answers hsorted hlast hrates trivial,
    hsame.answers hsorted hlast hrates (show 0 < 5 by decide)⟩

/-- The rate grows after a pause of three minutes, in which Redis has dropped the hash. -/
theorem limiters_agree_of_changed_rate :
    (({} : RedisTokenBucketRateLimiter).answers .runs 7 [(0, 1), (10, 1), (180000, 3)] =
        (({} : TokenBucketRateLimiter).answers 7 [(0, 1), (10, 1), (180000, 3)]).map .ok) ∧
      ({} : RedisTokenBucketRateLimiter).answers (.unknownCommand 0) 7 [(0, 1), (10, 1),
        (180000, 3)] =
        (({} : TokenBucketRateLimiter).answers 7 [(0, 1), (10, 1), (180000, 3)]).map .ok :=
  limiters_agree rfl rfl (by decide) (by decide)

end Fcam

import Fcam.Model.Governance
import Fcam.Proof.SelectSpec

/-!
# The wait for the next midnight

A refusal for a daily quota names the seconds to the next midnight, with the fraction of a second
cut off and the wall clock's times subtracted as they read. A request repeated after so many seconds
comes that fraction before midnight, by the offset of the refusal.
-/

namespace Fcam

namespace Zone

variable (zone : Zone)

/-- The fraction of a second that is cut off the time to the next midnight, in microseconds. -/
def cutOff (t : Instant) : Int := -zone.wallTime t % 1000000

/-- The last whole second before the next midnight, by the offset at `t`. -/
def midnightReached (t : Instant) : Instant :=
  t + ((todayInTimezone zone t + 1) * dayLength - zone.wallTime t) - zone.cutOff t

/-- From the reading of the date and the later computation of the seconds to the repeat, the wall
clock gains what is cut off: by its offset, or by midnights passed before the computation. -/
def MidnightKept (dated computed : Instant) : Prop :=
  zone.cutOff computed ≤
    (todayInTimezone zone computed - todayInTimezone zone dated) * dayLength +
      (zone.utcoffset (zone.midnightReached computed) - zone.utcoffset computed) * 1000000
deriving Decidable

end Zone

/-- A request repeated so many seconds after its refusal is evaluated on a later date. -/
def LaterDate (zone : Zone) (dated computed : Instant) (retryAfter : Int) : Prop :=
  todayInTimezone zone dated < todayInTimezone zone (computed + retryAfter * 1000000)
deriving Decidable

variable {zone : Zone} {dated computed : Instant} {retryAfter : Int}

theorem max_wholeSeconds_mul (now : Int) :
    max (wholeSeconds ((now + dayLength) / dayLength * dayLength) now) 0 * 1000000 =
      (now / dayLength + 1) * dayLength - now - -now % 1000000 := by
  have hday : (now + dayLength) / dayLength = now / dayLength + 1 := by
    rw [dayLength]
    omega
  have hahead : 0 ≤ (now / dayLength + 1) * dayLength - now := by
    rw [dayLength]
    omega
  rw [hday, wholeSeconds, Int.tdiv_eq_ediv_of_nonneg hahead,
    Int.max_eq_left (Int.ediv_nonneg hahead (by decide))]
  have hfraction : ((now / dayLength + 1) * dayLength - now) % 1000000 = -now % 1000000 := by
    rw [dayLength]
    omega
  have hsplit := Int.mul_ediv_add_emod ((now / dayLength + 1) * dayLength - now) 1000000
  omega

theorem computed_add_seconds (h : secondsUntilNextMidnight zone computed = some retryAfter) :
    computed + retryAfter * 1000000 = zone.midnightReached computed := by
  rw [secondsUntilNextMidnight] at h
  split at h
  · cases h
  · rw [← Option.some.inj h, max_wholeSeconds_mul, Zone.midnightReached, Zone.cutOff,
      todayInTimezone, ← Int.add_sub_assoc]

theorem laterDate_iff (h : secondsUntilNextMidnight zone computed = some retryAfter) :
    LaterDate zone dated computed retryAfter ↔ zone.MidnightKept dated computed := by
  rw [LaterDate, computed_add_seconds h, Zone.MidnightKept]
  -- At the repeat the wall clock shows the next midnight, less what is cut off, plus what the
  -- offset has grown by.
  have hrepeat : ∀ now midnight cut offset later : Int,
      now + (midnight - (now + offset * 1000000)) - cut + later * 1000000 =
        midnight - cut + (later - offset) * 1000000 := by
    intro now midnight cut offset later
    omega
  have hwall : zone.wallTime (zone.midnightReached computed) =
      (todayInTimezone zone computed + 1) * dayLength - zone.cutOff computed +
        (zone.utcoffset (zone.midnightReached computed) - zone.utcoffset computed) * 1000000 := by
    rw [Zone.wallTime]
    exact hrepeat computed _ _ _ _
  have hlater : todayInTimezone zone dated < todayInTimezone zone (zone.midnightReached computed) ↔
      (todayInTimezone zone dated + 1) * dayLength ≤
        zone.wallTime (zone.midnightReached computed) :=
    Int.le_ediv_iff_mul_le (by decide)
  have hgain : ∀ day later cut gain : Int,
      (day + 1) * 86400000000 ≤ (later + 1) * 86400000000 - cut + gain ↔
        cut ≤ (later - day) * 86400000000 + gain := by
    intro day later cut gain
    omega
  rw [hlater, hwall]
  exact hgain _ _ _ _

/-- On a later date a counter of the date of the refusal is reset, -/
theorem LaterDate.resets_key (h : LaterDate zone dated computed retryAfter) {key : ApiKey}
    {day : Day} (hreset : key.quotaResetAt = some day) (hday : day ≤ todayInTimezone zone dated) :
    (lazyReset (todayInTimezone zone (computed + retryAfter * 1000000)) key).dailyUsage = 0 := by
  have hother :
      key.quotaResetAt ≠ some (todayInTimezone zone (computed + retryAfter * 1000000)) := by
    rw [hreset]
    intro hsame
    exact absurd (Option.some.inj hsame) (Int.ne_of_lt (Int.lt_of_le_of_lt hday h))
  rw [lazyReset, if_neg hother]

/-- and the row of a client is stored anew. -/
theorem LaterDate.resets_client (h : LaterDate zone dated computed retryAfter) (env : GovernanceEnv)
    {client : Client} {day : Day} (hreset : client.quotaResetAt = some day)
    (hday : day ≤ todayInTimezone zone dated) :
    quotaClient env (todayInTimezone zone (computed + retryAfter * 1000000)) client =
      env.commit.bind fun _ => env.reload := by
  have hother :
      client.quotaResetAt ≠ some (todayInTimezone zone (computed + retryAfter * 1000000)) := by
    rw [hreset]
    intro hsame
    exact absurd (Option.some.inj hsame) (Int.ne_of_lt (Int.lt_of_le_of_lt hday h))
  rw [quotaClient, if_neg hother]

/-! ### Clients -/

namespace GovernanceEnv

variable (env : GovernanceEnv)

/-- The date and the seconds are read off the clock of a time zone. -/
def Reads (zone : Zone) (dated computed : Instant) : Prop :=
  env.today = .ok (todayInTimezone zone dated) ∧
    env.secondsUntilNextMidnight =
      match Fcam.secondsUntilNextMidnight zone computed with
      | some retryAfter => .ok retryAfter
      | none => .error .overflowError

/-- Only the quota check refuses for a quota. -/
def LeavesQuota : Prop :=
  ∀ error : FcamError, error.code = .clientQuotaExceeded →
    env.leases ≠ .error (.fcam error) ∧ env.allow ≠ .error (.fcam error) ∧
      env.handler ≠ .error (.fcam error)

end GovernanceEnv

section

variable {config : AppConfig} {env : GovernanceEnv} {id : Nat} {client : Client}
  {m : ConcurrencyManager}

theorem checkClientQuota_exceeded (h : checkClientQuota config env client = .exceeded retryAfter) :
    env.secondsUntilNextMidnight = .ok retryAfter := by
  rw [checkClientQuota] at h
  split at h
  · split at h
    · cases h
    split at h
    · cases h
    rw [testClientQuota] at h
    split at h
    · cases h
    split at h
    · split at h
      · cases h
      · next seconds hseconds =>
        cases h
        exact hseconds
    · cases h
  · cases h

/-- A request refused for the client's quota names the seconds of the check. -/
theorem enforceClientGovernance_refused (hleaves : env.LeavesQuota) {error : FcamError}
    (hresult : (enforceClientGovernance config env id client m).result = .error (.fcam error))
    (hcode : error.code = .clientQuotaExceeded) :
    ∃ retryAfter, error.retryAfter = some retryAfter ∧ env.secondsUntilNextMidnight =
      .ok retryAfter := by
  obtain ⟨hleases, hallow, hhandler⟩ := hleaves error hcode
  rw [enforceClientGovernance] at hresult
  split at hresult
  · next hraised =>
    cases hresult
    exact absurd hraised hleases
  · cases hresult
    cases hcode
  split at hresult
  · next hraised =>
    cases hresult
    exact absurd hraised hallow
  · cases hresult
    cases hcode
  split at hresult
  · next retryAfter hcheck =>
    cases hresult
    exact ⟨retryAfter, rfl, checkClientQuota_exceeded hcheck⟩
  · cases hresult
    cases hcode
  · cases hresult
  · exact absurd hresult hhandler

end

/-! ### Keys -/

/-- The date and the seconds of a selection are read off the clock of a time zone. -/
def PoolEnv.Reads (env : PoolEnv) (zone : Zone) (dated computed : Instant) : Prop :=
  env.reading.today = todayInTimezone zone dated ∧
    Fcam.secondsUntilNextMidnight zone computed = some env.secondsUntilNextMidnight

section

variable {env : PoolEnv}

theorem exhaustedError_quotaExceeded {clientId : Option Nat} {examined : List Examined}
    (h : (exhaustedError env clientId examined).code = .allKeysQuotaExceeded) :
    (exhaustedError env clientId examined).retryAfter = some env.secondsUntilNextMidnight := by
  obtain hcode | ⟨-, hretry⟩ | ⟨hcode, -⟩ | hcode := exhaustedError_cases env clientId examined
  · cases h.symm.trans hcode
  · exact hretry
  · cases h.symm.trans hcode
  · cases h.symm.trans hcode

/-- A selection refused for the quotas of all keys names the seconds to the next midnight. -/
theorem select_quotaExceeded
    (hstore : ∀ id error, env.remainingSeconds id = .error error →
      error.code ≠ .allKeysQuotaExceeded) {w : World}
    {clientId : Option Nat} {provider : Provider} {error : FcamError}
    (hresult : (select env w clientId provider).result = .error error)
      (hcode : error.code = .allKeysQuotaExceeded) :
    error.retryAfter = some env.secondsUntilNextMidnight := by
  rw [select] at hresult
  dsimp only at hresult
  split at hresult
  · cases hresult
    cases hcode
  split at hresult
  · cases hresult
    cases hcode
  split at hresult
  · next raised examined hscan =>
    cases hresult
    obtain ⟨id, hraised⟩ := scan_raised (congrArg Prod.fst hscan)
    exact absurd hcode (hstore id error hraised)
  · cases hresult
    exact exhaustedError_quotaExceeded hcode
  · cases hresult

end

/-- A request repeated after the seconds of a quota refusal, of a client or of all its keys, is
evaluated on a later date exactly when the wall clock has gained the fraction of a second that was
cut off. -/
theorem quota_retry_reaches_midnight_iff (zone : Zone) (dated computed : Instant) :
    (∀ config (env : GovernanceEnv) id client m error, env.Reads zone dated computed →
      env.LeavesQuota →
        (enforceClientGovernance config env id client m).result = .error (.fcam error) →
        error.code = .clientQuotaExceeded →
        ∃ retryAfter, error.retryAfter = some retryAfter ∧
          (LaterDate zone dated computed retryAfter ↔ zone.MidnightKept dated computed)) ∧
      ∀ (env : PoolEnv) w clientId provider error, env.Reads zone dated computed →
        (∀ id error, env.remainingSeconds id = .error error → error.code ≠ .allKeysQuotaExceeded) →
        (select env w clientId provider).result = .error error →
          error.code = .allKeysQuotaExceeded →
        ∃ retryAfter, error.retryAfter = some retryAfter ∧
          (LaterDate zone dated computed retryAfter ↔ zone.MidnightKept dated computed) := by
  constructor
  · intro config env id client m error hreads hleaves hresult hcode
    obtain ⟨retryAfter, hnamed, hseconds⟩ := enforceClientGovernance_refused hleaves hresult hcode
    refine ⟨retryAfter, hnamed, laterDate_iff ?_⟩
    rw [hreads.2] at hseconds
    cases hmidnight : secondsUntilNextMidnight zone computed with
    | none =>
      rw [hmidnight] at hseconds
      cases hseconds
    | some seconds =>
      rw [hmidnight] at hseconds
      cases hseconds
      rfl
  · intro env w clientId provider error hreads hstore hresult hcode
    exact ⟨_, select_quotaExceeded hstore hresult hcode, laterDate_iff hreads.2⟩

/-- A client whose quota is used up. -/
def spentClient : Client := { dailyQuota := some 0, quotaResetAt := some 0 }

/-- The surroundings of a request at an instant of UTC. -/
def governedAt (now : Instant) : GovernanceEnv :=
  { allow := .ok (true, 0)
    today := .ok (todayInTimezone .utc now)
    reload := .ok spentClient
    secondsUntilNextMidnight :=
      (secondsUntilNextMidnight .utc now).elim (.error .overflowError) .ok }

/-- At noon to the second, -/
theorem noon_repeats_next_day :
    ∃ retryAfter, (enforceClientGovernance {} (governedAt 43200000000) 1 spentClient {}).result =
        .error (.fcam (clientQuotaExceeded retryAfter)) ∧
      LaterDate .utc 43200000000 43200000000 retryAfter := by
  have hreads : (governedAt 43200000000).Reads .utc 43200000000 43200000000 := ⟨rfl, by decide⟩
  have hleaves : (governedAt 43200000000).LeavesQuota := fun error _ => ⟨nofun, nofun, nofun⟩
  have hresult : (enforceClientGovernance {} (governedAt 43200000000) 1 spentClient {}).result =
      .error (.fcam (clientQuotaExceeded 43200)) := by decide
  obtain ⟨retryAfter, hnamed, hiff⟩ :=
    (quota_retry_reaches_midnight_iff .utc 43200000000 43200000000).1 {} _ 1 spentClient {} _ hreads
      hleaves hresult rfl
  cases hnamed
  exact ⟨43200, hresult, hiff.mpr (by decide)⟩

/-- and half a second later. -/
theorem half_past_noon_repeats_same_day :
    (enforceClientGovernance {} (governedAt 43200500000) 1 spentClient {}).result =
        .error (.fcam (clientQuotaExceeded 43199)) ∧
      ¬LaterDate .utc 43200500000 43200500000 43199 := by
  decide

end Fcam

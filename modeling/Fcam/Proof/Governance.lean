import Fcam.Model.DispatchRun
import Fcam.Model.Governance

/-!
# The lease of a client

Five of the seven ends of `enforce_client_governance` after a lease has been granted give it back. A
rate limiter that raises does not, nor does a failed reset of the quota that leaves the client's row
unreadable: the lease stays out, and the client has one slot less until the process ends.
-/

namespace Fcam

/-- A lease that was acquired has been released, and the manager counts what it counted before the
request. -/
def Governed.LeaseReturned (m : ConcurrencyManager) (governed : Governed) : Prop :=
  (∀ lease, governed.lease = some lease → lease.released = true) ∧
    ∀ id, governed.manager.current id = m.current id

/-- The client gets a lease. -/
def GovernanceEnv.Grants (env : GovernanceEnv) (id : Nat) (client : Client)
    (m : ConcurrencyManager) : Prop :=
  env.leases.isOk = true ∧ (client.maxConcurrent = 0 ∨ m.current id < client.maxConcurrent)

/-- The reset of the client's quota fails, and its row cannot be read again. -/
def GovernanceEnv.LosesClient (config : AppConfig) (client : Client) (env : GovernanceEnv) : Prop :=
  config.quota.enableQuotaCheck = true ∧ client.dailyQuota.isSome = true ∧ env.readable = false ∧
    (env.commit.isOk = false ∨ env.reload.isOk = false) ∧
      ∃ today, env.today = .ok today ∧ client.quotaResetAt ≠ some today

/-- The limiter raises, or it lets the request pass and the client is lost. -/
def GovernanceEnv.LosesLease (config : AppConfig) (client : Client) (env : GovernanceEnv) : Prop :=
  env.allow.isOk = false ∨ (∃ retryAfter, env.allow = .ok (true, retryAfter)) ∧
    env.LosesClient config client

section

variable {config : AppConfig} {env : GovernanceEnv} {id : Nat} {client : Client}
  {m m' : ConcurrencyManager} {lease : Lease}

theorem tryAcquire_isSome {maximum : Nat} :
    (m.tryAcquire id maximum).1.isSome = true ↔ maximum = 0 ∨ m.current id < maximum := by
  rw [ConcurrencyManager.tryAcquire]
  split
  · next hzero => simp [hzero]
  · next hpos =>
    have hcurrent : ((m.states id).getD {}).current = m.current id := by
      rw [ConcurrencyManager.current]
      cases m.states id <;> rfl
    simp only [hcurrent, hpos, false_or]
    split
    · next hfull => simp [hfull]
    · next hroom => simpa using hroom

theorem quotaClient_error {today : Day} :
    (∃ raised, quotaClient env today client = .error raised) ↔
      client.quotaResetAt ≠ some today ∧ (env.commit.isOk = false ∨ env.reload.isOk = false) := by
  rw [quotaClient]
  split
  · next hsame => simp [hsame]
  · next hother =>
    cases env.commit with
    | error raised => simp [Except.bind, Except.isOk, Except.toBool, hother]
    | ok _ => cases env.reload <;> simp [Except.bind, Except.isOk, Except.toBool, hother]

theorem testClientQuota_readable (client : Client) :
    testClientQuota env client ≠ .failed false := by
  rw [testClientQuota]
  split
  · exact nofun
  · split
    · split <;> exact nofun
    · exact nofun

theorem checkClientQuota_lost : checkClientQuota config env client = .failed false ↔
    env.LosesClient config client := by
  rw [GovernanceEnv.LosesClient, checkClientQuota]
  by_cases hchecked : (config.quota.enableQuotaCheck && client.dailyQuota.isSome) = true
  · rw [if_pos hchecked]
    rw [Bool.and_eq_true] at hchecked
    cases htoday : env.today with
    | error raised => simp
    | ok today =>
      have herror : (∃ raised, quotaClient env today client = .error raised) ↔ _ :=
        quotaClient_error
      simp only
      cases hclient : quotaClient env today client with
      | error raised =>
        obtain ⟨hother, hfailed⟩ := herror.mp ⟨raised, hclient⟩
        simp [hchecked, hother, hfailed]
      | ok loaded =>
        have hnone :
            ¬(client.quotaResetAt ≠ some today ∧
              (env.commit.isOk = false ∨ env.reload.isOk = false)) := by
          rw [← herror, hclient]
          rintro ⟨raised, heq⟩
          cases heq
        refine iff_of_false (testClientQuota_readable loaded) ?_
        rintro ⟨_, _, _, hfailed, day, hday, hother⟩
        cases hday
        exact hnone ⟨hother, hfailed⟩
  · rw [if_neg hchecked]
    refine iff_of_false (by simp) fun hlost => ?_
    rw [Bool.and_eq_true] at hchecked
    exact hchecked ⟨hlost.1, hlost.2.1⟩

theorem releaseAndEnd_returned {maximum : Nat}
    (hgranted : m.tryAcquire id maximum = (some lease, m')) (result : Except Raised Unit) :
    (releaseAndEnd m' lease result).LeaseReturned m := by
  obtain ⟨_, hcurrent, _⟩ := ConcurrencyManager.tryAcquire_granted hgranted
  refine ⟨fun other hother => ?_, fun other => ?_⟩
  · rw [← Option.some.inj hother]
    exact ConcurrencyManager.release_released
  · have hout : ∀ other, lease.weight other ≤ m'.current other := fun other => by
      rw [hcurrent other]
      exact Nat.le_add_left _ _
    have hreleased := ConcurrencyManager.release_current hout other
    rw [hcurrent other] at hreleased
    exact Nat.add_right_cancel hreleased

theorem lost_not_returned {maximum : Nat} (hgranted : m.tryAcquire id maximum = (some lease, m'))
    (result : Except Raised Unit) :
    ¬Governed.LeaseReturned m { result, lease := some lease, manager := m' } := by
  intro hreturned
  have hreleased := hreturned.1 lease rfl
  rw [(ConcurrencyManager.tryAcquire_granted hgranted).1] at hreleased
  cases hreleased

/-- The lease of a client is given back unless the limiter raises, or the client is lost in the
quota check. -/
theorem lease_returned_iff (config : AppConfig) (env : GovernanceEnv) (id : Nat) (client : Client)
    (m : ConcurrencyManager) :
    (enforceClientGovernance config env id client m).LeaseReturned m ↔
      (env.Grants id client m → ¬env.LosesLease config client) := by
  have hsome : (m.tryAcquire id client.maxConcurrent).1.isSome = true ↔ _ := tryAcquire_isSome
  rw [GovernanceEnv.Grants, ← hsome, enforceClientGovernance, GovernanceEnv.LosesLease]
  cases hleases : env.leases with
  | error raised =>
    have hreturned :
        Governed.LeaseReturned m { result := .error raised, lease := none, manager := m } :=
      ⟨fun _ hnone => (nomatch hnone), fun _ => rfl⟩
    exact iff_of_true hreturned fun hgrants =>
      absurd hgrants.1 (by simp [Except.isOk, Except.toBool])
  | ok answer =>
    cases hacquire : m.tryAcquire id client.maxConcurrent with
    | mk granted m' =>
    cases granted with
    | none =>
      refine iff_of_true ⟨fun _ hnone => (nomatch hnone), ?_⟩ fun hgrants =>
        absurd hgrants.2 (by simp)
      exact ConcurrencyManager.tryAcquire_refused hacquire
    | some lease =>
      have hback := releaseAndEnd_returned hacquire
      have hlost := lost_not_returned hacquire
      have hgrants : Except.isOk (.ok answer : Except Raised Unit) = true ∧
          (some lease).isSome = true := ⟨rfl, rfl⟩
      simp only [hgrants, true_and, forall_const]
      cases hallow : env.allow with
      | error raised => exact iff_of_false (hlost _) fun hkeeps => hkeeps (.inl rfl)
      | ok answer =>
        obtain ⟨allowed, retryAfter⟩ := answer
        cases allowed with
        | false =>
          refine iff_of_true (hback _) ?_
          rintro (hraises | ⟨⟨other, heq⟩, _⟩)
          · cases hraises
          · cases heq
        | true =>
          have hlosesIff :
              (Except.isOk (.ok (true, retryAfter) : Except Raised (Bool × Int)) = false ∨
               (∃ other, (.ok (true, retryAfter) : Except Raised (Bool × Int)) =
                .ok (true, other)) ∧ env.LosesClient config client) ↔
                  checkClientQuota config env client = .failed false := by
            rw [checkClientQuota_lost]
            simp [Except.isOk, Except.toBool]
          rw [hlosesIff]
          cases hcheck : checkClientQuota config env client with
          | passed => exact iff_of_true (hback _) (by simp)
          | exceeded seconds => exact iff_of_true (hback _) (by simp)
          | failed readable =>
            cases readable with
            | true => exact iff_of_true (hback _) (by simp)
            | false => exact iff_of_false (hlost _) (by simp)

/-! ### The quota check of a run -/

/-- What a request of a run goes on with once its quota check has ended. -/
def Dispatch.governed (fwd : Forwarder) (client : Client) (d : Dispatch) : QuotaCheck → Dispatch
  | .passed => d.begin fwd client
  | _ => d.moveTo (.finished none)

theorem testClient_governed (fwd : Forwarder) (d : Dispatch) (client : Client) :
    d.testClient fwd client = d.governed fwd client (testClientQuota env client) := by
  rw [Dispatch.testClient, testClientQuota]
  cases client.dailyQuota with
  | none => rfl
  | some dailyQuota =>
    simp only [Option.any_some, decide_eq_true_eq]
    by_cases hroom : client.dailyUsage < dailyQuota
    · rw [if_pos hroom, if_neg (Nat.not_le.mpr hroom)]
      rfl
    · rw [if_neg hroom, if_pos (Nat.not_lt.mp hroom)]
      cases env.secondsUntilNextMidnight <;> rfl

section

variable {fwd : Forwarder} {turn : Turn} {w : World} {d : Dispatch}

/-- A run makes the quota check of the code, as long as no statement fails: without a reset in one
step, -/
theorem governing_step (hphase : d.phase = .governing client)
    (htoday : env.today = .ok turn.pool.reading.today)
    (hunreset : fwd.config.quota.enableQuotaCheck = true → client.dailyQuota.isSome = true →
      client.quotaResetAt = some turn.pool.reading.today) :
    d.step fwd turn w =
    some (d.governed fwd client (checkClientQuota fwd.config env client), []) := by
  simp only [Dispatch.step, hphase, checkClientQuota, htoday]
  by_cases hchecked : (fwd.config.quota.enableQuotaCheck && client.dailyQuota.isSome) = true
  · obtain ⟨henabled, hquota⟩ := Bool.and_eq_true_iff.mp hchecked
    have hday := hunreset henabled hquota
    have hnoskip : ¬(!fwd.config.quota.enableQuotaCheck || client.dailyQuota.isNone) = true := by
      rw [← Option.not_isSome, ← Bool.not_and, hchecked]
      exact Bool.false_ne_true
    rw [if_neg hnoskip, if_pos hday, if_pos hchecked, quotaClient, if_pos hday, testClient_governed]
  · have hskip : (!fwd.config.quota.enableQuotaCheck || client.dailyQuota.isNone) = true := by
      rw [← Option.not_isSome, ← Bool.not_and, Bool.not_eq_true']
      exact Bool.not_eq_true _ ▸ hchecked
    rw [if_pos hskip, if_neg hchecked]
    rfl

/-- and after a reset in a second one, on the row as it is stored by then. -/
theorem checking_step {loaded : Client} (hphase : d.phase = .checking)
    (hchecked : (fwd.config.quota.enableQuotaCheck && client.dailyQuota.isSome) = true)
    (htoday : env.today = .ok turn.pool.reading.today)
    (hreset : client.quotaResetAt ≠ some turn.pool.reading.today) (hcommit : env.commit = .ok ())
    (hreload : env.reload = .ok loaded) (hstored : w.client? d.req.clientId = some loaded) :
    d.step fwd turn w =
      some (d.governed fwd loaded (checkClientQuota fwd.config env client), []) := by
  have hloaded : quotaClient env turn.pool.reading.today client = .ok loaded := by
    rw [quotaClient, if_neg hreset, hcommit]
    exact hreload
  simp only [Dispatch.step, hphase, hstored, checkClientQuota, if_pos hchecked, htoday, hloaded]
  rw [testClient_governed]

end

end

/-- The state backend answers for the leases, but no more for the limiter. -/
def backendLost : GovernanceEnv :=
  { allow := .error (.fcam (dbUnavailable "State backend unavailable"))
    today := .ok 0
    reload := .ok {}
    secondsUntilNextMidnight := .ok 0 }

theorem raising_limiter_keeps_lease :
    ¬∀ config env id client m,
      (enforceClientGovernance config env id client m).LeaseReturned m := by
  intro h
  have hcount := (h {} backendLost 1 {} {}).2 1
  exact absurd hcount (by decide)

end Fcam

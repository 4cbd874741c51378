import Fcam.Model.RefreshPass
import Fcam.Proof.Calendar
import Fcam.Proof.SnapshotPointer

/-!
# How a fetch ends, and when its key is refreshed next

A fetch raises without sending anything, or commits a failure or credits. What it commits changes
the row of its own key alone, and is refused where that row is gone.
-/

namespace Fcam

/-- How a fetch of a key ends: it raises without a commit, it commits a failure, which may change
the key's row, or it commits credits. -/
inductive FetchEnd where
  | raised
  | failed (changesRow : Bool)
  | succeeded (remaining plan : Int)

def fetchEnd (fwd : Forwarder) (key : ApiKey) (env : FetchEnv) : FetchEnd :=
  if undecryptable fwd key then .failed (disableKeyDecryptFailed key != key)
  else
    match env.outcome with
    | .timeout => .failed false
    | .response r =>
      if r.statusCode = 200 then
        match r.json.map creditAnswer with
        | some (.credits remaining plan) => .succeeded remaining plan
        | some .notAnObject => .raised
        | some .unreadable => .raised
        | _ => .failed false
      else if r.statusCode = 401 ∨ r.statusCode = 403 then .failed (fetchUnauthorized key != key)
      else if r.statusCode = 429 then .failed (fetchRateLimited env.now key != key)
      else .failed false
    | _ => .raised

/-! ### What a fetch sends -/

section

variable {fwd : Forwarder} {enforced : Bool} {w : World} {id : Nat} {key : ApiKey} {env : FetchEnv}

theorem fetch_raised (h : fetchEnd fwd key env = .raised) :
    (KeyEdit.fetch env).writes fwd w id key = [] := by
  rw [fetchEnd] at h
  rw [KeyEdit.writes]
  split at h
  · cases h
  · next hdecrypts =>
    rw [if_neg hdecrypts, fetchWrites]
    cases houtcome : env.outcome with
    | response r =>
      simp only [houtcome] at h ⊢
      split at h
      · next hok =>
        rw [if_pos hok]
        cases hanswer : r.json.map creditAnswer with
        | none =>
          rw [hanswer] at h
          cases h
        | some answer =>
          rw [hanswer] at h
          cases answer with
          | unsuccessful => cases h
          | notAnObject => rfl
          | unreadable => rfl
          | credits remaining plan => cases h
      · split at h
        · cases h
        · split at h <;> cases h
    | timeout =>
      rw [houtcome] at h
      cases h
    | httpError text => rfl
    | exception text => rfl
    | unsent text => rfl

/-- A failure is stored in a snapshot, and may change the key's row apart from its next refresh. -/
theorem fetch_failed {changesRow : Bool} (h : fetchEnd fwd key env = .failed changesRow) :
    ∃ current : ApiKey, current.nextRefreshAt = key.nextRefreshAt ∧ changesRow = (current != key) ∧
      ((KeyEdit.fetch env).writes fwd w id key =
          [.key id key current, .snapshot (failedSnapshot id env.writtenAt)] ∨
        changesRow = false ∧
          (KeyEdit.fetch env).writes fwd w id key =
            [.snapshot (failedSnapshot id env.writtenAt)]) := by
  rw [fetchEnd] at h
  rw [KeyEdit.writes]
  split at h
  · next hdecrypts =>
    rw [if_pos hdecrypts]
    exact ⟨disableKeyDecryptFailed key, rfl, (FetchEnd.failed.inj h).symm, .inl rfl⟩
  · next hdecrypts =>
    rw [if_neg hdecrypts, fetchWrites]
    have hunchanged :
        ∀ {b : Bool}, FetchEnd.failed false = .failed b → b = false ∧ b = (key != key) := by
      intro b hb
      obtain rfl := FetchEnd.failed.inj hb
      exact ⟨rfl, (bne_self_eq_false key).symm⟩
    cases houtcome : env.outcome with
    | response r =>
      simp only [houtcome] at h ⊢
      split at h
      · next hok =>
        rw [if_pos hok]
        cases hanswer : r.json.map creditAnswer with
        | none =>
          rw [hanswer] at h
          exact ⟨key, rfl, (hunchanged h).2, .inr ⟨(hunchanged h).1, rfl⟩⟩
        | some answer =>
          rw [hanswer] at h
          cases answer with
          | unsuccessful => exact ⟨key, rfl, (hunchanged h).2, .inr ⟨(hunchanged h).1, rfl⟩⟩
          | notAnObject => cases h
          | unreadable => cases h
          | credits remaining plan => cases h
      · next hok =>
        rw [if_neg hok]
        split at h
        · next hunauthorized =>
          rw [if_pos hunauthorized]
          exact ⟨fetchUnauthorized key, rfl, (FetchEnd.failed.inj h).symm, .inl rfl⟩
        · next hunauthorized =>
          rw [if_neg hunauthorized]
          split at h
          · next hlimited =>
            rw [if_pos hlimited]
            exact ⟨fetchRateLimited env.now key, rfl, (FetchEnd.failed.inj h).symm, .inl rfl⟩
          · next hlimited =>
            rw [if_neg hlimited]
            exact ⟨key, rfl, (hunchanged h).2, .inr ⟨(hunchanged h).1, rfl⟩⟩
    | timeout =>
      rw [houtcome] at h
      exact ⟨key, rfl, (hunchanged h).2, .inr ⟨(hunchanged h).1, rfl⟩⟩
    | httpError text =>
      rw [houtcome] at h
      cases h
    | exception text =>
      rw [houtcome] at h
      cases h
    | unsent text =>
      rw [houtcome] at h
      cases h

theorem fetchEnd_credits {remaining plan : Int} :
    fetchEnd fwd key env = .succeeded remaining plan ↔
      fetchedCredits fwd key env = some (remaining, plan) := by
  rw [fetchEnd, fetchedCredits]
  split
  · simp
  · cases env.outcome with
    | response r =>
      simp only
      split
      · cases r.json.map creditAnswer with
        | none => simp
        | some answer => cases answer <;> simp
      · split
        · simp
        · split <;> simp
    | timeout => simp
    | httpError text => simp
    | exception text => simp
    | unsent text => simp

end

/-! ### Times -/

/-- The key's next refresh is later than an instant. -/
def RefreshesAfter (now : Instant) (key : ApiKey) : Prop :=
  ∃ t, key.nextRefreshAt = some t ∧ now < t

/-- The time computed for a key with the given credits. -/
def timeFor (fwd : Forwarder) (computedAt : Instant) (remaining plan : Int) : Option Instant :=
  calculateNextRefreshTime fwd.config computedAt
    { cachedRemainingCredits := some remaining, cachedPlanCredits := some plan }

/-- The configured intervals are positive. -/
structure PositiveIntervals (config : CreditMonitoringConfig) : Prop where
  fixed : 0 < config.fixedRefresh.intervalMinutes
  high : 0 < config.smartRefresh.highUsageInterval
  medium : 0 < config.smartRefresh.mediumUsageInterval
  normal : 0 < config.smartRefresh.normalUsageInterval
  low : 0 < config.smartRefresh.lowUsageInterval

theorem not_refreshesAfter_of_due {now : Instant} {key : ApiKey}
    (hdue : refreshDue now key = true) :
    ¬RefreshesAfter now key := by
  rintro ⟨t, ht, hlater⟩
  rw [refreshDue, ht, Bool.and_eq_true, decide_eq_true_eq] at hdue
  exact absurd hdue.2 (not_le_of_gt hlater)

theorem lt_of_plusMinutes {t next minutes : Int} (hpos : 0 < minutes)
    (h : plusMinutes t minutes = some next) :
    t < next := by
  have hsum : next = t + minutes * 60 * 1000000 := plusSeconds_eq_some h
  omega

section

variable {fwd : Forwarder} {now : Instant}

theorem lt_timeFor (hpos : PositiveIntervals fwd.config.creditMonitoring) {computedAt next : Int}
    {remaining plan : Int} (h : timeFor fwd computedAt remaining plan = some next) :
    computedAt < next := by
  rw [timeFor, calculateNextRefreshTime] at h
  simp only at h
  split at h
  · exact lt_of_plusMinutes hpos.fixed h
  · split at h
    · exact lt_nextMonthStart h
    · apply lt_of_plusMinutes _ h
      split
      · exact hpos.fixed
      · split
        · exact hpos.high
        · split
          · exact hpos.medium
          · split
            · exact hpos.normal
            · exact hpos.low

theorem lt_retryTime {next : Instant} (h : retryTime fwd now = some next) : now < next := by
  have hpos : 0 < max fwd.config.creditMonitoring.retryDelayMinutes 1 := by omega
  exact lt_of_plusMinutes hpos h

/-- The computation looks at the credits of a row alone. -/
theorem calculateNextRefreshTime_eq {key : ApiKey} {remaining plan : Int} (computedAt : Instant)
    (hremaining : key.cachedRemainingCredits = some remaining)
    (hplan : key.cachedPlanCredits = some plan) :
    calculateNextRefreshTime fwd.config computedAt key = timeFor fwd computedAt remaining plan := by
  rw [timeFor, calculateNextRefreshTime, calculateNextRefreshTime, hremaining, hplan]

end

/-! ### The writes of one fetch -/

/-- What a fetch sends for a key, where it sends anything: it changes the row to `current`, if it is
still there. -/
structure OwnWrites (enforced : Bool) (id : Nat) (key : ApiKey) (changesRow : Bool)
    (current : ApiKey) (writes : List Write) : Prop where
  nonempty : writes.isEmpty = false
  others : ∀ other, other ≠ id → ∀ write ∈ writes, ∀ loaded current,
    write ≠ .key other loaded current
  refused :
    ∀ w, writes.any (Write.refused enforced w) = ((w.key? id).isNone && (enforced || changesRow))
  gone : ∀ w, w.key? id = none → (commit writes w).key? id = none
  stored : ∀ w, w.key? id = some key → (commit writes w).key? id = some current

section

variable {fwd : Forwarder} {enforced : Bool} {w : World} {id : Nat} {key current : ApiKey}
  {row : CreditSnapshot} {env : FetchEnv}

theorem ownWrites_row (hrow : row.apiKeyId = id) :
    OwnWrites enforced id key (current != key) current [.key id key current, .snapshot row] := by
  have hkey :
      ∀ w, (commit [.key id key current, .snapshot row] w).key? id =
        (w.key? id).map (ApiKey.save key current) := by
    intro w
    show (w.modifyKey id _).key? id = _
    rw [World.key?_modifyKey, if_pos rfl]
  refine ⟨rfl, fun other hother => ?_, fun w => ?_, fun w hgone => ?_, fun w hstored => ?_⟩
  · intro write hwrite loaded row heq
    subst heq
    simp only [List.mem_cons, Write.key.injEq, reduceCtorEq, List.not_mem_nil, or_false] at hwrite
    exact hother hwrite.1
  · cases hkey : (w.key? id).isNone with
    | true => simp [Write.refused, hrow, hkey, Bool.or_comm]
    | false => simp [Write.refused, hrow, hkey]
  · rw [hkey, hgone, Option.map_none]
  · rw [hkey, hstored, Option.map_some, ApiKey.save_fresh]

theorem ownWrites_snapshot (hrow : row.apiKeyId = id) :
    OwnWrites enforced id key false key [.snapshot row] := by
  refine ⟨rfl, fun other _ => by simp, fun w => ?_, fun w hgone => hgone, fun w hstored => hstored⟩
  simp [Write.refused, hrow, Bool.and_comm]

theorem ownWrites_failed {changesRow : Bool} (h : fetchEnd fwd key env = .failed changesRow) :
    ∃ current : ApiKey, current.nextRefreshAt = key.nextRefreshAt ∧
      OwnWrites enforced id key changesRow current ((KeyEdit.fetch env).writes fwd w id key) := by
  obtain ⟨current, hnext, hchanges, hwrites | ⟨hunchanged, hwrites⟩⟩ :=
    @fetch_failed fwd w id key env changesRow h
  · rw [hwrites, hchanges]
    exact ⟨current, hnext, ownWrites_row rfl⟩
  · rw [hwrites, hunchanged]
    exact ⟨key, rfl, ownWrites_snapshot rfl⟩

/-- A success changes the row, which was not last checked when the fetch began. -/
theorem ownWrites_succeeded {remaining plan : Int}
    (h : fetchEnd fwd key env = .succeeded remaining plan)
    (hchecked : key.lastCreditCheckAt ≠ some env.now) :
    OwnWrites enforced id key true
      (fetchSucceeded fwd.config env.now env.writtenAt w.db.creditSnapshots.nextId remaining plan
        key)
      ((KeyEdit.fetch env).writes fwd w id key) := by
  have hchanged :
      fetchSucceeded fwd.config env.now env.writtenAt w.db.creditSnapshots.nextId remaining plan
        key ≠ key := by
    intro hsame
    apply hchecked
    rw [← hsame]
    rfl
  rw [fetch_writes (fetchEnd_credits.mp h), ← bne_iff_ne.mpr hchanged]
  exact ownWrites_row rfl

end

end Fcam

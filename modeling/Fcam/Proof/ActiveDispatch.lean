import Fcam.Proof.RowInvariant

/-!
# A selected key is recorded as active

`select` clears a back-off that is over and, on a new day, a used-up quota; every other status it
leaves as it found it. Whether it can commit a key that is not active is thus decided by the writers
of the row: an enabled key must not be recorded as undecryptable, nor as used up when it is not.
Only the patches of an administrator can leave such a row.
-/

namespace Fcam

/-- The status of an enabled key is not one that its other columns contradict. -/
def UpToDate (key : ApiKey) : Prop :=
  isDisabled key = false →
    key.status ≠ .decryptFailed ∧ (key.status = .quotaExceeded → key.dailyQuota ≤ key.dailyUsage)

/-! ### The selection -/

/-- What an eligible key is committed as: active, unless it was recorded as undecryptable, or as
used up today. -/
theorem Examines.status_iff {env : PoolEnv} {id : Nat} {key row : ApiKey}
    (h : Examines env id key .eligible row) :
    row.status = .active ↔
      key.status ≠ .decryptFailed ∧
        ¬(key.status = .quotaExceeded ∧ key.quotaResetAt = some env.reading.today) := by
  cases h with
  | eligible _ henabled htested hquota =>
    rw [isDisabled, Bool.or_eq_false_iff, beq_eq_false_iff_ne] at henabled
    have hdisabled := henabled.2
    have hreset : (lazyReset env.reading.today key).status =
        if key.quotaResetAt ≠ some env.reading.today ∧ key.status = .quotaExceeded then .active
        else key.status := by
      rw [lazyReset]
      by_cases htoday : key.quotaResetAt = some env.reading.today
      · simp [htoday]
      · by_cases hexceeded : key.status = .quotaExceeded <;> simp [htoday, hexceeded]
    rcases htested with ⟨hbacks, rfl⟩ | ⟨hbacks, rfl, _⟩
    · rw [backsOff, Bool.or_eq_false_iff, beq_eq_false_iff_ne, beq_eq_false_iff_ne,
        hreset] at hbacks
      rw [hreset]
      by_cases htoday : key.quotaResetAt = some env.reading.today <;> cases hstatus : key.status <;>
        simp_all
    · rw [backsOff, Bool.or_eq_true, beq_iff_eq, beq_iff_eq, hreset] at hbacks
      refine iff_of_true rfl ?_
      by_cases htoday : key.quotaResetAt = some env.reading.today <;> cases hstatus : key.status <;>
        simp_all

theorem UpToDate.status_of_eligible {env : PoolEnv} {id : Nat} {key row : ApiKey} (h : UpToDate key)
    (hexamines : Examines env id key .eligible row) : row.status = .active := by
  rw [hexamines.status_iff]
  cases hexamines with
  | eligible _ henabled htested hquota =>
    obtain ⟨hdecrypt, hused⟩ := h henabled
    refine ⟨hdecrypt, ?_⟩
    rintro ⟨hexceeded, htoday⟩
    have hsame : lazyReset env.reading.today key = key := if_pos htoday
    have hover := hused hexceeded
    -- The quota test compared the counter of today.
    rcases htested with ⟨_, rfl⟩ | ⟨hbacks, _⟩
    · rw [hsame] at hquota
      omega
    · rw [hsame, backsOff, hexceeded] at hbacks
      cases hbacks

/-! ### The writers -/

theorem upToDate_rows : RowInvariant UpToDate where
  transfer {key row} h hactive hstatus hused henabled := by
    have hkey : isDisabled key = false := by
      rw [isDisabled, ← hactive, ← hstatus]
      exact henabled
    obtain ⟨hdecrypt, hexceeded⟩ := h hkey
    refine ⟨hstatus ▸ hdecrypt, fun hrow => ?_⟩
    rw [hstatus] at hrow
    exact hused (isActive_of_enabled hkey) hrow (hexceeded hrow)
  working {key} _ hstatus _ := by
    rw [backsOff, Bool.or_eq_true, beq_iff_eq, beq_iff_eq] at hstatus
    refine ⟨?_, ?_⟩
    · rcases hstatus with h | h | h <;> simp [h]
    · rcases hstatus with h | h | h <;> simp [h]
  exceeded _ hstatus hused _ := ⟨by simp [hstatus], fun _ => hused⟩
  off hactive _ henabled := by
    rw [isActive_of_enabled henabled] at hactive
    cases hactive

theorem upToDate_of_inactive {key : ApiKey} (hactive : key.isActive = false) : UpToDate key := by
  intro henabled
  rw [isActive_of_enabled henabled] at hactive
  cases hactive

theorem upToDate_fetchRow {config : AppConfig} {env : FetchEnv} {snapshotId : Nat} {key : ApiKey}
    (h : UpToDate key) :
    UpToDate (fetchRow config env snapshotId key) := by
  simp only [fetchRow]
  split
  · split
    · split
      · exact upToDate_rows.same h rfl rfl rfl rfl
      · exact h
    split
    · exact upToDate_of_inactive rfl
    split
    · exact fun _ => ⟨by simp [fetchRateLimited], by simp [fetchRateLimited]⟩
    · exact h
  · exact h

theorem patchQuota_status (dailyQuota : Option Nat) (key : ApiKey) :
    (patchQuota dailyQuota key).status =
      if dailyQuota.any (· ≤ key.dailyUsage) = true then .quotaExceeded else key.status := by
  cases dailyQuota with
  | none => rfl
  | some limit =>
    simp only [patchQuota, Option.any_some, decide_eq_true_eq]
    split <;> rfl

/-- A patch leaves a key enabled that is recorded as undecryptable, or as used up with a quota above
its usage. -/
def patchStales (dailyQuota : Option Nat) (isActive : Option Bool) (key : ApiKey) : Bool :=
  isActive.getD key.isActive &&
    match key.status with
    | .decryptFailed => !dailyQuota.any (· ≤ key.dailyUsage)
    | .quotaExceeded => key.dailyUsage < dailyQuota.getD key.dailyQuota
    | _ => false

/-- The status a patch leaves. -/
theorem patchRow_status (planType : Option String) (dailyQuota maxConcurrent rateLimitPerMin :
    Option Nat) (isActive : Option Bool) (key : ApiKey) :
    (patchRow planType dailyQuota maxConcurrent rateLimitPerMin isActive key).status =
      match isActive with
      | none => if dailyQuota.any (· ≤ key.dailyUsage) = true then .quotaExceeded else key.status
      | some false => .disabled
      | some true =>
        if dailyQuota.any (· ≤ key.dailyUsage) = true then .quotaExceeded
        else if key.status = .disabled then .active else key.status := by
  have hquota := patchQuota_status dailyQuota { key with planType := planType.getD key.planType }
  simp only [patchRow]
  cases isActive with
  | none => exact hquota
  | some enable =>
    cases enable with
    | false => rfl
    | true =>
      simp only [patchActive, hquota, Bool.not_true, Bool.false_eq_true, if_false]
      by_cases hused : dailyQuota.any (· ≤ key.dailyUsage) = true
      · simp [hused]
      · by_cases hdisabled : key.status = .disabled <;> simp [hused, hdisabled]

/-- A patch leaves a row up to date exactly when it is not such a patch. -/
theorem upToDate_patchRow_iff {planType : Option String}
    {dailyQuota maxConcurrent rateLimitPerMin : Option Nat} {isActive : Option Bool}
    {key : ApiKey} :
    UpToDate (patchRow planType dailyQuota maxConcurrent rateLimitPerMin isActive key) ↔
      patchStales dailyQuota isActive key = false := by
  have hframe := patchRow_frame planType dailyQuota maxConcurrent rateLimitPerMin isActive key
  have hactive := congrArg ApiKey.isActive hframe
  have hquota := congrArg ApiKey.dailyQuota hframe
  have husage := congrArg ApiKey.dailyUsage hframe
  simp only at hactive hquota husage
  rw [UpToDate, isDisabled, patchRow_status, hactive, hquota, husage, patchStales]
  have hany : dailyQuota.any (· ≤ key.dailyUsage) = true →
      dailyQuota.getD key.dailyQuota ≤ key.dailyUsage := by
    cases dailyQuota with
    | none => simp
    | some limit => simp
  cases isActive with
  | none =>
    cases hflag : key.isActive with
    | false => simp
    | true =>
      by_cases hused : dailyQuota.any (· ≤ key.dailyUsage) = true
      · have hover := hany hused
        cases hkey : key.status <;> simp [hused, hover]
      · cases hkey : key.status <;> simp [hused]
  | some enable =>
    cases enable with
    | false => simp
    | true =>
      by_cases hused : dailyQuota.any (· ≤ key.dailyUsage) = true
      · have hover := hany hused
        cases hkey : key.status <;> simp [hused, hover]
      · cases hkey : key.status <;> simp [hused]

theorem upToDate_updateRow {clientId : Option Nat} {req : UpdateKeyRequest} {key : ApiKey}
    (hkeeps : patchStales req.dailyQuota req.isActive key = false) :
    UpToDate (updateRow clientId req key) := by
  rw [updateRow, upToDate_patchRow_iff]
  exact hkeeps

/-- The changes of a batch leave such a row. -/
def batchStales (req : BatchKeysRequest) (key : ApiKey) : Bool :=
  !req.softDelete &&
    match req.patch with
    | none => false
    | some patch => patchStales patch.dailyQuota patch.isActive (batchReset req key)

theorem upToDate_batchReset (req : BatchKeysRequest) {key : ApiKey} (h : UpToDate key) :
    UpToDate (batchReset req key) := by
  rw [batchReset]
  split
  · exact upToDate_rows.resetCooldownRow h
  · exact h

theorem upToDate_batchRow {req : BatchKeysRequest} {key : ApiKey} (h : UpToDate key)
    (hkeeps : batchStales req key = false) : UpToDate (batchRow req key) := by
  rw [batchStales, Bool.and_eq_false_iff, Bool.not_eq_false'] at hkeeps
  simp only [batchRow]
  split
  · exact upToDate_of_inactive rfl
  next hkept =>
  have hkeeps := hkeeps.resolve_left hkept
  cases hpatch : req.patch with
  | none => exact upToDate_batchReset req h
  | some patch =>
    rw [hpatch] at hkeeps
    exact upToDate_patchRow_iff.mpr hkeeps

/-- A patch does no harm to a row that it has made already and that is up to date. -/
theorem patchStales_of_patched {dailyQuota : Option Nat} {isActive : Option Bool} {key : ApiKey}
    (h : UpToDate key) (hactive : isActive.getD key.isActive = key.isActive)
    (hquota : dailyQuota.getD key.dailyQuota = key.dailyQuota) :
    patchStales dailyQuota isActive key = false := by
  rw [patchStales, hactive, hquota]
  cases hflag : key.isActive with
  | false => rfl
  | true =>
    by_cases hdisabled : key.status = .disabled
    · rw [hdisabled, Bool.true_and]
    · have henabled : isDisabled key = false := by simp [isDisabled, hflag, hdisabled]
      obtain ⟨hdecrypt, hexceeded⟩ := h henabled
      cases hstatus : key.status with
      | decryptFailed => exact absurd hstatus hdecrypt
      | quotaExceeded => simpa using hexceeded hstatus
      | _ => rfl

theorem batchStales_batchRow {req : BatchKeysRequest} {key : ApiKey} (h : UpToDate key)
    (hkeeps : batchStales req key = false) : batchStales req (batchRow req key) = false := by
  have hrow := upToDate_batchReset req (upToDate_batchRow h hkeeps)
  cases hsoft : req.softDelete with
  | true => rw [batchStales, hsoft, Bool.not_true, Bool.false_and]
  | false =>
  cases hpatch : req.patch with
  | none => rw [batchStales, hpatch, Bool.and_false]
  | some patch =>
  obtain ⟨hactive, _, hquota⟩ := batchRow_patched hsoft hpatch key
  simp only [batchStales, hsoft, hpatch, Bool.not_false, Bool.true_and]
  refine patchStales_of_patched hrow ?_ ?_
  · rw [batchReset_isActive, hactive]
    cases patch.isActive <;> rfl
  · rw [(batchReset_quota req (batchRow req key)).2, hquota]
    cases patch.dailyQuota <;> rfl

theorem upToDate_writers :
    Writers UpToDate (fun _ _ => True)
      (fun req key => patchStales req.dailyQuota req.isActive key = false)
      fun req key => batchStales req key = false where
  toRowInvariant := upToDate_rows
  fetched h _ := upToDate_fetchRow h
  updated _ hkeeps := upToDate_updateRow hkeeps
  rotated hkeeps := hkeeps
  batched h hkeeps := ⟨upToDate_batchRow h hkeeps, batchStales_batchRow h hkeeps⟩

/-! ### Runs -/

/-- The accepted patches of an administrator leave no enabled key recorded as undecryptable, nor as
used up with a quota above its usage. Every other operation may be anything. -/
def KeyOperation.KeepsUpToDate (fwd : Forwarder) (w : World) : KeyOperation → Prop
  | .updateKey _ id req =>
    ∀ key, w.key? id = some key → updateAccepted fwd.security fwd.masterKey id req w = true →
      patchStales req.dailyQuota req.isActive key = false
  | .batchKeys _ _ req =>
    batchAccepted req w = true → ∀ id ∈ req.ids, ∀ key, w.key? id = some key →
      batchStales req key = false
  | _ => True

theorem KeyOperation.KeepsUpToDate.allowed {fwd : Forwarder} {w : World} {op : KeyOperation}
    (h : op.KeepsUpToDate fwd w) :
    op.RowsAllowed (fun _ _ => True)
      (fun req key => patchStales req.dailyQuota req.isActive key = false)
      (fun req key => batchStales req key = false) fwd w := by
  cases op with
  | useKey use =>
    cases use with
    | forward turns req => trivial
    | testKey env requestId id mode testUrl => trivial
    | refreshKeyCredits now env requestId id => exact fun _ _ _ _ _ _ _ => trivial
    | refreshAllCredits keyIds force now env requestId => exact fun _ _ _ _ _ _ _ => trivial
    | refreshOnce now env requestId cleanupAt => exact fun _ _ _ _ _ => trivial
  | updateKey nonce id req => exact h
  | batchKeys env requestId req => exact h
  | _ => trivial

/-- Whatever `select` returns is committed as active. -/
def DispatchesActive (w : World) : Prop :=
  ∀ env clientId provider id row, (select env w clientId provider).result = .ok (id, row) →
    ∃ committed, (select env w clientId provider).world.key? id = some committed ∧
      committed.status = .active

theorem dispatchesActive_of_upToDate {w : World} (h : RowsHold UpToDate w) :
    DispatchesActive w := by
  intro env clientId provider id row hresult
  obtain ⟨hcommitted, key, hkey, _, hexamines⟩ := select_ok hresult
  exact ⟨row, hcommitted, (h id key hkey).status_of_eligible hexamines⟩

/-- In every run of such operations, every key that can be selected in the state reached is
committed as active. -/
theorem run_dispatchesActive {fwd : Forwarder} {w last : World} {trace : List KeyOperation}
    (h : ∀ id key, w.key? id = some key → UpToDate key)
    (hkeeps : Meets (KeyOperation.next fwd) (fun w op => op.KeepsUpToDate fwd w) w trace)
    (hexec : exec (KeyOperation.next fwd) w trace = some last) : DispatchesActive last := by
  have hallowed := hkeeps.mono fun _ _ hop => KeyOperation.KeepsUpToDate.allowed hop
  exact dispatchesActive_of_upToDate (run_rows upToDate_writers h hallowed hexec)

/-- A key is created, and its quota is lowered and set anew. -/
def createAndSetQuota (lowered dailyQuota : Nat) : List KeyOperation :=
  [.createKey 0 [] { apiKey := "fc-key" }, .updateKey [] 1 { dailyQuota := some lowered },
    .updateKey [] 1 { dailyQuota := some dailyQuota }]

theorem run_dispatchesActive_lowered :
    ∃ last, exec (KeyOperation.next defaultForwarder) {} (createAndSetQuota 1 5) = some last ∧
      DispatchesActive last := by
  have hkeeps :
      Meets (KeyOperation.next defaultForwarder) (fun w op => op.KeepsUpToDate defaultForwarder w)
        {} (createAndSetQuota 1 5) := by
    refine meets_cons rfl trivial ?_
    refine meets_cons rfl ?_ ?_
    · intro key hkey _
      cases hkey
      rfl
    refine meets_cons rfl ?_ trivial
    intro key hkey _
    cases hkey
    rfl
  exact ⟨_, rfl, run_dispatchesActive rowsHold_empty hkeeps rfl⟩

/-- A quota that is lowered to nothing marks the key as used up, and raising it does not take that
back. -/
theorem raised_quota_dispatched_exceeded :
    ¬∀ (fwd : Forwarder) (last : World) (trace : List KeyOperation),
      exec (KeyOperation.next fwd) {} trace = some last → DispatchesActive last := by
  intro h
  have hactive := h defaultForwarder _ (createAndSetQuota 0 5) rfl
  obtain ⟨committed, hcommitted, hstatus⟩ :=
    hactive (Turn.unhindered 0 0 .timeout).pool none .firecrawl 1 _ rfl
  cases hcommitted
  cases hstatus

end Fcam

import Fcam.Proof.RowInvariant

/-!
# Status and enabling agree

A row is coherent when it is disabled by its flag exactly if it is disabled by its status. Most
writers keep coherence from any coherent row, since they write both columns or look at the flag
first. The credit fetch and the patches of an administrator write one of the two columns without the
other; for them the lemmas say which rows and answers break coherence.
-/

namespace Fcam

def Coherent (key : ApiKey) : Prop :=
  key.isActive = false ↔ key.status = .disabled ∨ key.status = .decryptFailed

instance (key : ApiKey) : Decidable (Coherent key) := inferInstanceAs (Decidable (_ ↔ _))

/-! ### One row -/

theorem coherent_of_enabled {key : ApiKey} (hactive : key.isActive = true)
    (hstatus : key.status ≠ .disabled) (hdecrypt : key.status ≠ .decryptFailed) : Coherent key := by
  rw [Coherent, hactive]
  simp [hstatus, hdecrypt]

theorem Coherent.status_ne {key : ApiKey} (h : Coherent key) (hactive : key.isActive = true) :
    key.status ≠ .disabled ∧ key.status ≠ .decryptFailed := by
  rw [Coherent, hactive] at h
  simpa using h

theorem Coherent.of_same {key row : ApiKey} (h : Coherent key)
    (hactive : row.isActive = key.isActive) (hstatus : row.status = key.status) : Coherent row := by
  rw [Coherent, hactive, hstatus]
  exact h

theorem coherent_rows : RowInvariant Coherent where
  transfer h hactive hstatus _ := h.of_same hactive hstatus
  working {key} hactive hstatus := by
    rw [backsOff, Bool.or_eq_true, beq_iff_eq, beq_iff_eq] at hstatus
    refine coherent_of_enabled hactive ?_ ?_
    · rcases hstatus with h | h | h <;> simp [h]
    · rcases hstatus with h | h | h <;> simp [h]
  exceeded hactive hstatus _ := coherent_of_enabled hactive (by simp [hstatus]) (by simp [hstatus])
  off hactive hstatus := iff_of_true hactive hstatus

/-- The credit endpoint answers that the key is not authorised, or that an already disabled key is
asked for too often. -/
def fetchBreaks (outcome : Outcome) (key : ApiKey) : Bool :=
  match outcome with
  | .response r =>
    r.statusCode == 401 || r.statusCode == 403 || (r.statusCode == 429 && !key.isActive)
  | _ => false

theorem coherent_fetchRow_iff {config : AppConfig} {env : FetchEnv} {snapshotId : Nat}
    {key : ApiKey} (h : Coherent key) : Coherent (fetchRow config env snapshotId key) ↔
      fetchBreaks env.outcome key = false := by
  simp only [fetchRow]
  split
  · next r houtcome =>
    simp only [fetchBreaks, houtcome]
    split
    · next h200 =>
      have hkeeps :
          (r.statusCode == 401 || r.statusCode == 403 || r.statusCode == 429 && !key.isActive) =
            false := by
        simp [h200]
      rw [hkeeps]
      split
      · next remaining plan _ =>
        have hrow :
            Coherent (fetchSucceeded config env.now env.writtenAt snapshotId remaining plan key) :=
          h.of_same rfl rfl
        simpa using hrow
      · simpa using h
    split
    · next hauth =>
      have hbreaks : (r.statusCode == 401 || r.statusCode == 403) = true := by simpa using hauth
      simp [hbreaks, Coherent, fetchUnauthorized]
    next hauth =>
    have hkeeps : (r.statusCode == 401 || r.statusCode == 403) = false := by simpa using hauth
    rw [hkeeps, Bool.false_or]
    split
    · next h429 => simp [h429, Coherent, fetchRateLimited]
    · next h429 =>
      have hother : (r.statusCode == 429) = false := by simpa using h429
      rw [hother]
      simpa using h
  · next hother =>
    have hkeeps : fetchBreaks env.outcome key = false := by
      cases houtcome : env.outcome with
      | response r => exact absurd houtcome (hother r)
      | timeout => rfl
      | httpError text => rfl
      | exception text => rfl
      | unsent text => rfl
    simp [hkeeps, h]

/-- A patch enables a key whose secret could not be decrypted, or sets a quota that a disabled key
has used up, without saying anything about the flag. -/
def patchBreaks (dailyQuota : Option Nat) (isActive : Option Bool) (key : ApiKey) : Bool :=
  let exhausted := dailyQuota.any (· ≤ key.dailyUsage)
  match isActive with
  | none => exhausted && !key.isActive
  | some true => !exhausted && key.status == .decryptFailed
  | some false => false

theorem coherent_patchRow_iff {planType : Option String}
    {dailyQuota maxConcurrent rateLimitPerMin : Option Nat} {isActive : Option Bool} {key : ApiKey}
    (h : Coherent key) :
    Coherent (patchRow planType dailyQuota maxConcurrent rateLimitPerMin isActive key) ↔
      patchBreaks dailyQuota isActive key = false := by
  have hpatch : ∀ quota,
      (patchQuota dailyQuota quota).isActive = quota.isActive ∧
      (patchQuota dailyQuota quota).status =
        if dailyQuota.any (· ≤ quota.dailyUsage) = true then .quotaExceeded else quota.status := by
    intro quota
    cases dailyQuota with
    | none => exact ⟨rfl, rfl⟩
    | some limit =>
      simp only [patchQuota, Option.any_some, decide_eq_true_eq]
      split <;> exact ⟨rfl, rfl⟩
  obtain ⟨hpatchActive, hpatchStatus⟩ := hpatch { key with planType := planType.getD key.planType }
  simp only [patchRow, patchBreaks]
  cases isActive with
  | none =>
    simp only [patchActive, Coherent, hpatchActive, hpatchStatus] at h ⊢
    cases hexhausted : dailyQuota.any (· ≤ key.dailyUsage) with
    | false => simpa using h
    | true => simp
  | some enable =>
    cases enable with
    | false => simp [patchActive, Coherent]
    | true =>
      simp only [patchActive, Coherent, hpatchStatus]
      cases hexhausted : dailyQuota.any (· ≤ key.dailyUsage) with
      | true => simp
      | false =>
        simp only [Bool.not_true, Bool.false_eq_true, if_false, Bool.not_false, Bool.true_and]
        by_cases hdisabled : key.status = .disabled
        · simp [hdisabled]
        · simp [hdisabled]

/-! ### The writers with a condition -/

/-- A fetch that reaches the upstream for a key is answered so that the row stays coherent. -/
def FetchKeeps (security : Security) (masterKey : Bytes) (env : FetchEnv) (key : ApiKey) : Prop :=
  security.decryptApiKey masterKey key.apiKeyCiphertext ≠ none → fetchBreaks env.outcome key = false

theorem coherent_updateRow (clientId : Option Nat) {req : UpdateKeyRequest} {key : ApiKey}
    (h : Coherent key) (hkeeps : patchBreaks req.dailyQuota req.isActive key = false) :
    Coherent (updateRow clientId req key) := by
  have hnamed : Coherent
      { key with
        clientId := if req.clientId.isSome then clientId else key.clientId
        name := req.name.or key.name } :=
    h.of_same rfl rfl
  exact (coherent_patchRow_iff hnamed).mpr hkeeps

theorem patchBreaks_of_enabled {dailyQuota : Option Nat} {isActive : Option Bool} {key : ApiKey}
    (h : Coherent key) (hactive : key.isActive = true) :
    patchBreaks dailyQuota isActive key = false := by
  have hdecrypt := (h.status_ne hactive).2
  cases isActive with
  | none => simp [patchBreaks, hactive]
  | some enable => cases enable <;> simp [patchBreaks, hdecrypt]

theorem coherent_batchReset (req : BatchKeysRequest) {key : ApiKey} (h : Coherent key) :
    Coherent (batchReset req key) := by
  rw [batchReset]
  split
  · exact coherent_rows.resetCooldownRow h
  · exact h

/-- The changes of a batch break the coherence of a row. -/
def batchBreaks (req : BatchKeysRequest) (key : ApiKey) : Bool :=
  !req.softDelete &&
    match req.patch with
    | none => false
    | some patch => patchBreaks patch.dailyQuota patch.isActive (batchReset req key)

theorem coherent_batchRow {req : BatchKeysRequest} {key : ApiKey} (h : Coherent key)
    (hkeeps : batchBreaks req key = false) : Coherent (batchRow req key) := by
  have hreset := coherent_batchReset req h
  rw [batchBreaks, Bool.and_eq_false_iff, Bool.not_eq_false'] at hkeeps
  simp only [batchRow]
  split
  · exact coherent_rows.disabledRow _
  next hkept =>
  have hkeeps := hkeeps.resolve_left hkept
  cases hpatch : req.patch with
  | none => exact hreset
  | some patch =>
    rw [hpatch] at hkeeps
    have hnamed :
        Coherent { batchReset req key with name := patch.name.getD (batchReset req key).name } :=
      hreset.of_same rfl rfl
    exact (coherent_patchRow_iff hnamed).mpr hkeeps

theorem batchBreaks_batchRow {req : BatchKeysRequest} {key : ApiKey} (h : Coherent key)
    (hkeeps : batchBreaks req key = false) : batchBreaks req (batchRow req key) = false := by
  have hrow := coherent_batchReset req (coherent_batchRow h hkeeps)
  cases hsoft : req.softDelete with
  | true => rw [batchBreaks, hsoft, Bool.not_true, Bool.false_and]
  | false =>
  cases hpatch : req.patch with
  | none => rw [batchBreaks, hpatch, Bool.and_false]
  | some patch =>
  obtain ⟨hactive, husage, _⟩ := batchRow_patched hsoft hpatch key
  simp only [batchBreaks, hsoft, hpatch, Bool.not_false, Bool.true_and] at hkeeps ⊢
  cases hrowActive : (batchReset req (batchRow req key)).isActive with
  | true => exact patchBreaks_of_enabled hrow hrowActive
  | false =>
    -- The row is disabled: by the patch, or because it was before and the patch says nothing.
    rw [batchReset_isActive, hactive] at hrowActive
    cases henable : patch.isActive with
    | none =>
      rw [henable] at hkeeps hactive
      simp only [patchBreaks, batchReset_quota, batchReset_isActive, hactive, husage] at hkeeps ⊢
      exact hkeeps
    | some enable =>
      rw [henable, Option.getD_some] at hrowActive
      rw [hrowActive]
      rfl

theorem coherent_writers :
    Writers Coherent (fun env key => fetchBreaks env.outcome key = false)
      (fun req key => patchBreaks req.dailyQuota req.isActive key = false) fun req key =>
        batchBreaks req key = false where
  toRowInvariant := coherent_rows
  fetched h hkeeps := (coherent_fetchRow_iff h).mpr hkeeps
  updated h hkeeps := coherent_updateRow _ h hkeeps
  rotated hkeeps := hkeeps
  batched h hkeeps := ⟨coherent_batchRow h hkeeps, batchBreaks_batchRow h hkeeps⟩

/-! ### Runs -/

def CoherentKeys (w : World) : Prop := ∀ id key, w.key? id = some key → Coherent key

/-- The inputs that keep a coherent table coherent. The credit endpoint does not answer 401 or 403
for a key that it is asked about, nor 429 for a disabled one; an accepted update or batch neither
enables a key whose secret could not be decrypted nor lets a disabled key run into its quota. Every
other operation may be anything. -/
def KeyOperation.KeepsCoherence (fwd : Forwarder) (w : World) : KeyOperation → Prop
  | .useKey (.refreshKeyCredits now env _ id) =>
    ∀ masterKey, fwd.masterKey = some masterKey → ∀ key, w.key? id = some key →
      key.provider = .firecrawl →
      refreshedTooRecently fwd.config now key = false → FetchKeeps fwd.security masterKey env key
  | .useKey (.refreshAllCredits keyIds force now env _) =>
    ∀ masterKey, fwd.masterKey = some masterKey → ∀ row ∈ w.db.keys.select refreshAllScope,
      ((keyIds.filter (0 < ·)).isEmpty || (keyIds.filter (0 < ·)).contains row.1) = true →
        (!force && refreshedTooRecently fwd.config now row.2) = false →
          FetchKeeps fwd.security masterKey (env row.1) row.2
  | .useKey (.refreshOnce now env _ _) =>
    ∀ masterKey, fwd.masterKey = some masterKey → ∀ row ∈ w.db.keys.select (refreshDue now),
      FetchKeeps fwd.security masterKey (env row.1) row.2
  | .updateKey _ id req =>
    ∀ key, w.key? id = some key → updateAccepted fwd.security fwd.masterKey id req w = true →
      patchBreaks req.dailyQuota req.isActive key = false
  | .batchKeys _ _ req =>
    batchAccepted req w = true → ∀ id ∈ req.ids, ∀ key, w.key? id = some key →
      batchBreaks req key = false
  | _ => True

theorem KeyOperation.KeepsCoherence.allowed {fwd : Forwarder} {w : World} {op : KeyOperation}
    (h : op.KeepsCoherence fwd w) :
    op.RowsAllowed (fun env key => fetchBreaks env.outcome key = false)
      (fun req key => patchBreaks req.dailyQuota req.isActive key = false)
      (fun req key => batchBreaks req key = false) fwd w := by
  cases op with
  | useKey use => cases use <;> exact h
  | _ => exact h

/-- No row is counted in two classes of the statistics. -/
def DisjointClasses (w : World) : Prop :=
  ∀ id key, w.key? id = some key → ∀ c c', StatsClass.counts key c = true →
    StatsClass.counts key c' = true → c = c'

theorem disjointClasses_of_coherent {w : World} (h : CoherentKeys w) : DisjointClasses w := by
  intro id key hkey c c' hc hc'
  have hcoherent := h id key hkey
  rw [Coherent] at hcoherent
  cases hstatus : key.status <;> cases hactive :
    key.isActive <;> simp [hstatus, hactive] at hcoherent <;>
    cases c <;> simp [StatsClass.counts, hstatus, hactive] at hc <;>
    cases c' <;> simp [StatsClass.counts, hstatus, hactive] at hc' <;> rfl

/-- In every run of such operations from a coherent table, every state reached is coherent, and its
classes of keys are pairwise disjoint. -/
theorem run_coherent {fwd : Forwarder} {w last : World} {trace : List KeyOperation}
    (h : CoherentKeys w)
    (hkeeps : Meets (KeyOperation.next fwd) (fun w op => op.KeepsCoherence fwd w) w trace)
    (hexec : exec (KeyOperation.next fwd) w trace = some last) :
    CoherentKeys last ∧ DisjointClasses last := by
  have hallowed := hkeeps.mono fun _ _ hop => KeyOperation.KeepsCoherence.allowed hop
  have hlast : CoherentKeys last := run_rows coherent_writers h hallowed hexec
  exact ⟨hlast, disjointClasses_of_coherent hlast⟩

/-! ### A key is created and its credits are refreshed -/

theorem coherentKeys_empty : CoherentKeys {} := rowsHold_empty

/-- A key is created, and the credit endpoint answers with the given status. -/
def createAndRefresh (statusCode : Nat) : List KeyOperation :=
  [.createKey 0 [] { apiKey := "fc-key" },
    .useKey (.refreshKeyCredits 0 { outcome := .response { statusCode }, now := 0, writtenAt := 0 }
      "" 1)]

theorem run_coherent_refreshed :
    ∃ last, exec (KeyOperation.next defaultForwarder) {} (createAndRefresh 500) = some last ∧
      CoherentKeys last ∧
      DisjointClasses last := by
  have hkeeps :
      Meets (KeyOperation.next defaultForwarder) (fun w op => op.KeepsCoherence defaultForwarder w)
        {} (createAndRefresh 500) :=
    ⟨trivial, fun _ _ => ⟨fun _ _ _ _ _ _ _ => rfl, fun _ _ => trivial⟩⟩
  exact ⟨_, rfl, run_coherent coherentKeys_empty hkeeps rfl⟩

/-- A 401 leaves the new key failed and inactive, and it is counted as failed and as disabled. -/
theorem refreshed_key_incoherent :
    ¬∀ (fwd : Forwarder) (w last : World) (trace : List KeyOperation), CoherentKeys w →
      exec (KeyOperation.next fwd) w trace = some last →
        CoherentKeys last ∧ DisjointClasses last := by
  intro h
  obtain ⟨hcoherent, _⟩ := h defaultForwarder {} _ (createAndRefresh 401) coherentKeys_empty rfl
  exact absurd (hcoherent 1 _ rfl) (by decide)

end Fcam

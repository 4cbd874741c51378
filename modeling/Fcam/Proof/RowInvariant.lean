import Fcam.Model.KeyOperation
import Fcam.Proof.Dispatch

/-!
# What every operation keeps of a row

A property of a key row that the status, the flag and the quota decide is looked at once for each
writer. Four facts about the property are enough for all writers whose change does not depend on
what an upstream or an administrator says; a credit fetch, an update and a batch keep it under a
condition of their own. `perform_rows` puts the writers together: an operation whose fetches and
patches meet their conditions keeps the property on every row of the table.
-/

namespace Fcam

/-- The property depends on the flag, the status and whether a quota said to be used up is, and it
holds of the rows the writers make on purpose. -/
structure RowInvariant (holds : ApiKey → Prop) : Prop where
  transfer : ∀ {key row : ApiKey}, holds key → row.isActive = key.isActive →
    row.status = key.status →
      (key.isActive = true → key.status = .quotaExceeded → key.dailyQuota ≤ key.dailyUsage →
       row.dailyQuota ≤ row.dailyUsage) → holds row
  working : ∀ {key : ApiKey}, key.isActive = true →
    key.status = .active ∨ backsOff key = true → holds key
  exceeded : ∀ {key : ApiKey}, key.isActive = true → key.status = .quotaExceeded →
    key.dailyQuota ≤ key.dailyUsage → holds key
  off : ∀ {key : ApiKey}, key.isActive = false → key.status = .disabled ∨
    key.status = .decryptFailed → holds key

theorem isActive_of_enabled {key : ApiKey} (henabled : isDisabled key = false) :
    key.isActive = true := by
  rw [isDisabled, Bool.or_eq_false_iff] at henabled
  simpa using henabled.1

theorem lazyReset_isActive (today : Day) (key : ApiKey) :
    (lazyReset today key).isActive = key.isActive := by
  rw [lazyReset]
  split <;> rfl

namespace RowInvariant

variable {holds : ApiKey → Prop} (h : RowInvariant holds)

include h

/-! ### One row -/

theorem same {key row : ApiKey} (hkey : holds key) (hactive : row.isActive = key.isActive)
    (hstatus : row.status = key.status) (husage : row.dailyUsage = key.dailyUsage)
    (hquota : row.dailyQuota = key.dailyQuota) : holds row := by
  refine h.transfer hkey hactive hstatus fun _ _ hused => ?_
  rw [hquota, husage]
  exact hused

theorem disabledRow (key : ApiKey) : holds (disableKey key) := h.off rfl (.inl rfl)

theorem undecryptable (key : ApiKey) : holds (disableKeyDecryptFailed key) := h.off rfl (.inr rfl)

theorem created (isActive : Bool) (key : ApiKey) (hactive : key.isActive = isActive)
    (hstatus : key.status = initialStatus isActive) : holds key := by
  cases isActive with
  | false => exact h.off hactive (.inl hstatus)
  | true => exact h.working hactive (.inl hstatus)

theorem lazyReset {today : Day} {key : ApiKey} (hkey : holds key)
    (henabled : isDisabled key = false) :
    holds (lazyReset today key) := by
  have hactive := isActive_of_enabled henabled
  rw [Fcam.lazyReset]
  split
  · exact hkey
  · by_cases hstatus : key.status = .quotaExceeded
    · exact h.working hactive (.inl (if_pos hstatus))
    · exact h.transfer hkey rfl (if_neg hstatus) fun _ hexceeded => absurd hexceeded hstatus

theorem reachesQuotaTest {env : PoolEnv} {id : Nat} {key tested : ApiKey}
    (htested : ReachesQuotaTest env id key tested) (hkey : holds key)
    (henabled : isDisabled key = false) : holds tested ∧ tested.isActive = true := by
  have hreset : holds (Fcam.lazyReset env.reading.today key) := h.lazyReset hkey henabled
  have hactive : (Fcam.lazyReset env.reading.today key).isActive = true := by
    rw [lazyReset_isActive]
    exact isActive_of_enabled henabled
  rcases htested with ⟨_, rfl⟩ | ⟨_, rfl, _⟩
  · exact ⟨hreset, hactive⟩
  · exact ⟨h.working hactive (.inl rfl), hactive⟩

theorem examined {env : PoolEnv} {id : Nat} {key : ApiKey} {verdict : Verdict} {row : ApiKey}
    (hexamines : Examines env id key verdict row) (hkey : holds key) : holds row := by
  cases hexamines with
  | disabled _ => exact hkey
  | cooling _ henabled _ _ _ => exact h.lazyReset hkey henabled
  | quotaExceeded tested henabled htested hquota =>
    exact h.exceeded (h.reachesQuotaTest htested hkey henabled).2 rfl hquota
  | eligible tested henabled htested _ => exact (h.reachesQuotaTest htested hkey henabled).1

theorem markActive {key : ApiKey} (hkey : holds key) : holds (markActive key) := by
  rw [Fcam.markActive]
  split
  · exact hkey
  · next henabled =>
    have hactive := isActive_of_enabled (Bool.not_eq_true _ ▸ henabled)
    exact h.working hactive (.inl rfl)

theorem markCooling {now : Instant} {seconds : Int} {key : ApiKey} (hkey : holds key) :
    holds (markCooling now seconds key) := by
  rw [Fcam.markCooling]
  split
  · exact hkey
  next henabled =>
  have hactive := isActive_of_enabled (Bool.not_eq_true _ ▸ henabled)
  split
  · exact hkey
  · exact h.working hactive (.inr rfl)

theorem failureRow {config : AppConfig} {now : Instant} {reached : Bool} {key : ApiKey}
    (hkey : holds key) :
    holds (failureRow config now reached key) := by
  rw [Fcam.failureRow]
  split
  · exact hkey
  next henabled =>
  rw [Bool.or_eq_true, not_or, Bool.not_eq_true] at henabled
  have hactive := isActive_of_enabled henabled.1
  rw [markFailed]
  split
  · exact hkey
  · exact h.working hactive (.inr rfl)

theorem accountRow {config : AppConfig} {method path : String} {r : UpstreamResponse}
    {now : Instant} {key : ApiKey} (hkey : holds key) (hactive : key.isActive = true) :
    holds (accountRow config method path r now key) := by
  have hdeducted :
      ∀ cost, holds (deductCredits cost key) ∧ (deductCredits cost key).isActive = true := by
    intro cost
    simp only [deductCredits]
    split
    · exact ⟨h.same hkey rfl rfl rfl rfl, hactive⟩
    · exact ⟨hkey, hactive⟩
  obtain ⟨hdeductedHolds, hdeductedActive⟩ := hdeducted (localCost config method path r)
  simp only [Fcam.accountRow]
  split
  · simp only [consumeKey]
    split
    · next hused => exact h.exceeded hdeductedActive rfl hused
    · exact h.transfer hdeductedHolds rfl rfl fun _ _ hused => Nat.le_succ_of_le hused
  · exact hdeductedHolds

theorem settleRow {config : AppConfig} {method path : String} {outcome : Outcome} {now : Instant}
    {reached : Bool} {key : ApiKey} (hkey : holds key) (hactive : key.isActive = true) :
    holds (settleRow config method path outcome now reached key) := by
  cases outcome with
  | timeout => exact h.failureRow hkey
  | httpError text => exact h.failureRow hkey
  | exception text => exact hkey
  | unsent text => exact hkey
  | response r =>
    simp only [Fcam.settleRow]
    split
    · exact h.markCooling hkey
    split
    · exact h.disabledRow key
    split
    · exact h.failureRow hkey
    split
    · exact h.accountRow hkey hactive
    · exact hkey

theorem testRow {config : AppConfig} {outcome : Outcome} {now : Instant} {reached : Bool}
    {key : ApiKey} (hkey : holds key) : holds (testRow config outcome now reached key) := by
  cases outcome with
  | timeout => exact h.failureRow hkey
  | httpError text => exact h.failureRow hkey
  | exception text => exact hkey
  | unsent text => exact hkey
  | response r =>
    simp only [Fcam.testRow]
    split
    · exact h.markActive hkey
    split
    · exact h.markCooling hkey
    split
    · exact h.disabledRow key
    split
    · exact h.failureRow hkey
    · exact hkey

theorem resetQuotaRow {today : Day} {key : ApiKey} (hkey : holds key) :
    holds (resetQuotaRow today key) := by
  by_cases hreset : key.status = .quotaExceeded ∧ key.isActive = true
  · exact h.working hreset.2 (.inl (if_pos hreset))
  · exact h.transfer hkey rfl (if_neg hreset) fun hactive hstatus =>
      absurd ⟨hstatus, hactive⟩ hreset

theorem resetCooldownRow {key : ApiKey} (hkey : holds key) : holds (resetCooldownRow key) := by
  by_cases hreset : (backsOff key && key.isActive) = true
  · have hactive : key.isActive = true := (Bool.and_eq_true _ _ ▸ hreset).2
    exact h.working hactive (.inl (if_pos hreset))
  · exact h.same hkey rfl (if_neg hreset) rfl rfl

end RowInvariant

/-! ### What a patch writes -/

theorem patchQuota_frame (dailyQuota : Option Nat) (key : ApiKey) :
    patchQuota dailyQuota key =
      { key with
        dailyQuota := dailyQuota.getD key.dailyQuota
        status := (patchQuota dailyQuota key).status } := by
  cases dailyQuota with
  | none => rfl
  | some limit =>
    simp only [patchQuota]
    split <;> rfl

theorem patchActive_frame (isActive : Option Bool) (key : ApiKey) :
    patchActive isActive key =
      { key with
        isActive := isActive.getD key.isActive
        status := (patchActive isActive key).status } := by
  cases isActive with
  | none => rfl
  | some enable =>
    simp only [patchActive]
    split
    · rfl
    split <;> rfl

/-- A patch writes the patched columns and the status. -/
theorem patchRow_frame (planType : Option String) (dailyQuota maxConcurrent rateLimitPerMin :
    Option Nat) (isActive : Option Bool) (key : ApiKey) :
    patchRow planType dailyQuota maxConcurrent rateLimitPerMin isActive key =
      { key with
        planType := planType.getD key.planType
        dailyQuota := dailyQuota.getD key.dailyQuota
        maxConcurrent := maxConcurrent.getD key.maxConcurrent
        rateLimitPerMin := rateLimitPerMin.getD key.rateLimitPerMin
        isActive := isActive.getD key.isActive
        status := (patchRow planType dailyQuota maxConcurrent rateLimitPerMin isActive
          key).status } := by
  simp only [patchRow]
  rw [patchActive_frame, patchQuota_frame]

theorem updateRow_apiKeyHash (clientId : Option Nat) (req : UpdateKeyRequest) (key : ApiKey) :
    (updateRow clientId req key).apiKeyHash = key.apiKeyHash := by
  rw [updateRow, patchRow_frame]

/-- The row of a key once the cooldown part of a batch is done. -/
def batchReset (req : BatchKeysRequest) (key : ApiKey) : ApiKey :=
  if req.resetCooldown then resetCooldownRow key else key

theorem batchReset_isActive (req : BatchKeysRequest) (key : ApiKey) :
    (batchReset req key).isActive = key.isActive := by
  rw [batchReset]
  split <;> rfl

theorem batchReset_quota (req : BatchKeysRequest) (key : ApiKey) :
    (batchReset req key).dailyUsage = key.dailyUsage ∧ (batchReset req key).dailyQuota =
      key.dailyQuota := by
  rw [batchReset]
  split <;> exact ⟨rfl, rfl⟩

theorem batchRow_patched {req : BatchKeysRequest} {patch : BatchKeyPatch}
    (hsoft : req.softDelete = false) (hpatch : req.patch = some patch) (key : ApiKey) :
    (batchRow req key).isActive = patch.isActive.getD key.isActive ∧
      (batchRow req key).dailyUsage = key.dailyUsage ∧
      (batchRow req key).dailyQuota = patch.dailyQuota.getD key.dailyQuota := by
  obtain ⟨husage, hquota⟩ := batchReset_quota req key
  simp only [batchRow, hsoft, hpatch, Bool.false_eq_true, if_false]
  rw [patchRow_frame]
  refine ⟨?_, husage, ?_⟩
  · exact congrArg patch.isActive.getD (batchReset_isActive req key)
  · exact congrArg patch.dailyQuota.getD hquota

/-! ### The key table -/

/-- Every row has the property. -/
def RowsHold (holds : ApiKey → Prop) (w : World) : Prop :=
  ∀ id key, w.key? id = some key → holds key

section

variable {holds : ApiKey → Prop}

theorem RowsHold.updated {w w' : World} {id : Nat} {f : ApiKey → ApiKey} (h : RowsHold holds w)
    (hupdated : RowUpdated w w' id f)
    (hrow : ∀ key, w.key? id = some key → holds key → holds (f key)) :
    RowsHold holds w' := by
  intro other row hget
  obtain ⟨key, hkey, rfl⟩ := hupdated.before hget
  split
  · next heq =>
    subst heq
    exact hrow key hkey (h other key hkey)
  · exact h other key hkey

theorem RowsHold.inserted {w : World} {key : ApiKey} (h : RowsHold holds w) (hkey : holds key) :
    RowsHold holds (w.withKeys (w.db.keys.insert key)) := by
  intro id row hget
  rw [World.key?_withKeys, Table.get?_insert] at hget
  split at hget
  · rw [← Option.some.inj hget]
    exact hkey
  · exact h id row hget

theorem rowsHold_empty : RowsHold holds {} := by
  intro id key hkey
  rw [World.key?, Table.get?_empty] at hkey
  cases hkey

end

/-- An outcome that is tried again leaves the flag of the key alone. -/
theorem settleRow_isActive_of_5xx {config : AppConfig} {method path : String} {outcome : Outcome}
    {now : Instant} {reached : Bool} {key : ApiKey}
    (hretried : ∀ r, outcome = .response r → 500 ≤ r.statusCode) :
    (settleRow config method path outcome now reached key).isActive = key.isActive := by
  have hfailure : (failureRow config now reached key).isActive = key.isActive := by
    rw [failureRow]
    split
    · rfl
    rw [markFailed]
    split <;> rfl
  cases outcome with
  | timeout => exact hfailure
  | httpError text => exact hfailure
  | exception text => rfl
  | unsent text => rfl
  | response r =>
    have hserver := hretried r rfl
    simp only [settleRow]
    rw [if_neg (by omega), if_neg (by omega), if_pos hserver]
    exact hfailure

/-- The key about to be called is enabled. -/
def Enabled (w : World) (id : Nat) : Prop := ∃ key, w.key? id = some key ∧ key.isActive = true

/-- The columns of a fetch and of a patch are written under these conditions on the row, which a
batch may meet again for the same id. -/
structure Writers (holds : ApiKey → Prop) (fetchOk : FetchEnv → ApiKey → Prop)
    (updateOk : UpdateKeyRequest → ApiKey → Prop) (batchOk : BatchKeysRequest → ApiKey → Prop) :
    Prop
    extends RowInvariant holds where
  fetched : ∀ {config : AppConfig} {env : FetchEnv} {snapshotId : Nat} {key : ApiKey}, holds key →
    fetchOk env key → holds (fetchRow config env snapshotId key)
  updated : ∀ {clientId : Option Nat} {req : UpdateKeyRequest} {key : ApiKey}, holds key →
    updateOk req key → holds (updateRow clientId req key)
  rotated : ∀ {security : Security} {masterKey nonce : Bytes} {apiKey : String}
    {req : UpdateKeyRequest} {key : ApiKey}, updateOk req key →
    updateOk req (rotateKey security masterKey nonce apiKey key)
  batched : ∀ {req : BatchKeysRequest} {key : ApiKey}, holds key → batchOk req key →
    holds (batchRow req key) ∧ batchOk req (batchRow req key)

/-- A fetch that reaches the upstream for a key is allowed. -/
def FetchAllowed (fetchOk : FetchEnv → ApiKey → Prop) (security : Security) (masterKey : Bytes)
    (env : FetchEnv) (key : ApiKey) : Prop :=
  security.decryptApiKey masterKey key.apiKeyCiphertext ≠ none → fetchOk env key

/-- `update_key` does not refuse the request for a key that exists. -/
def updateAccepted (security : Security) (masterKey : Option Bytes) (id : Nat)
    (req : UpdateKeyRequest) (w : World) :
    Bool :=
  (requestedClient w req.clientId).isOk &&
    match req.apiKey, masterKey with
    | none, _ => true
    | some _, none => false
    | some apiKey, some masterKey =>
      !w.db.keys.rows.any fun other =>
        other.1 != id && other.2.apiKeyHash == security.hmacSha256Hex masterKey apiKey

/-- `batch_keys` does not refuse the request as a whole. -/
def batchAccepted (req : BatchKeysRequest) (w : World) : Bool :=
  match req.test with
  | none => true
  | some (mode, _) => mode == "scrape" && !(1 < req.ids.length && mixedProviders req.ids w)

section

variable {holds : ApiKey → Prop} {fetchOk : FetchEnv → ApiKey → Prop}
  {updateOk : UpdateKeyRequest → ApiKey → Prop} {batchOk : BatchKeysRequest → ApiKey → Prop}
  {w : World}

/-! ### Selections and forwards -/

theorem select_rows (h : RowInvariant holds) {env : PoolEnv} {clientId : Option Nat}
    {provider : Provider} (hrows : RowsHold holds w) :
    RowsHold holds (select env w clientId provider).world := by
  intro id row hget
  obtain ⟨key, hkey, hrow⟩ := select_key? hget
  rcases hrow with rfl | ⟨verdict, hexamines⟩
  · exact hrows id row hkey
  · exact h.examined hexamines (hrows id key hkey)

theorem Examines.isActive_of_eligible {env : PoolEnv} {id : Nat} {key row : ApiKey}
    (hexamines : Examines env id key .eligible row) : row.isActive = true := by
  cases hexamines with
  | eligible _ henabled htested _ =>
    have hactive : key.isActive = true := isActive_of_enabled henabled
    have hsame := congrArg ApiKey.isActive htested.frame
    exact hsame.trans hactive

section Forward

variable {fwd : Forwarder} {req : ForwardRequest}

theorem settled_rows (h : RowInvariant holds) {turns : Nat → Turn} {i id : Nat}
    (hrows : RowsHold holds w) (hready : Enabled w id) :
    RowsHold holds (settled fwd req turns i id w) := by
  obtain ⟨key, hkey, hactive⟩ := hready
  refine hrows.updated (settle_row _ _ _ _ _ _ _ _) fun row hrow hholds => ?_
  rw [hkey, Option.some.injEq] at hrow
  exact h.settleRow hholds (hrow ▸ hactive)

theorem callRule_rows (h : RowInvariant holds) (baseUrl : String) (turns : Nat → Turn)
    (bound : Nat) :
    CallRule fwd baseUrl req turns bound (fun w _ => RowsHold holds w)
      (fun w _ => RowsHold holds w) Enabled where
  ended_of_waiting hrows := hrows
  quiet _ hrows _ := hrows
  undecryptable {w _} id hrows :=
    hrows.updated (rowUpdated_modifyKey w id _) fun key _ _ => h.undecryptable key
  call _ _ _ hrows hready := settled_rows h hrows hready
  callAgain _ _ _ hrows hready _ := settled_rows h hrows hready
  stillReady id _ _ hready honPin := by
    obtain ⟨key, hkey, hactive⟩ := hready
    refine ⟨_, (settle_row _ _ _ _ _ _ _ _).self hkey, ?_⟩
    rw [settleRow_isActive_of_5xx, hactive]
    intro r houtcome
    rw [houtcome] at honPin
    exact of_decide_eq_true honPin

theorem forward_rows (h : RowInvariant holds) (turns : Nat → Turn) (hrows : RowsHold holds w) :
    RowsHold holds (forward fwd turns req w).world := by
  refine forward_rule (fun w _ => RowsHold holds w) (fun w _ => RowsHold holds w) hrows hrows ?_ ?_
  · intro baseUrl _ id key _ haccepted
    obtain ⟨hkey, _, henabled, _⟩ := pinnedKey?_eq_some haccepted
    exact ⟨Enabled, callRule_rows h baseUrl turns _, key, hkey, isActive_of_enabled henabled⟩
  · intro baseUrl _ _
    refine ⟨Enabled, callRule_rows h baseUrl turns _, ?_⟩
    constructor
    · intro w events i hwaiting
      exact select_rows h hwaiting
    · intro w events i id row hwaiting selection hresult
      obtain ⟨hrow, key, _, _, hexamines⟩ := select_ok hresult
      exact ⟨row, hrow, hexamines.isActive_of_eligible⟩

end Forward

/-! ### Key tests -/

theorem testKeyWith_rows (h : RowInvariant holds) {fwd : Forwarder} {env : TestEnv}
    {requestId : String} {id : Nat} {provider : Provider} {candidates : List String} {body : Json}
    {masterKey : Bytes} {key : ApiKey} (hrows : RowsHold holds w) :
    RowsHold holds
      (testKeyWith fwd env requestId id w provider candidates body masterKey key).world := by
  rw [testKeyWith]
  simp only
  split
  · exact hrows.updated (rowUpdated_modifyKey w id _) fun key _ _ => h.undecryptable key
  split
  · exact hrows
  · exact hrows.updated (settleTest_row _ _ _ _ _) fun key _ hkey => h.testRow hkey

theorem testKey_rows (h : RowInvariant holds) {fwd : Forwarder} {env : TestEnv} {requestId : String}
    {id : Nat} {mode : String} {testUrl : PyStr} {key : ApiKey} (hrows : RowsHold holds w) :
    RowsHold holds (testKey fwd env requestId id w mode testUrl key).world := by
  rw [testKey]
  simp only
  split
  · exact hrows
  split
  · exact hrows
  split
  · exact testKeyWith_rows h hrows
  · exact testKeyWith_rows h hrows

/-! ### Credit operations -/

section Credits

variable {config : AppConfig} {security : Security} {masterKey : Bytes}

theorem fetch_rows (h : Writers holds fetchOk updateOk batchOk) {env : FetchEnv}
    {requestId : String} {id : Nat} {key : ApiKey} (hrows : RowsHold holds w)
    (hkey : w.key? id = some key) (hallowed : FetchAllowed fetchOk security masterKey env key) :
    RowsHold holds (fetchCreditFromFirecrawl config security masterKey env requestId id key
      w).world := by
  refine hrows.updated (fetch_row _ _ _ _ _ _ _ _) fun row hrow hholds => ?_
  rw [hkey, Option.some.injEq] at hrow
  split
  · exact h.undecryptable row
  · next hsecret => exact h.fetched hholds (hrow ▸ hallowed hsecret)

theorem refreshKeyCredits_rows (h : Writers holds fetchOk updateOk batchOk) {now : Instant}
    {env : FetchEnv} {requestId : String} {id : Nat} (hrows : RowsHold holds w)
    (hallowed : ∀ key, w.key? id = some key → key.provider = .firecrawl →
      refreshedTooRecently config now key = false →
      FetchAllowed fetchOk security masterKey env key) :
    RowsHold holds (refreshKeyCredits config security masterKey now env requestId id w).world := by
  rw [refreshKeyCredits]
  simp only
  split
  · exact hrows
  next key hkey =>
  split
  · exact hrows
  next hprovider =>
  split
  · exact hrows
  · next hdue =>
    rw [Bool.not_eq_true] at hdue
    exact fetch_rows h hrows hkey (hallowed key hkey hprovider hdue)

theorem refreshAllKeys_rows (h : Writers holds fetchOk updateOk batchOk) {force : Bool}
    {now : Instant} {env : Nat → FetchEnv} {requestId : Nat → String} {keys : List (Nat × ApiKey)}
    (hrows : RowsHold holds w) (hnodup : (keys.map Prod.fst).Nodup)
    (hkeys : ∀ row ∈ keys, w.key? row.1 = some row.2 ∧
      ((!force && refreshedTooRecently config now row.2) = false →
        FetchAllowed fetchOk security masterKey (env row.1) row.2)) :
    RowsHold holds (refreshAllKeys config security masterKey force now env requestId keys w).1 := by
  induction keys generalizing w with
  | nil => exact hrows
  | cons row rest ih =>
    obtain ⟨id, key⟩ := row
    rw [List.map_cons, List.nodup_cons] at hnodup
    obtain ⟨hkey, hallowed⟩ := hkeys (id, key) List.mem_cons_self
    rw [refreshAllKeys]
    split
    · exact ih hrows hnodup.2 fun row hrow => hkeys row (List.mem_cons_of_mem _ hrow)
    next hdue =>
    rw [Bool.not_eq_true] at hdue
    refine ih (fetch_rows h hrows hkey (hallowed hdue)) hnodup.2 fun row hrow => ?_
    obtain ⟨hget, hrest⟩ := hkeys row (List.mem_cons_of_mem _ hrow)
    have hid : row.1 ∈ rest.map Prod.fst := List.mem_map_of_mem hrow
    have hne : row.1 ≠ id := fun heq => hnodup.1 (heq ▸ hid)
    exact ⟨(fetch_row config security masterKey (env id) (requestId id) id key w).of_ne hne ▸ hget,
      hrest⟩

theorem refreshKeys_rows (h : Writers holds fetchOk updateOk batchOk) {now : Instant}
    {env : Nat → FetchEnv} {requestId : Nat → String} {keys : List (Nat × ApiKey)}
    (hrows : RowsHold holds w) (hnodup : (keys.map Prod.fst).Nodup)
    (hkeys : ∀ row ∈ keys, w.key? row.1 = some row.2 ∧
      FetchAllowed fetchOk security masterKey (env row.1) row.2) :
    RowsHold holds (refreshKeys config security masterKey now env requestId keys w).1 := by
  induction keys generalizing w with
  | nil => exact hrows
  | cons row rest ih =>
    obtain ⟨id, key⟩ := row
    rw [List.map_cons, List.nodup_cons] at hnodup
    obtain ⟨hkey, hallowed⟩ := hkeys (id, key) List.mem_cons_self
    have hfetched :
        RowsHold holds (fetchCreditFromFirecrawl config security masterKey (env id) (requestId id)
          id key w).world :=
      fetch_rows h hrows hkey hallowed
    rw [refreshKeys]
    simp only
    split
    · exact hfetched
    next nextRefreshAt _ =>
    refine ih (hfetched.updated (rowUpdated_modifyKey _ id _) fun key _ hholds =>
      h.same hholds rfl rfl rfl rfl) hnodup.2 fun row hrow => ?_
    obtain ⟨hget, hrest⟩ := hkeys row (List.mem_cons_of_mem _ hrow)
    have hid : row.1 ∈ rest.map Prod.fst := List.mem_map_of_mem hrow
    have hne : row.1 ≠ id := fun heq => hnodup.1 (heq ▸ hid)
    refine ⟨?_, hrest⟩
    rw [World.key?_modifyKey, if_neg hne,
      (fetch_row config security masterKey (env id) (requestId id) id key w).of_ne hne]
    exact hget

theorem cleanupOldSnapshots_key? (now : Instant) (w : World) (id : Nat) :
    (cleanupOldSnapshots config now w).key? id = w.key? id := by
  rw [cleanupOldSnapshots]
  split
  · rfl
  split <;> rfl

end Credits

/-! ### Administration -/

theorem createKey_rows (h : RowInvariant holds) {security : Security} {masterKey : Option Bytes}
    {today : Day} {nonce : Bytes} {req : CreateKeyRequest} (hrows : RowsHold holds w) :
    RowsHold holds (createKey security masterKey today nonce req w).2 := by
  simp only [createKey]
  split
  · exact hrows
  · exact hrows
  split
  · exact hrows
  · exact hrows.inserted (h.created req.isActive _ rfl rfl)

theorem importItems_rows (h : RowInvariant holds) {security : Security} {today : Day}
    {masterKey : Bytes} {clientId : Option Nat} {req : ImportRequest} {nonces : Nat → Bytes × Bytes}
    {items : List ParsedKeyLine} {result : ImportResult} (hrows : RowsHold holds w) :
    RowsHold holds (importItems security today masterKey clientId req nonces items result w).2 := by
  induction items generalizing result w with
  | nil => exact hrows
  | cons item rest ih =>
    rw [importItems]
    refine ih ?_
    simp only
    split
    · exact hrows.inserted (h.created req.isActive _ rfl rfl)
    next id existing _ =>
    split
    · exact hrows
    split
    · exact hrows
    · exact hrows.updated (rowUpdated_modifyKey w id _) fun key _ hkey =>
        h.same hkey rfl rfl rfl rfl

theorem importKeys_rows (h : RowInvariant holds) {security : Security} {masterKey : Option Bytes}
    {today : Day} {nonces : Nat → Bytes × Bytes} {items : List ParsedKeyLine}
    {failures : List (Nat × String × String)} {req : ImportRequest} (hrows : RowsHold holds w) :
    RowsHold holds (importKeys security masterKey today nonces items failures req w).2 := by
  simp only [importKeys]
  split
  · exact hrows
  · exact hrows
  split
  · exact hrows
  · exact importItems_rows h hrows

theorem updateKey_rows (h : Writers holds fetchOk updateOk batchOk) {security : Security}
    {masterKey : Option Bytes} {nonce : Bytes} {id : Nat} {req : UpdateKeyRequest}
    (hrows : RowsHold holds w)
    (hallowed : ∀ key, w.key? id = some key → updateAccepted security masterKey id req w = true →
      updateOk req key) :
    RowsHold holds (updateKey security masterKey nonce id req w).2 := by
  cases hkey : w.key? id with
  | none =>
    simp only [updateKey, hkey]
    exact hrows
  | some key =>
  cases hclient : requestedClient w req.clientId with
  | error error =>
    simp only [updateKey, hkey, hclient]
    exact hrows
  | ok clientId =>
  have hallowed := hallowed key hkey
  simp only [updateAccepted, hclient, Except.isOk, Except.toBool, Bool.true_and] at hallowed
  simp only [updateKey, hkey, hclient]
  cases hsecret : req.apiKey with
  | none =>
    rw [hsecret] at hallowed
    have hrow : holds (updateRow clientId req key) := h.updated (hrows id key hkey) (hallowed rfl)
    exact hrows.updated (rowUpdated_modifyKey w id _) fun _ _ _ => hrow
  | some apiKey =>
    cases masterKey with
    | none => exact hrows
    | some master =>
      simp only [updateRow_apiKeyHash]
      rw [hsecret] at hallowed
      split
      · exact hrows
      · next hunique =>
        have hpatch := hallowed (by simpa [rotateKey] using hunique)
        have hrotated : holds (rotateKey security master nonce apiKey key) :=
          h.same (hrows id key hkey) rfl rfl rfl rfl
        have hrow : holds (updateRow clientId req (rotateKey security master nonce apiKey key)) :=
          h.updated hrotated (h.rotated hpatch)
        exact hrows.updated (rowUpdated_modifyKey w id _) fun _ _ _ => hrow

theorem deleteKey_rows (h : RowInvariant holds) {id : Nat} (hrows : RowsHold holds w) :
    RowsHold holds (deleteKey id w).2 := by
  rw [deleteKey]
  split
  · exact hrows.updated (rowUpdated_modifyKey w id _) fun key _ _ => h.disabledRow key
  · exact hrows

theorem resetKeysQuota_rows (h : RowInvariant holds) {today : Day} (hrows : RowsHold holds w) :
    RowsHold holds (resetKeysQuota today w) := by
  intro id row hget
  rw [resetKeysQuota, World.key?_withKeys, Table.get?_mapRows, Option.map_eq_some_iff] at hget
  obtain ⟨key, hkey, rfl⟩ := hget
  exact h.resetQuotaRow (hrows id key hkey)

/-! ### Batches -/

theorem batchLoop_rows (h : Writers holds fetchOk updateOk batchOk) {req : BatchKeysRequest}
    {ids : List Nat} (hrows : RowsHold holds w)
    (hallowed : ∀ id ∈ ids, ∀ key, w.key? id = some key → batchOk req key) :
    RowsHold holds (batchLoop req ids w).2 := by
  induction ids generalizing w with
  | nil => exact hrows
  | cons id rest ih =>
    have hrest : ∀ other ∈ rest, ∀ key, w.key? other = some key → batchOk req key :=
      fun other hmem => hallowed other (List.mem_cons_of_mem _ hmem)
    rw [batchLoop]
    split
    · exact ih hrows hrest
    · have hupdated := rowUpdated_modifyKey w id (batchRow req)
      refine ih (hrows.updated hupdated fun key hkey hholds => ?_) fun other hmem row hrow => ?_
      · exact (h.batched hholds (hallowed id List.mem_cons_self key hkey)).1
      · obtain ⟨before, hbefore, rfl⟩ := hupdated.before hrow
        have hsafe := hrest other hmem before hbefore
        split
        · exact (h.batched (hrows other before hbefore) hsafe).2
        · exact hsafe

theorem batchTests_rows (h : RowInvariant holds) {fwd : Forwarder} {env : Nat → TestEnv}
    {requestId mode : String} {testUrl : PyStr} {results : List (Nat × Except FcamError ApiKey)}
    (hrows : RowsHold holds w) :
    RowsHold holds (batchTests fwd env requestId mode testUrl results w).2 := by
  induction results generalizing w with
  | nil => exact hrows
  | cons result rest ih =>
    obtain ⟨id, updated⟩ := result
    cases updated with
    | error error =>
      rw [batchTests]
      exact ih hrows
    | ok row =>
      rw [batchTests]
      split
      · exact ih hrows
      · exact ih (testKey_rows h hrows)

theorem batchKeys_rows (h : Writers holds fetchOk updateOk batchOk) {fwd : Forwarder}
    {env : Nat → TestEnv} {requestId : String} {req : BatchKeysRequest} (hrows : RowsHold holds w)
    (hallowed : batchAccepted req w = true → ∀ id ∈ req.ids, ∀ key, w.key? id = some key →
      batchOk req key) :
    RowsHold holds (batchKeys fwd env requestId req w).2 := by
  rw [batchAccepted] at hallowed
  rw [batchKeys]
  split
  · next htest =>
    rw [htest] at hallowed
    exact batchLoop_rows h hrows (hallowed rfl)
  next mode testUrl htest =>
  rw [htest] at hallowed
  split
  · exact hrows
  next hmode =>
  split
  · exact hrows
  next hmixed =>
  rw [Bool.not_eq_true] at hmixed
  refine batchTests_rows h.toRowInvariant (batchLoop_rows h hrows (hallowed ?_))
  simp only [hmixed, Bool.not_false, Bool.and_true, beq_iff_eq]
  exact not_not.mp hmode

end

/-! ### Every operation -/

/-- Every fetch that reaches the upstream and every patch that is accepted meets its condition on
the row it finds. -/
def KeyOperation.RowsAllowed (fetchOk : FetchEnv → ApiKey → Prop)
    (updateOk : UpdateKeyRequest → ApiKey → Prop) (batchOk : BatchKeysRequest → ApiKey → Prop)
    (fwd : Forwarder) (w : World) : KeyOperation → Prop
  | .useKey (.refreshKeyCredits now env _ id) =>
    ∀ masterKey, fwd.masterKey = some masterKey → ∀ key, w.key? id = some key →
      key.provider = .firecrawl →
      refreshedTooRecently fwd.config now key = false →
        FetchAllowed fetchOk fwd.security masterKey env key
  | .useKey (.refreshAllCredits keyIds force now env _) =>
    ∀ masterKey, fwd.masterKey = some masterKey → ∀ row ∈ w.db.keys.select refreshAllScope,
      ((keyIds.filter (0 < ·)).isEmpty || (keyIds.filter (0 < ·)).contains row.1) = true →
        (!force && refreshedTooRecently fwd.config now row.2) = false →
          FetchAllowed fetchOk fwd.security masterKey (env row.1) row.2
  | .useKey (.refreshOnce now env _ _) =>
    ∀ masterKey, fwd.masterKey = some masterKey → ∀ row ∈ w.db.keys.select (refreshDue now),
      FetchAllowed fetchOk fwd.security masterKey (env row.1) row.2
  | .updateKey _ id req =>
    ∀ key, w.key? id = some key →
      updateAccepted fwd.security fwd.masterKey id req w = true → updateOk req key
  | .batchKeys _ _ req =>
    batchAccepted req w = true → ∀ id ∈ req.ids, ∀ key, w.key? id = some key → batchOk req key
  | _ => True

theorem perform_rows {holds : ApiKey → Prop} {fetchOk : FetchEnv → ApiKey → Prop}
    {updateOk : UpdateKeyRequest → ApiKey → Prop} {batchOk : BatchKeysRequest → ApiKey → Prop}
    (h : Writers holds fetchOk updateOk batchOk) {fwd : Forwarder} {w : World} {op : KeyOperation}
    (hrows : RowsHold holds w) (hallowed : op.RowsAllowed fetchOk updateOk batchOk fwd w) :
    RowsHold holds (op.perform fwd w) := by
  have hrow := h.toRowInvariant
  cases op with
  | useKey use =>
    cases use with
    | forward turns req => exact forward_rows hrow turns hrows
    | testKey env requestId id mode testUrl =>
      simp only [KeyOperation.perform, KeyUse.perform]
      split
      · exact hrows
      · exact testKey_rows hrow hrows
    | refreshKeyCredits now env requestId id =>
      simp only [KeyOperation.perform, KeyUse.perform]
      split
      · exact hrows
      · next masterKey hmaster => exact refreshKeyCredits_rows h hrows (hallowed masterKey hmaster)
    | refreshAllCredits keyIds force now env requestId =>
      simp only [KeyOperation.perform, KeyUse.perform]
      split
      · exact hrows
      next masterKey hmaster =>
      rw [refreshAllCredits]
      refine refreshAllKeys_rows h hrows ?_ fun row hmem => ?_
      · exact (select_ids_nodup w.db.keys refreshAllScope).sublist (List.filter_sublist.map _)
      · obtain ⟨hselected, hasked⟩ := List.mem_filter.mp hmem
        exact ⟨(Table.mem_select.mp hselected).1, hallowed masterKey hmaster row hselected hasked⟩
    | refreshOnce now env requestId cleanupAt =>
      simp only [KeyOperation.perform, KeyUse.perform]
      split
      · exact hrows
      next masterKey hmaster =>
      rw [refreshOnce]
      split
      · exact hrows
      intro id row hget
      rw [cleanupOldSnapshots_key?] at hget
      refine refreshKeys_rows h hrows (select_ids_nodup w.db.keys (refreshDue now))
        (fun row hmem => ?_) id row hget
      exact ⟨(Table.mem_select.mp hmem).1, hallowed masterKey hmaster row hmem⟩
  | select env clientId provider => exact select_rows hrow hrows
  | createKey today nonce req => exact createKey_rows hrow hrows
  | importKeys today nonces items failures req => exact importKeys_rows hrow hrows
  | updateKey nonce id req => exact updateKey_rows h hrows hallowed
  | deleteKey id => exact deleteKey_rows hrow hrows
  | batchKeys env requestId req => exact batchKeys_rows h hrows hallowed
  | resetKeysQuota today => exact resetKeysQuota_rows hrow hrows

/-- In every run of such operations the property holds on every row in every state reached. -/
theorem run_rows {holds : ApiKey → Prop} {fetchOk : FetchEnv → ApiKey → Prop}
    {updateOk : UpdateKeyRequest → ApiKey → Prop} {batchOk : BatchKeysRequest → ApiKey → Prop}
    (h : Writers holds fetchOk updateOk batchOk) {fwd : Forwarder} {w last : World}
    {trace : List KeyOperation} (hrows : RowsHold holds w)
    (hallowed : Meets (KeyOperation.next fwd)
      (fun w op => op.RowsAllowed fetchOk updateOk batchOk fwd w) w trace)
    (hexec : exec (KeyOperation.next fwd) w trace = some last) : RowsHold holds last := by
  refine exec_invariant_of_meets (fun w op w' hholds hok hnext => ?_) hallowed hexec hrows
  rw [KeyOperation.next, Option.some.injEq] at hnext
  exact hnext ▸ perform_rows h hholds hok

end Fcam

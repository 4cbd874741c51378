import Fcam.Base.Attribute
import Fcam.Model.Rows

/-!
# Rows in the hands of a session

A session works on the row it has loaded, and its commit writes the attributes it has changed into
whatever the table holds by then. A commit sends all its changes at once.
-/

namespace Fcam

/-- The stored row after a session that loaded `loaded` commits `current`. -/
def ApiKey.save (loaded current stored : ApiKey) : ApiKey where
  clientId := writeBack loaded.clientId current.clientId stored.clientId
  apiKeyCiphertext :=
    writeBack loaded.apiKeyCiphertext current.apiKeyCiphertext stored.apiKeyCiphertext
  apiKeyHash := writeBack loaded.apiKeyHash current.apiKeyHash stored.apiKeyHash
  apiKeyLast4 := writeBack loaded.apiKeyLast4 current.apiKeyLast4 stored.apiKeyLast4
  accountUsername := writeBack loaded.accountUsername current.accountUsername stored.accountUsername
  accountPasswordCiphertext :=
    writeBack loaded.accountPasswordCiphertext current.accountPasswordCiphertext
      stored.accountPasswordCiphertext
  accountVerifiedAt :=
    writeBack loaded.accountVerifiedAt current.accountVerifiedAt stored.accountVerifiedAt
  name := writeBack loaded.name current.name stored.name
  planType := writeBack loaded.planType current.planType stored.planType
  isActive := writeBack loaded.isActive current.isActive stored.isActive
  dailyQuota := writeBack loaded.dailyQuota current.dailyQuota stored.dailyQuota
  dailyUsage := writeBack loaded.dailyUsage current.dailyUsage stored.dailyUsage
  quotaResetAt := writeBack loaded.quotaResetAt current.quotaResetAt stored.quotaResetAt
  maxConcurrent := writeBack loaded.maxConcurrent current.maxConcurrent stored.maxConcurrent
  rateLimitPerMin := writeBack loaded.rateLimitPerMin current.rateLimitPerMin stored.rateLimitPerMin
  cooldownUntil := writeBack loaded.cooldownUntil current.cooldownUntil stored.cooldownUntil
  totalRequests := writeBack loaded.totalRequests current.totalRequests stored.totalRequests
  lastUsedAt := writeBack loaded.lastUsedAt current.lastUsedAt stored.lastUsedAt
  lastCreditSnapshotId :=
    writeBack loaded.lastCreditSnapshotId current.lastCreditSnapshotId stored.lastCreditSnapshotId
  lastCreditCheckAt :=
    writeBack loaded.lastCreditCheckAt current.lastCreditCheckAt stored.lastCreditCheckAt
  cachedRemainingCredits :=
    writeBack loaded.cachedRemainingCredits current.cachedRemainingCredits
      stored.cachedRemainingCredits
  cachedPlanCredits :=
    writeBack loaded.cachedPlanCredits current.cachedPlanCredits stored.cachedPlanCredits
  nextRefreshAt := writeBack loaded.nextRefreshAt current.nextRefreshAt stored.nextRefreshAt
  provider := writeBack loaded.provider current.provider stored.provider
  status := writeBack loaded.status current.status stored.status

def Client.save (loaded current stored : Client) : Client where
  name := writeBack loaded.name current.name stored.name
  tokenHash := writeBack loaded.tokenHash current.tokenHash stored.tokenHash
  isActive := writeBack loaded.isActive current.isActive stored.isActive
  dailyQuota := writeBack loaded.dailyQuota current.dailyQuota stored.dailyQuota
  dailyUsage := writeBack loaded.dailyUsage current.dailyUsage stored.dailyUsage
  quotaResetAt := writeBack loaded.quotaResetAt current.quotaResetAt stored.quotaResetAt
  rateLimitPerMin := writeBack loaded.rateLimitPerMin current.rateLimitPerMin stored.rateLimitPerMin
  maxConcurrent := writeBack loaded.maxConcurrent current.maxConcurrent stored.maxConcurrent
  lastUsedAt := writeBack loaded.lastUsedAt current.lastUsedAt stored.lastUsedAt
  status := writeBack loaded.status current.status stored.status

@[simp] theorem ApiKey.save_fresh (stored current : ApiKey) :
    ApiKey.save stored current stored = current := by
  simp [ApiKey.save]

@[simp] theorem Client.save_fresh (stored current : Client) :
    Client.save stored current stored = current := by
  simp [Client.save]

/-- A change a session sends with a commit, or makes in memory along with it. -/
inductive Write where
  | key (id : Nat) (loaded current : ApiKey)
  | client (id : Nat) (loaded current : Client)
  | roundRobin (scope : Scope) (idx : Nat)
  | failures (id : Nat) (entry : Int × Instant)
  | snapshot (row : CreditSnapshot)

namespace World

def client? (w : World) (id : Nat) : Option Client := w.db.clients.get? id

end World

theorem client?_modifyClient {w : World} {id : Nat} {f : Client → Client} (other : Nat) :
    (w.modifyClient id f).client? other = if other = id then (w.client? other).map f
      else w.client? other :=
  Table.get?_modify w.db.clients id other f

@[simp] theorem client?_modifyKey (w : World) (id other : Nat) (f : ApiKey → ApiKey) :
    (w.modifyKey id f).client? other = w.client? other := rfl

def Write.apply (w : World) : Write → World
  | key id loaded current => w.modifyKey id (ApiKey.save loaded current)
  | client id loaded current => w.modifyClient id (Client.save loaded current)
  | roundRobin scope idx => { w with rrIndexByScope := Function.update w.rrIndexByScope scope idx }
  | failures id entry => { w with failures := Function.update w.failures id (some entry) }
  | snapshot row =>
    { w with db := { w.db with creditSnapshots := w.db.creditSnapshots.insert row } }

/-- The state after a session has sent its changes. -/
def commit (writes : List Write) (w : World) : World := writes.foldl Write.apply w

@[simp] theorem commit_nil (w : World) : commit [] w = w := rfl

@[simp] theorem commit_cons (write : Write) (rest : List Write) (w : World) :
    commit (write :: rest) w = commit rest (write.apply w) := rfl

theorem commit_invariant {inv : World → Prop} {writes : List Write}
    (h : ∀ write ∈ writes, ∀ w, inv w → inv (write.apply w)) {w : World} (hinv : inv w) :
    inv (commit writes w) := by
  induction writes generalizing w with
  | nil => exact hinv
  | cons write rest ih =>
    have hfirst := h write List.mem_cons_self w hinv
    exact ih (fun other hother => h other (List.mem_cons_of_mem write hother)) hfirst

end Fcam

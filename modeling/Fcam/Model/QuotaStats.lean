import Fcam.Base.Tally
import Fcam.Model.RequestLogs

/-!
# Reports on the keys

`control_plane.py`: `quota_stats`, which sums the quota columns up, and `encryption_status`, which
looks for keys that the master key does not decrypt. Both only read.
-/

namespace Fcam

/-! ### Quotas -/

structure QuotaSummary where
  totalQuota : Nat
  usedToday : Nat
  remaining : Nat
  keysExhausted : Nat
  keysAvailable : Nat
deriving DecidableEq, Repr

structure QuotaKeyItem where
  id : Nat
  apiKeyMasked : String
  status : KeyStatus
  dailyQuota : Nat
  dailyUsage : Nat
  quotaResetAt : Option Day
  cooldownUntil : Option Instant
deriving DecidableEq, Repr

structure QuotaStats where
  summary : QuotaSummary
  keys : Option (List QuotaKeyItem) := none
  clients : Option (List (Nat × Client)) := none
deriving DecidableEq, Repr

/-- `k.is_active and k.status != "disabled"`. -/
def isSchedulable (key : ApiKey) : Bool := key.isActive && key.status != .disabled

/-- The summary over the schedulable keys. -/
def quotaSummary (schedulable : List (Nat × ApiKey)) : QuotaSummary :=
  let totalQuota := tally (fun row => row.2.dailyQuota) schedulable
  let usedToday := tally (fun row => row.2.dailyUsage) schedulable
  { totalQuota
    usedToday
    remaining := totalQuota - usedToday
    keysExhausted := schedulable.countP fun row => row.2.status == .quotaExceeded
    keysAvailable := schedulable.countP fun row => row.2.status == .active }

/-- `quota_stats`. -/
def quotaStats (includeKeys includeClients : Bool) (db : Db) : QuotaStats :=
  { summary := quotaSummary (db.keys.select isSchedulable)
    keys :=
      if includeKeys then
        some
          (db.keys.rows.map fun row =>
            { id := row.1
              apiKeyMasked := maskApiKeyLast4 row.2.apiKeyLast4
              status := row.2.status
              dailyQuota := row.2.dailyQuota
              dailyUsage := row.2.dailyUsage
              quotaResetAt := row.2.quotaResetAt
              cooldownUntil := row.2.cooldownUntil })
      else none
    clients := if includeClients then some db.clients.rows else none }

/-! ### Encryption -/

structure EncryptionStatus where
  masterKeyConfigured : Bool
  hasDecryptFailures : Bool
  suggestion : String
deriving DecidableEq, Repr

section

variable (security : Security)

/-- The key's ciphertext does not decrypt under the master key. -/
def decryptFails (masterKey : Bytes) (row : Nat × ApiKey) : Bool :=
  (security.decryptApiKey masterKey row.2.apiKeyCiphertext).isNone

/-- `encryption_status`: a status that says so is taken at its word, and else the first 200 keys are
decrypted. -/
def encryptionStatus (masterKey : Option String) (keys : Table ApiKey) : EncryptionStatus :=
  match masterKey.filter (· ≠ "") with
  | none =>
    { masterKeyConfigured := false
      hasDecryptFailures := false
      suggestion := "Set FCAM_MASTER_KEY (must stay stable across restarts)" }
  | some masterKey =>
    let masterKeyBytes := security.deriveMasterKeyBytes masterKey
    let hasDecryptFailures :=
      keys.rows.any (fun row => row.2.status == .decryptFailed) ||
        (keys.rows.take 200).any (decryptFails security masterKeyBytes)
    { masterKeyConfigured := true
      hasDecryptFailures
      suggestion :=
        if hasDecryptFailures then
          "Use the same FCAM_MASTER_KEY that was used to encrypt keys, or rotate/re-import affected keys"
        else "" }

end

end Fcam

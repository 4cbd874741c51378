import Fcam.Model.QuotaStats
import Fcam.Proof.SelectSpec

/-!
# What the reports say of the keys

The quota statistics read the columns as they are stored, and a selection reads them as of the day.
The two agree where no counter is of another day and no status is out of date, up to statuses that
are wrong in equal numbers. The encryption status is right where a remembered failure is still one
and a failure is remembered or among the first 200 keys.
-/

namespace Fcam

/-! ### Quotas -/

section

variable (reading : Reading) (stored : Nat → Option Int)

/-- What the loop of a selection makes of a key: its verdict and its row. -/
def examined (row : Nat × ApiKey) : Verdict × ApiKey :=
  (examine (.ofStore reading 0 stored) row.1 row.2).toOption.getD (.disabled, row.2)

/-- The summary says of the keys what a selection would find. -/
structure AgreesWithSelect (schedulable : List (Nat × ApiKey)) (summary : QuotaSummary) : Prop where
  usedToday : summary.usedToday = tally (fun row => (examined reading stored row).2.dailyUsage)
    schedulable
  remaining : summary.remaining =
    tally (fun row =>
      (examined reading stored row).2.dailyQuota - (examined reading stored row).2.dailyUsage)
        schedulable
  keysExhausted : summary.keysExhausted =
    schedulable.countP fun row => (examined reading stored row).1 == .quotaExceeded
  keysAvailable :
    summary.keysAvailable = schedulable.countP fun row =>
      (examined reading stored row).1 == .eligible

/-- The columns are up to date: no counter of another day counts anything, keys are not overspent
while others have quota left, and as many keys are marked exhausted, or active, by mistake as are
not marked by mistake. -/
structure ColumnsCurrent (schedulable : List (Nat × ApiKey)) : Prop where
  counted : ∀ row ∈ schedulable, row.2.quotaResetAt ≠ some reading.today → row.2.dailyUsage = 0
  oneSided : (∀ row ∈ schedulable, row.2.dailyUsage ≤ row.2.dailyQuota) ∨
    ∀ row ∈ schedulable, row.2.dailyQuota ≤ row.2.dailyUsage
  exhausted :
    (schedulable.countP fun row =>
     row.2.status == .quotaExceeded && decide (row.2.dailyUsage < row.2.dailyQuota)) =
      schedulable.countP fun row =>
        row.2.status != .quotaExceeded && !isBackingOff reading stored row &&
          decide (row.2.dailyQuota ≤ row.2.dailyUsage)
  available :
    (schedulable.countP fun row =>
     row.2.status == .active && decide (row.2.dailyQuota ≤ row.2.dailyUsage)) =
      schedulable.countP fun row =>
        row.2.status != .active && !isBackingOff reading stored row &&
          decide (row.2.dailyUsage < row.2.dailyQuota)

end

section

variable {reading : Reading} {stored : Nat → Option Int} {schedulable : List (Nat × ApiKey)}
  {row : Nat × ApiKey}

theorem isDisabled_of_isSchedulable {key : ApiKey} (h : isSchedulable key = true) :
    isDisabled key = false := by
  rw [isSchedulable, Bool.and_eq_true] at h
  rw [isDisabled, h.1, Bool.not_true, Bool.false_or, ← Bool.not_eq_true', ← bne]
  exact h.2

/-- The verdict on a key, and its quota and its counter of the day. -/
theorem examined_spec (hrow : isSchedulable row.2 = true) :
    (examined reading stored row).1 = verdictOf reading stored row ∧
      (examined reading stored row).2.dailyQuota = row.2.dailyQuota ∧
      (examined reading stored row).2.dailyUsage = (ofToday reading row).2.dailyUsage := by
  obtain ⟨after, hexamine, -⟩ := @examine_ofStore reading 0 stored row
  have hcases := examine_cases hexamine
  have hexamined : examined reading stored row = (verdictOf reading stored row, after) := by
    rw [examined, hexamine]
    rfl
  have hquota : after.dailyQuota = row.2.dailyQuota := by
    rw [hcases.frame]
    rfl
  rw [hexamined]
  refine ⟨rfl, hquota, ?_⟩
  obtain ⟨hdisabled, -, -⟩ | ⟨-, -, -, husage⟩ := hcases.counter
  · rw [isDisabled_of_isSchedulable hrow] at hdisabled
    cases hdisabled
  · rw [ofToday, lazyReset_dailyUsage]
    exact husage

theorem ofToday_le (row : Nat × ApiKey) :
    (ofToday reading row).2.dailyUsage ≤ row.2.dailyUsage := by
  rw [ofToday, lazyReset_dailyUsage]
  split
  · exact Nat.le_refl _
  · exact Nat.zero_le _

/-- The counters are of the day, or count nothing. -/
def CountersOfDay (reading : Reading) (schedulable : List (Nat × ApiKey)) : Prop :=
  ∀ row ∈ schedulable, row.2.quotaResetAt ≠ some reading.today → row.2.dailyUsage = 0

theorem counted_iff :
    CountersOfDay reading schedulable ↔
      ∀ row ∈ schedulable, (ofToday reading row).2.dailyUsage = row.2.dailyUsage := by
  apply forall₂_congr
  intro row _
  rw [ofToday, lazyReset_dailyUsage]
  split
  · next hday => exact iff_of_true (fun hother => absurd hday hother) rfl
  · next hday => exact ⟨fun h => (h hday).symm, fun h _ => h.symm⟩

theorem usedToday_iff (hall : ∀ row ∈ schedulable, isSchedulable row.2 = true) :
    (quotaSummary schedulable).usedToday =
      tally (fun row => (examined reading stored row).2.dailyUsage) schedulable ↔
      CountersOfDay reading schedulable := by
  have hof : tally (fun row => (examined reading stored row).2.dailyUsage) schedulable =
      tally (fun row => (ofToday reading row).2.dailyUsage) schedulable :=
    tally_congr fun row hmem => (examined_spec (hall row hmem)).2.2
  rw [hof, counted_iff, ← tally_eq_iff_of_le fun row _ => ofToday_le row]
  exact eq_comm

theorem remaining_iff (hall : ∀ row ∈ schedulable, isSchedulable row.2 = true)
    (hcounted : CountersOfDay reading schedulable) :
    (quotaSummary schedulable).remaining =
        tally (fun row =>
          (examined reading stored row).2.dailyQuota - (examined reading stored row).2.dailyUsage)
          schedulable ↔
      (∀ row ∈ schedulable, row.2.dailyUsage ≤ row.2.dailyQuota) ∨
        ∀ row ∈ schedulable, row.2.dailyQuota ≤ row.2.dailyUsage := by
  have hof :
      tally (fun row =>
        (examined reading stored row).2.dailyQuota - (examined reading stored row).2.dailyUsage)
          schedulable = tally (fun row => row.2.dailyQuota - row.2.dailyUsage) schedulable := by
    apply tally_congr
    intro row hmem
    obtain ⟨-, hquota, husage⟩ := @examined_spec reading stored row (hall row hmem)
    rw [hquota, husage, counted_iff.mp hcounted row hmem]
  rw [hof, ← tally_sub_iff]
  rfl

theorem isBackingOff_of_status (h : row.2.status = .active ∨ row.2.status = .quotaExceeded) :
    isBackingOff reading stored row = false := by
  have hstatus :
      (ofToday reading row).2.status ≠ .cooling ∧ (ofToday reading row).2.status ≠ .failed := by
    rw [ofToday, lazyReset]
    rcases h with hactive | hexhausted <;> split_ifs <;> simp [*]
  have hnone : backOff reading stored (ofToday reading row) = 0 := by
    rw [backOff, if_neg hstatus.1, if_neg hstatus.2]
  rw [isBackingOff, hnone, decide_eq_false (Int.lt_irrefl 0), Bool.and_false]

/-- With counters of the day, a key is exhausted or available by its columns where it is not backing
off. -/
theorem examined_verdict (hrow : isSchedulable row.2 = true)
    (hcounted : (ofToday reading row).2.dailyUsage = row.2.dailyUsage) :
    ((examined reading stored row).1 == .quotaExceeded) =
        (!isBackingOff reading stored row && decide (row.2.dailyQuota ≤ row.2.dailyUsage)) ∧
      ((examined reading stored row).1 == .eligible) =
        (!isBackingOff reading stored row && decide (row.2.dailyUsage < row.2.dailyQuota)) := by
  have henabled := isDisabled_of_isSchedulable hrow
  have hquota : (ofToday reading row).2.dailyQuota = row.2.dailyQuota := lazyReset_dailyQuota _ _
  rw [(examined_spec hrow).1]
  constructor
  · rw [Bool.eq_iff_iff, beq_iff_eq, (verdictOf_cases row).2.1, isExhausted, henabled, hcounted,
      hquota, Bool.not_false, Bool.true_and]
  · rw [Bool.eq_iff_iff, beq_iff_eq, verdictOf_eq_eligible, isAvailable, henabled, hcounted, hquota,
      Bool.not_false, Bool.true_and]

/-- As many keys are marked as are found so exactly where the mistakes of both kinds are equally
many. -/
theorem statusMarked_iff {status : KeyStatus} {verdict : Verdict} {found : ApiKey → Bool}
    (hstatus : status = .active ∨ status = .quotaExceeded)
    (hfound : ∀ row ∈ schedulable,
      ((examined reading stored row).1 == verdict) =
      (!isBackingOff reading stored row && found row.2)) :
    (schedulable.countP fun row => row.2.status == status) =
        schedulable.countP (fun row => (examined reading stored row).1 == verdict) ↔
      (schedulable.countP fun row => row.2.status == status && !found row.2) =
        schedulable.countP fun row => row.2.status != status && !isBackingOff reading stored row &&
        found row.2 := by
  have hmarked : ∀ row ∈ schedulable,
      (row.2.status == status && !((examined reading stored row).1 == verdict)) =
        (row.2.status == status && !found row.2) := by
    intro row hmem
    by_cases hmark : row.2.status = status
    · rw [hfound row hmem, isBackingOff_of_status (hmark ▸ hstatus), Bool.not_false, Bool.true_and]
    · rw [beq_eq_false_iff_ne.mpr hmark, Bool.false_and, Bool.false_and]
  have hunmarked : ∀ row ∈ schedulable,
      ((examined reading stored row).1 == verdict && !(row.2.status == status)) =
        (row.2.status != status && !isBackingOff reading stored row && found row.2) := by
    intro row hmem
    rw [hfound row hmem, Bool.and_comm, Bool.and_assoc]
    rfl
  rw [countP_eq_countP_iff, List.countP_congr fun row hmem => by rw [hmarked row hmem],
    List.countP_congr
      (p := fun row => (examined reading stored row).1 == verdict && !(row.2.status == status))
        fun row hmem => by rw [hunmarked row hmem]]

theorem keysExhausted_iff (hall : ∀ row ∈ schedulable, isSchedulable row.2 = true)
    (hcounted : CountersOfDay reading schedulable) :
    (quotaSummary schedulable).keysExhausted =
        schedulable.countP (fun row => (examined reading stored row).1 == .quotaExceeded) ↔
      (schedulable.countP fun row =>
        row.2.status == .quotaExceeded && decide (row.2.dailyUsage < row.2.dailyQuota)) =
        schedulable.countP fun row =>
          row.2.status != .quotaExceeded && !isBackingOff reading stored row &&
            decide (row.2.dailyQuota ≤ row.2.dailyUsage) := by
  have hmarked := @statusMarked_iff reading stored schedulable .quotaExceeded .quotaExceeded
    (fun key => decide (key.dailyQuota ≤ key.dailyUsage)) (.inr rfl) fun row hmem =>
      (examined_verdict (hall row hmem) (counted_iff.mp hcounted row hmem)).1
  simp only [← decide_not, Nat.not_le] at hmarked
  exact hmarked

theorem keysAvailable_iff (hall : ∀ row ∈ schedulable, isSchedulable row.2 = true)
    (hcounted : CountersOfDay reading schedulable) :
    (quotaSummary schedulable).keysAvailable =
        schedulable.countP (fun row => (examined reading stored row).1 == .eligible) ↔
      (schedulable.countP fun row =>
        row.2.status == .active && decide (row.2.dailyQuota ≤ row.2.dailyUsage)) =
        schedulable.countP fun row =>
          row.2.status != .active && !isBackingOff reading stored row &&
            decide (row.2.dailyUsage < row.2.dailyQuota) := by
  have hmarked := @statusMarked_iff reading stored schedulable .active .eligible
    (fun key => decide (key.dailyUsage < key.dailyQuota)) (.inl rfl) fun row hmem =>
      (examined_verdict (hall row hmem) (counted_iff.mp hcounted row hmem)).2
  simp only [← decide_not, Nat.not_lt] at hmarked
  exact hmarked

/-- The statistics report what a selection at that instant would find of the schedulable keys
exactly where the columns of these are current. -/
theorem quota_stats_agree_iff (reading : Reading) (stored : Nat → Option Int)
    (includeKeys includeClients : Bool) (db : Db) :
    AgreesWithSelect reading stored (db.keys.select isSchedulable)
      (quotaStats includeKeys includeClients db).summary ↔
      ColumnsCurrent reading stored (db.keys.select isSchedulable) := by
  have hall : ∀ row ∈ db.keys.select isSchedulable, isSchedulable row.2 = true := fun row hmem =>
    (Table.mem_select.mp hmem).2
  constructor
  · intro h
    have hcounted := (usedToday_iff hall).mp h.usedToday
    exact
      { counted := hcounted
        oneSided := (remaining_iff hall hcounted).mp h.remaining
        exhausted := (keysExhausted_iff hall hcounted).mp h.keysExhausted
        available := (keysAvailable_iff hall hcounted).mp h.keysAvailable }
  · intro h
    exact
      { usedToday := (usedToday_iff hall).mpr h.counted
        remaining := (remaining_iff hall h.counted).mpr h.oneSided
        keysExhausted := (keysExhausted_iff hall h.counted).mpr h.exhausted
        keysAvailable := (keysAvailable_iff hall h.counted).mpr h.available }

end

/-- A key was used three times yesterday: its three requests are reported as of today, where a
selection would count none. -/
theorem yesterday_counted :
    let db : Db := { keys := Table.empty.insert ((consumeKey 0)^[3] { quotaResetAt := some 0 }) }
    (quotaStats true false db).summary.usedToday = 3 ∧
      ¬AgreesWithSelect { now := dayLength, today := 1 } (fun _ => none)
        (db.keys.select isSchedulable) (quotaStats true false db).summary := by
  refine ⟨rfl, fun h => ?_⟩
  have hused := h.usedToday
  revert hused
  decide

/-! ### Encryption -/

section

variable {security : Security} {keys : Table ApiKey}

theorem hasDecryptFailures_iff {masterKey : String} (hset : masterKey ≠ "") :
    (encryptionStatus security (some masterKey) keys).hasDecryptFailures = true ↔
      (∃ row ∈ keys.rows, row.2.status = .decryptFailed) ∨
        ∃ row ∈ keys.rows.take 200,
          decryptFails security (security.deriveMasterKeyBytes masterKey) row = true := by
  have hconfigured : (some masterKey).filter (· ≠ "") = some masterKey := by
    rw [Option.filter_some, if_pos (decide_eq_true hset)]
  rw [encryptionStatus, hconfigured]
  simp only [Bool.or_eq_true, List.any_eq_true, beq_iff_eq]

/-- The report of failures is right exactly where a key that is remembered as a failure comes with a
failure, and a failure comes with one that is remembered or among the first 200 keys. -/
theorem encryption_status_exact_iff {masterKey : String} (hset : masterKey ≠ "") :
    ((encryptionStatus security (some masterKey) keys).hasDecryptFailures = true ↔
        ∃ row ∈ keys.rows, decryptFails security (security.deriveMasterKeyBytes masterKey) row =
          true) ↔
      ((∃ row ∈ keys.rows, row.2.status = .decryptFailed) →
          ∃ row ∈ keys.rows, decryptFails security (security.deriveMasterKeyBytes masterKey) row =
            true) ∧
        ((∃ row ∈ keys.rows, decryptFails security (security.deriveMasterKeyBytes masterKey) row =
          true) →
          (∃ row ∈ keys.rows, row.2.status = .decryptFailed) ∨
            ∃ row ∈ keys.rows.take 200,
              decryptFails security (security.deriveMasterKeyBytes masterKey) row = true) := by
  have hfirst :
      (∃ row ∈ keys.rows.take 200,
       decryptFails security (security.deriveMasterKeyBytes masterKey) row = true) →
         ∃ row ∈ keys.rows, decryptFails security (security.deriveMasterKeyBytes masterKey) row =
           true := by
    intro h
    obtain ⟨row, hmem, hfails⟩ := h
    exact ⟨row, List.mem_of_mem_take hmem, hfails⟩
  rw [hasDecryptFailures_iff hset]
  constructor
  · intro h
    exact ⟨fun hremembered => h.mp (.inl hremembered), h.mpr⟩
  · intro h
    exact ⟨fun hfound => hfound.elim h.1 hfirst, h.2⟩

/-- A key with a secret that decrypts, and no status that says otherwise. -/
theorem sound_key_reported :
    let keys := Table.empty.insert ({ apiKeyCiphertext := [107] } : ApiKey)
    ((encryptionStatus .plain (some "master") keys).hasDecryptFailures = true ↔
      ∃ row ∈ keys.rows, decryptFails .plain (Security.plain.deriveMasterKeyBytes "master") row =
        true) :=
  (encryption_status_exact_iff (by decide)).mpr ⟨by decide, by decide⟩

/-- A key that could not be decrypted gets a new secret, and is still reported. -/
theorem rotated_key_reported :
    let keys := Table.empty.insert (rotateKey .plain [] [] "fc-new" (disableKeyDecryptFailed {}))
    (encryptionStatus .plain (some "master") keys).hasDecryptFailures = true ∧
      ¬∃ row ∈ keys.rows, decryptFails .plain (Security.plain.deriveMasterKeyBytes "master") row =
        true := by
  constructor <;> decide

end

end Fcam

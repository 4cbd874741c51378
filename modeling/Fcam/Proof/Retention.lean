import Fcam.Base.Unique
import Fcam.Model.Retention
import Fcam.Proof.Replay
import Fcam.Proof.ReplaySound
import Fcam.Proof.StoredResponse

/-!
# The clean-up is not seen by the clients

A start deletes what has expired of its client before it looks for its key, so what it finds has not
expired. Two tables that hold the same records that have not expired (`SameAlive`) therefore answer
alike, under whatever ids, and the clean-up takes away expired records only. A request whose record
expires first is outside: its id may be another record's by then.
-/

namespace Fcam

/-! ### Records that have not expired -/

/-- The unique constraint is on these columns. -/
def recordKey (record : IdempotencyRecord) : Nat × String :=
  (record.clientId, record.idempotencyKey)

/-- A record of the table that has not expired. -/
def Alive (now : Instant) (records : Records) (record : IdempotencyRecord) : Prop :=
  ∃ id, records.get? id = some record ∧ expiredAt now record = false

theorem expiredAt_later {now later : Instant} (hle : now ≤ later) {record : IdempotencyRecord}
    (halive : expiredAt later record = false) : expiredAt now record = false := by
  cases hexpires : record.expiresAt with
  | none => rw [expiredAt, hexpires, Option.any_none]
  | some t =>
    rw [expiredAt, hexpires, Option.any_some, decide_eq_false_iff_not] at halive ⊢
    intro hlt
    exact halive (Int.lt_of_lt_of_le hlt hle)

theorem alive_later {now later : Instant} (hle : now ≤ later) {records : Records}
    {record : IdempotencyRecord} :
    Alive later records record ↔ Alive now records record ∧ expiredAt later record = false := by
  constructor
  · rintro ⟨id, hget, halive⟩
    exact ⟨⟨id, hget, expiredAt_later hle halive⟩, halive⟩
  · rintro ⟨⟨id, hget, -⟩, halive⟩
    exact ⟨id, hget, halive⟩

/-- Only expired records are deleted. -/
def OnlyExpired (now : Instant) (p : Nat → IdempotencyRecord → Bool) : Prop :=
  ∀ id record, p id record = true → expiredAt now record = true

theorem get?_deleteWhere_alive {now : Instant} {p : Nat → IdempotencyRecord → Bool}
    (hp : OnlyExpired now p) {records : Records} {id : Nat} {record : IdempotencyRecord}
    (hget : records.get? id = some record) (halive : expiredAt now record = false) :
    (records.deleteWhere p).get? id = some record := by
  rw [Table.get?_deleteWhere, hget, Option.filter_eq_some_iff]
  refine ⟨rfl, ?_⟩
  cases hdeleted : p id record with
  | false => rfl
  | true => exact absurd (hp id record hdeleted) (by rw [halive]; exact Bool.false_ne_true)

theorem alive_deleteWhere {now : Instant} {p : Nat → IdempotencyRecord → Bool}
    (hp : OnlyExpired now p) {records : Records} {record : IdempotencyRecord} :
    Alive now (records.deleteWhere p) record ↔ Alive now records record := by
  constructor
  · rintro ⟨id, hget, halive⟩
    exact ⟨id, (Table.get?_of_deleteWhere hget).1, halive⟩
  · rintro ⟨id, hget, halive⟩
    exact ⟨id, get?_deleteWhere_alive hp hget halive, halive⟩

theorem onlyExpired_cleanupExpired (clientId : Nat) (now : Instant) :
    OnlyExpired now fun _ record => record.clientId == clientId && expiredAt now record := by
  intro _ record hdeleted
  exact ((Bool.and_eq_true _ _).mp hdeleted).2

theorem onlyExpired_cleanupRetention (now : Instant) :
    OnlyExpired now fun _ record => expiredAt now record :=
  fun _ _ hdeleted => hdeleted

theorem recordOfKey?_of_get? {records : Records} (hkeys : DistinctBy recordKey records.get?)
    {id : Nat} {record : IdempotencyRecord} (hget : records.get? id = some record) :
    recordOfKey? record.clientId record.idempotencyKey records = some (id, record) := by
  cases hfound : recordOfKey? record.clientId record.idempotencyKey records with
  | none =>
    have hno := List.find?_eq_none.mp hfound (id, record) (Table.get?_eq_some_iff.mp hget)
    simp [ofKey] at hno
  | some row =>
    obtain ⟨hrow, hclient, hkey⟩ := recordOfKey?_eq_some hfound
    have hid : row.1 = id := hkeys row.1 id row.2 record hrow hget (Prod.ext hclient hkey)
    rw [hid] at hrow
    rw [← Option.some.inj (hrow.symm.trans hget), ← hid]

/-! ### What a clean-up reports -/

theorem length_deleteWhere {ρ : Type} (t : Table ρ) (p : ρ → Bool) :
    (t.select p).length + (t.deleteWhere fun _ row => p row).rows.length = t.rows.length := by
  rw [Table.select, Table.deleteWhere, ← List.countP_eq_length_filter,
    ← List.countP_eq_length_filter]
  simpa using (List.length_eq_countP_add_countP (l := t.rows) fun row : Nat × ρ => p row.2).symm

theorem length_deleteOlder {ρ : Type} {days : Int} {now : Instant} {createdAt : ρ → Instant}
    {t : Table ρ} {deleted : Nat × Table ρ} (h : deleteOlder days now createdAt t = some deleted) :
    deleted.1 + deleted.2.rows.length = t.rows.length := by
  rw [deleteOlder] at h
  split at h
  · obtain rfl := Option.some.inj h
    exact Nat.zero_add _
  · obtain ⟨threshold, -, rfl⟩ := Option.map_eq_some_iff.mp h
    exact length_deleteWhere t _

/-- What is reported deleted and what is left are what there was. -/
theorem cleanupRetention_counts {config : RetentionConfig} {now : Instant}
    {t after : RetentionTables} {result : CleanupResult}
    (h : t.cleanupRetention config now = (.ok result, after)) :
    result.requestLogsDeleted + after.requestLogs.rows.length = t.requestLogs.rows.length ∧
      result.auditLogsDeleted + after.auditLogs.rows.length = t.auditLogs.rows.length ∧
      result.idempotencyRecordsDeleted + after.records.rows.length = t.records.rows.length := by
  rw [RetentionTables.cleanupRetention] at h
  split at h
  · next hlogs haudits =>
    cases h
    exact ⟨length_deleteOlder hlogs, length_deleteOlder haudits,
      length_deleteWhere t.records (expiredAt now)⟩
  · cases h

/-- A clean-up that raises leaves everything. -/
theorem cleanupRetention_raised {config : RetentionConfig} {now : Instant}
    {t after : RetentionTables} {error : Raised}
    (h : t.cleanupRetention config now = (.error error, after)) : after = t := by
  rw [RetentionTables.cleanupRetention] at h
  split at h
  · cases h
  · cases h
    rfl

/-! ### Tables with the same records that have not expired -/

structure SameAlive (now : Instant) (cleaned kept : Records) : Prop where
  alive : ∀ record, Alive now cleaned record ↔ Alive now kept record
  cleanedKeys : DistinctBy recordKey cleaned.get?
  keptKeys : DistinctBy recordKey kept.get?

namespace SameAlive

variable {now later : Instant} {cleaned kept : Records}

theorem symm (h : SameAlive now cleaned kept) : SameAlive now kept cleaned :=
  ⟨fun record => (h.alive record).symm, h.keptKeys, h.cleanedKeys⟩

theorem advance (h : SameAlive now cleaned kept) (hle : now ≤ later) :
    SameAlive later cleaned kept := by
  refine ⟨fun record => ?_, h.cleanedKeys, h.keptKeys⟩
  rw [alive_later hle, alive_later hle, h.alive]

theorem delete (h : SameAlive now cleaned kept) {p : Nat → IdempotencyRecord → Bool}
    (hp : OnlyExpired now p) :
    SameAlive now (cleaned.deleteWhere p) kept := by
  refine ⟨fun record => (alive_deleteWhere hp).trans (h.alive record), h.cleanedKeys.narrowed ?_,
    h.keptKeys⟩
  exact fun id record hget => ⟨record, (Table.get?_of_deleteWhere hget).1, rfl⟩

/-- A record of a key that neither table has is inserted into both. -/
theorem insert (h : SameAlive now cleaned kept) {record : IdempotencyRecord}
    (hcleaned : ∀ id other, cleaned.get? id = some other → recordKey other ≠ recordKey record)
    (hkept : ∀ id other, kept.get? id = some other → recordKey other ≠ recordKey record) :
    SameAlive now (cleaned.insert record) (kept.insert record) := by
  have halive : ∀ (records : Records) other, Alive now (records.insert record) other ↔
      Alive now records other ∨ other = record ∧ expiredAt now record = false := by
    intro records other
    constructor
    · rintro ⟨id, hget, halive⟩
      rw [Table.get?_insert] at hget
      split at hget
      · obtain rfl := Option.some.inj hget
        exact .inr ⟨rfl, halive⟩
      · exact .inl ⟨id, hget, halive⟩
    · rintro (⟨id, hget, halive⟩ | ⟨rfl, halive⟩)
      · refine ⟨id, ?_, halive⟩
        rw [Table.get?_insert, if_neg (Nat.ne_of_lt (Table.lt_nextId hget)), hget]
      · exact ⟨records.nextId, Table.get?_insert_self records other, halive⟩
  have hkeys : ∀ {records : Records}, DistinctBy recordKey records.get? →
      (∀ id other, records.get? id = some other → recordKey other ≠ recordKey record) →
      DistinctBy recordKey (records.insert record).get? := by
    intro records hkeys hfresh
    apply hkeys.written (Table.get?_insert_self records record)
    · intro id hne
      rw [Table.get?_insert, if_neg hne]
    · exact fun id other _ hget => hfresh id other hget
  exact ⟨fun other => by rw [halive, halive, h.alive], hkeys h.cleanedKeys hcleaned,
    hkeys h.keptKeys hkept⟩

/-- The same record is written in both, but for what its key and its expiry are. -/
theorem modify (h : SameAlive now cleaned kept) {f : IdempotencyRecord → IdempotencyRecord}
    (hf : ∀ record, recordKey (f record) = recordKey record) {id id' : Nat}
    {record : IdempotencyRecord} (hget : cleaned.get? id = some record)
    (hget' : kept.get? id' = some record) :
    SameAlive now (cleaned.modify id f) (kept.modify id' f) := by
  have halive : ∀ {records : Records} {id : Nat}, DistinctBy recordKey records.get? →
      records.get? id = some record → ∀ other, Alive now (records.modify id f) other ↔
        other = f record ∧ expiredAt now (f record) = false ∨ recordKey other ≠ recordKey record ∧
          Alive now records other := by
    intro records id hkeys hget other
    constructor
    · rintro ⟨i, hi, halive⟩
      rw [Table.get?_modify] at hi
      split at hi
      · next heq =>
        rw [heq, hget, Option.map_some, Option.some.injEq] at hi
        subst hi
        exact .inl ⟨rfl, halive⟩
      · next hne =>
        exact .inr ⟨fun heq => hne (hkeys i id other record hi hget heq), i, hi, halive⟩
    · rintro (⟨rfl, halive⟩ | ⟨hne, i, hi, halive⟩)
      · exact ⟨id, by rw [Table.get?_modify_self, hget, Option.map_some], halive⟩
      · refine ⟨i, ?_, halive⟩
        rw [Table.get?_modify_of_ne _ _ ?_, hi]
        rintro rfl
        rw [Option.some.inj (hi.symm.trans hget)] at hne
        exact hne rfl
  have hkeys : ∀ {records : Records} {id : Nat}, DistinctBy recordKey records.get? →
      DistinctBy recordKey (records.modify id f).get? := by
    intro records id hkeys
    apply hkeys.narrowed
    intro i other hi
    rw [Table.get?_modify] at hi
    split at hi
    · obtain ⟨old, hold, rfl⟩ := Option.map_eq_some_iff.mp hi
      exact ⟨old, hold, hf old⟩
    · exact ⟨other, hi, rfl⟩
  refine ⟨fun other => ?_, hkeys h.cleanedKeys, hkeys h.keptKeys⟩
  rw [halive h.cleanedKeys hget, halive h.keptKeys hget', h.alive]

/-- What is written in both is the same in both again. -/
theorem get?_modify (h : SameAlive now cleaned kept) {f : IdempotencyRecord → IdempotencyRecord}
    {id id' : Nat} {record : IdempotencyRecord} (hget : cleaned.get? id = some record)
    (hget' : kept.get? id' = some record) {i i' : Nat} {other : IdempotencyRecord}
    (hi : cleaned.get? i = some other) (hi' : kept.get? i' = some other) :
    ∃ after, (cleaned.modify id f).get? i = some after ∧ (kept.modify id' f).get? i' = some after ∧
      (after = other ∨ after = f other) := by
  rw [Table.get?_modify, Table.get?_modify, hi, hi']
  by_cases heq : i = id
  · subst heq
    obtain rfl := Option.some.inj (hi.symm.trans hget)
    have hsame : i' = id' := h.keptKeys i' id' other other hi' hget' rfl
    rw [if_pos rfl, if_pos hsame]
    exact ⟨f other, rfl, rfl, .inr rfl⟩
  · have hne : i' ≠ id' := by
      rintro rfl
      obtain rfl := Option.some.inj (hi'.symm.trans hget')
      exact heq (h.cleanedKeys i id other other hi hget rfl)
    rw [if_neg heq, if_neg hne]
    exact ⟨other, rfl, rfl, .inl rfl⟩

end SameAlive

/-! ### A start -/

section

variable {config : AppConfig} {sha256 : Bytes → String} {req : IdempotentRequest}
  {clock : Nat → Instant} {now : Instant} {cleaned kept records : Records} {key : String}

/-- What a start with a key makes of a table that has no expired record of its client. -/
def startAnswer (config : AppConfig) (sha256 : Bytes → String) (req : IdempotentRequest)
    (key : String) (now : Instant) (records : Records) : Begun × Records :=
  match recordFields config sha256 req now with
  | .error error => (.raised error, records)
  | .ok (hash, expiresAt) =>
    match recordOfKey? req.clientId key records with
    | some row => (answerOf hash row.2, records)
    | none => (.letThrough (some records.nextId), records.insert (newRecord req key hash expiresAt))

theorem not_expired_of_cleanupExpired {id clientId : Nat} {record : IdempotencyRecord}
    (hget : (cleanupExpired clientId now records).get? id = some record)
    (hclient : record.clientId = clientId) :
    expiredAt now record = false := by
  have hkept := (Table.get?_of_deleteWhere hget).2
  rw [hclient, beq_self_eq_true, Bool.true_and] at hkept
  exact hkept

theorem startOrReplay_given (hkey : givenKey config req = .ok key) :
    startOrReplay config sha256 req clock records =
      startAnswer config sha256 req key (clock 0)
        (cleanupExpired req.clientId (clock 0) records) := by
  apply startOrReplay_of_startOnce hkey
  simp only [startOnce, startAnswer]
  cases recordFields config sha256 req (clock 0) with
  | error error => rfl
  | ok fields =>
    cases hfound :
      recordOfKey? req.clientId key (cleanupExpired req.clientId (clock 0) records) with
    | none =>
      simp only [insertRecord, newRecord, hfound, Option.isSome_none, Bool.false_eq_true, if_false]
    | some row =>
      obtain ⟨hget, hclient, -⟩ := recordOfKey?_eq_some hfound
      have halive := not_expired_of_cleanupExpired hget hclient
      simp only [insertRecord, newRecord, hfound, Option.isSome_some, if_true, reread, halive,
        Bool.false_eq_true, if_false]

theorem recordOfKey?_eq_none {clientId : Nat} (hnone : recordOfKey? clientId key records = none)
    {id : Nat} {record : IdempotencyRecord} (hget : records.get? id = some record) :
    recordKey record ≠ (clientId, key) := by
  intro heq
  have hno := List.find?_eq_none.mp hnone (id, record) (Table.get?_eq_some_iff.mp hget)
  obtain ⟨hclient, hkey⟩ := Prod.mk.inj heq
  simp [ofKey, hclient, hkey] at hno

/-- The record of a key that one table has, where it has not expired, the other has too. -/
theorem SameAlive.recordOfKey? (h : SameAlive now cleaned kept) {clientId : Nat}
    {row : Nat × IdempotencyRecord} (hfound : recordOfKey? clientId key cleaned = some row)
    (halive : expiredAt now row.2 = false) :
    ∃ id', Fcam.recordOfKey? clientId key kept = some (id', row.2) := by
  obtain ⟨hget, rfl, rfl⟩ := recordOfKey?_eq_some hfound
  obtain ⟨id', hget', -⟩ := (h.alive row.2).mp ⟨row.1, hget, halive⟩
  exact ⟨id', recordOfKey?_of_get? h.keptKeys hget'⟩

theorem SameAlive.cleanupExpired (h : SameAlive now cleaned kept) (clientId : Nat) :
    SameAlive now (cleanupExpired clientId now cleaned) (cleanupExpired clientId now kept) :=
  ((h.delete (onlyExpired_cleanupExpired clientId now)).symm.delete
    (onlyExpired_cleanupExpired clientId now)).symm

/-! ### Histories side by side -/

/-- A start was answered alike in both; the record it got, if any, is the same in both until it
expires. -/
inductive Alike (config : AppConfig) (now : Instant) (cleaned kept : Records) :
    Instant × Begun → Instant × Begun → Prop where
  | same {start : Instant} {begun : Begun} (hnone : begun.ctx = none) :
    Alike config now cleaned kept (start, begun) (start, begun)
  | recorded {start deadline : Instant} {id id' : Nat}
      (hexpiry : expiry config start = some deadline)
      (hrecord : now ≤ deadline →
       ∃ record, cleaned.get? id = some record ∧ kept.get? id' = some record ∧
        record.expiresAt = some deadline) :
    Alike config now cleaned kept (start, .letThrough (some id)) (start, .letThrough (some id'))

/-- Where records that have not expired stay paired, starts stay alike. -/
theorem Alike.advance {later : Instant} {cleaned' kept' : Records} (hle : now ≤ later)
    (hpaired : ∀ (id id' : Nat) (record : IdempotencyRecord), cleaned.get? id = some record →
      kept.get? id' = some record → expiredAt later record = false →
      ∃ after, cleaned'.get? id = some after ∧ kept'.get? id' = some after ∧
        after.expiresAt = record.expiresAt) {start start' : Instant × Begun}
          (h : Alike config now cleaned kept start start') :
    Alike config later cleaned' kept' start start' := by
  cases h with
  | same hnone => exact .same hnone
  | @recorded start deadline id id' hexpiry hrecord =>
    refine .recorded hexpiry fun hdeadline => ?_
    obtain ⟨record, hget, hget', hexpires⟩ := hrecord (Int.le_trans hle hdeadline)
    have halive : expiredAt later record = false := by
      rw [expiredAt, hexpires, Option.any_some]
      exact decide_eq_false (Int.not_lt.mpr hdeadline)
    obtain ⟨after, hafter, hafter', hsame⟩ := hpaired id id' record hget hget' halive
    exact ⟨after, hafter, hafter', hsame.trans hexpires⟩

theorem ctx_answerOf (hash : String) (existing : IdempotencyRecord) :
    (answerOf hash existing).ctx = none := by
  rw [answerOf]
  split
  · rfl
  · split
    · rw [deserializeResponse]
      split
      · rfl
      · rfl
    · rfl

theorem recordFields_expiry {fields : String × Instant}
    (h : recordFields config sha256 req now = .ok fields) :
    expiry config now = some fields.2 := by
  rw [recordFields] at h
  split at h
  · cases h
  · cases h
  · next hexpiry =>
    cases h
    exact hexpiry

variable (config sha256 key) in
/-- What a start does to two tables from which what has expired of its client is gone. -/
theorem SameAlive.startAnswer (h : SameAlive now cleaned kept)
    (hcleaned : ∀ id record, cleaned.get? id = some record → record.clientId = req.clientId →
      expiredAt now record = false)
    (hkept : ∀ id record, kept.get? id = some record → record.clientId = req.clientId →
      expiredAt now record = false) :
    SameAlive now (startAnswer config sha256 req key now cleaned).2
    (startAnswer config sha256 req key now kept).2 ∧
      Alike config now (startAnswer config sha256 req key now cleaned).2
      (startAnswer config sha256 req key now kept).2
        (now, (startAnswer config sha256 req key now cleaned).1)
        (now, (startAnswer config sha256 req key now kept).1) ∧
      ∀ (id id' : Nat) (record : IdempotencyRecord), cleaned.get? id = some record →
      kept.get? id' = some record →
        (startAnswer config sha256 req key now cleaned).2.get? id = some record ∧
          (startAnswer config sha256 req key now kept).2.get? id' = some record := by
  simp only [Fcam.startAnswer]
  cases hfields : recordFields config sha256 req now with
  | error error => exact ⟨h, .same rfl, fun _ _ _ hget hget' => ⟨hget, hget'⟩⟩
  | ok fields =>
    cases hfound : Fcam.recordOfKey? req.clientId key cleaned with
    | some row =>
      obtain ⟨hget, hclient, -⟩ := recordOfKey?_eq_some hfound
      obtain ⟨id', hfound'⟩ := h.recordOfKey? hfound (hcleaned row.1 row.2 hget hclient)
      simp only [hfound']
      exact ⟨h, .same (ctx_answerOf fields.1 row.2), fun _ _ _ hget hget' => ⟨hget, hget'⟩⟩
    | none =>
      have hfound' : Fcam.recordOfKey? req.clientId key kept = none := by
        cases hfound' : Fcam.recordOfKey? req.clientId key kept with
        | none => rfl
        | some row =>
          obtain ⟨hget, hclient, -⟩ := recordOfKey?_eq_some hfound'
          obtain ⟨id, hsome⟩ := h.symm.recordOfKey? hfound' (hkept row.1 row.2 hget hclient)
          rw [hfound] at hsome
          cases hsome
      simp only [hfound']
      refine ⟨h.insert (fun id other => recordOfKey?_eq_none hfound) fun id other =>
        recordOfKey?_eq_none hfound', ?_, ?_⟩
      · exact .recorded (recordFields_expiry hfields) fun _ =>
          ⟨_, Table.get?_insert_self _ _, Table.get?_insert_self _ _, rfl⟩
      · intro id id' record hget hget'
        rw [Table.get?_insert, Table.get?_insert, if_neg (Nat.ne_of_lt (Table.lt_nextId hget)),
          if_neg (Nat.ne_of_lt (Table.lt_nextId hget'))]
        exact ⟨hget, hget'⟩

/-- A history with clean-ups beside the same one without. -/
structure Unseen (config : AppConfig) (cleaned kept : RecordHistory) : Prop where
  alive : SameAlive cleaned.clock cleaned.tables.records kept.tables.records
  begun : ∀ i : Nat,
    Option.Rel (Alike config cleaned.clock cleaned.tables.records kept.tables.records)
    (cleaned.begun[i]?) (kept.begun[i]?)

variable {retention : RetentionConfig} {left right : RecordHistory}

theorem cleanupRetention_records (retention : RetentionConfig) (now : Instant)
    (t : RetentionTables) :
    (t.cleanupRetention retention now).2.records = t.records ∨
      (t.cleanupRetention retention now).2.records = cleanupRetention now t.records := by
  rw [RetentionTables.cleanupRetention]
  split
  · exact .inr rfl
  · exact .inl rfl

theorem Unseen.cleanup (h : Unseen config left right) (hclock : left.clock ≤ now) :
    Unseen config (left.serve config retention sha256 (.cleanup now)) right := by
  have hsame := h.alive.advance hclock
  have hdeleted :
      SameAlive now (left.tables.cleanupRetention retention now).2.records right.tables.records ∧
        ∀ id record, left.tables.records.get? id = some record → expiredAt now record = false →
          (left.tables.cleanupRetention retention now).2.records.get? id = some record := by
    obtain hunchanged | hcleaned := cleanupRetention_records retention now left.tables
    · rw [hunchanged]
      exact ⟨hsame, fun _ _ hget _ => hget⟩
    · rw [hcleaned]
      refine ⟨hsame.delete (onlyExpired_cleanupRetention now), fun _ _ hget halive => ?_⟩
      exact get?_deleteWhere_alive (onlyExpired_cleanupRetention now) hget halive
  refine ⟨hdeleted.1, fun i => (h.begun i).imp ?_⟩
  intro start start' halike
  apply halike.advance hclock
  intro id id' record hget hget' halive
  exact ⟨record, hdeleted.2 id record hget halive, hget', rfl⟩

theorem Unseen.start (h : Unseen config left right) (hclock : left.clock ≤ clock 0) :
    Unseen config (left.serve config retention sha256 (.start req clock))
      (right.serve config retention sha256 (.start req clock)) := by
  have hsame := h.alive.advance hclock
  simp only [RecordHistory.serve]
  cases hkey : givenKey config req with
  | error begun =>
    have hstart : ∀ records, startOrReplay config sha256 req clock records = (begun, records) := by
      intro records
      rw [startOrReplay, hkey]
    simp only [hstart]
    have hnone : begun.ctx = none := by
      rcases givenKey_eq_error hkey with rfl | rfl
      · rfl
      · rfl
    refine ⟨hsame, Option.Rel.getElem?_concat (fun i => (h.begun i).imp ?_) (.same hnone)⟩
    intro start start' halike
    exact halike.advance hclock fun id id' record hget hget' _ => ⟨record, hget, hget', rfl⟩
  | ok key =>
    simp only [startOrReplay_given hkey]
    have hcleaned := hsame.cleanupExpired req.clientId
    obtain ⟨hafter, halike, hpaired⟩ := SameAlive.startAnswer config sha256 key hcleaned
      (fun id record hget hclient => not_expired_of_cleanupExpired hget hclient)
      fun id record hget hclient => not_expired_of_cleanupExpired hget hclient
    refine ⟨hafter, Option.Rel.getElem?_concat (fun i => (h.begun i).imp ?_) halike⟩
    intro start start' hold
    apply hold.advance hclock
    intro id id' record hget hget' halive
    have honly := onlyExpired_cleanupExpired req.clientId (clock 0)
    obtain ⟨hnew, hnew'⟩ := hpaired id id' record (get?_deleteWhere_alive honly hget halive)
      (get?_deleteWhere_alive honly hget' halive)
    exact ⟨record, hnew, hnew', rfl⟩

/-- What `complete` does to a record it finds, if it does anything. -/
theorem complete_found (config : AppConfig) (response : Response) (record : IdempotencyRecord) :
    (∀ (records : Records) (id : Nat), records.get? id = some record →
        complete config (some id) response records = records) ∨
      ∃ f : IdempotencyRecord → IdempotencyRecord,
        (∀ record, recordKey (f record) = recordKey record ∧
          (f record).expiresAt = record.expiresAt) ∧
        ∀ (records : Records) (id : Nat), records.get? id = some record →
          complete config (some id) response records = records.modify id f := by
  cases henabled : config.idempotency.enabled with
  | false =>
    left
    intro records id _
    simp [complete, Option.filter, henabled]
  | true =>
    cases hserialized : serializeResponse response (maxResponseBytes config) with
    | error error =>
      left
      intro records id hget
      simp [complete, Option.filter, henabled, hget, hserialized]
    | ok stored =>
      right
      refine
        ⟨fun current =>
          { current with
            status := writeBack record.status .completed current.status
            responseStatusCode :=
              writeBack record.responseStatusCode (some response.statusCode)
                current.responseStatusCode
            responseBody :=
              writeBack record.responseBody (some (response.headers, response.body))
                current.responseBody },
          fun _ => ⟨rfl, rfl⟩, fun records id hget => ?_⟩
      simp only [complete, Option.filter, henabled, if_true, hget, hserialized, storeResponse]

theorem Unseen.complete (h : Unseen config left right) {i : Nat} {response : Response}
    (htimely : left.Timely config (.complete i response now)) :
    Unseen config (left.serve config retention sha256 (.complete i response now))
      (right.serve config retention sha256 (.complete i response now)) := by
  obtain ⟨hclock, hdeadline⟩ := htimely
  have hsame := h.alive.advance hclock
  have hunchanged : Unseen config { left with clock := now } right := by
    refine ⟨hsame, fun i => (h.begun i).imp ?_⟩
    intro start start' halike
    exact halike.advance hclock fun id id' record hget hget' _ => ⟨record, hget, hget', rfl⟩
  have hrel := h.begun i
  simp only [RecordHistory.serve]
  cases hstart : left.begun[i]? with
  | none =>
    have hstart' := hrel.none_iff.mp hstart
    rw [hstart']
    exact ⟨hunchanged.alive, hunchanged.begun⟩
  | some start =>
    obtain ⟨start', hstart', halike⟩ := hrel.exists_of_eq_some hstart
    rw [hstart']
    cases halike with
    | same hnone =>
      simp only [Option.bind_some, hnone]
      exact ⟨hunchanged.alive, hunchanged.begun⟩
    | @recorded at' deadline id id' hexpiry hrecord =>
      have hbefore := hdeadline (at', .letThrough (some id)) hstart deadline hexpiry
      obtain ⟨record, hget, hget', -⟩ := hrecord (Int.le_trans hclock hbefore)
      simp only [Option.bind_some, Begun.ctx]
      obtain hnothing | ⟨f, hf, hstored⟩ := complete_found config response record
      · rw [hnothing _ id hget, hnothing _ id' hget']
        exact ⟨hunchanged.alive, hunchanged.begun⟩
      · rw [hstored _ id hget, hstored _ id' hget']
        refine ⟨hsame.modify (fun record => (hf record).1) hget hget', fun j => (h.begun j).imp ?_⟩
        intro other other' hother
        apply hother.advance hclock
        intro j j' found hj hj' _
        obtain ⟨after, hafter, hafter', hcases⟩ := hsame.get?_modify (f := f) hget hget' hj hj'
        refine ⟨after, hafter, hafter', ?_⟩
        rcases hcases with rfl | rfl
        · rfl
        · exact (hf found).2

/-- One call, made in both histories, or in one where it is a clean-up. -/
theorem Unseen.serve (h : Unseen config left right) {call : RecordCall}
    (htimely : left.Timely config call) :
    Unseen config (left.serve config retention sha256 call)
      (if call.isCleanup then right else right.serve config retention sha256 call) := by
  cases call with
  | start req clock => exact h.start htimely
  | complete i response now => exact h.complete htimely
  | cleanup now => exact h.cleanup htimely

theorem Unseen.run (calls : List RecordCall) (h : Unseen config left right)
    (htimely : Meets (fun h call => some (h.serve config retention sha256 call))
      (RecordHistory.Timely config) left calls) :
    Unseen config (calls.foldl (RecordHistory.serve config retention sha256) left)
      ((calls.filter fun call => !call.isCleanup).foldl
        (RecordHistory.serve config retention sha256) right) := by
  induction calls generalizing left right with
  | nil => exact h
  | cons call rest ih =>
    have hnext : Unseen config (left.serve config retention sha256 call) _ := h.serve htimely.1
    have hrest := htimely.2 _ rfl
    rw [List.foldl_cons, List.filter_cons]
    cases hcleanup : call.isCleanup with
    | true =>
      rw [hcleanup, if_pos rfl] at hnext
      exact ih hnext hrest
    | false =>
      rw [hcleanup, if_neg Bool.false_ne_true] at hnext
      exact ih hnext hrest

end

/-- Of the calls of any number of clients, one after the other, every one is answered, up to the id
of its record, as if the retention clean-ups between them had not been, as long as the clock does
not go back and no request is completed after its record has expired. -/
theorem cleanup_unseen (config : AppConfig) (retention : RetentionConfig) (sha256 : Bytes → String)
    (start : Instant) {calls : List RecordCall}
    (htimely : Meets (fun h call => some (h.serve config retention sha256 call))
      (RecordHistory.Timely config) { clock := start } calls) :
    (calls.foldl (RecordHistory.serve config retention sha256) { clock := start }).begun.map
        (fun start => (start.1, start.2.withoutId)) =
      ((calls.filter fun call => !call.isCleanup).foldl
        (RecordHistory.serve config retention sha256) { clock := start }).begun.map
          (fun start => (start.1, start.2.withoutId)) := by
  have hstart : Unseen config { clock := start } { clock := start } := by
    refine ⟨⟨fun _ => Iff.rfl, ?_, ?_⟩, fun _ => .none⟩
    · intro i j r s hr
      cases hr
    · intro i j r s hr
      cases hr
  have hlast := Unseen.run calls hstart htimely
  apply List.ext_getElem?
  intro i
  have hrel := hlast.begun i
  rw [List.getElem?_map, List.getElem?_map]
  generalize
      (calls.foldl (RecordHistory.serve config retention sha256) { clock := start }).begun[i]? =
        a at hrel ⊢
  generalize
      ((calls.filter fun call => !call.isCleanup).foldl
        (RecordHistory.serve config retention sha256)
    { clock := start }).begun[i]? = b at hrel ⊢
  cases hrel with
  | none => rfl
  | some halike =>
    cases halike with
    | same _ => rfl
    | recorded _ _ => rfl

/-- A crawl is begun and completed, repeated within its day, and again after a clean-up of the day
after. -/
def crawlDays : List RecordCall :=
  [.start (crawlOf 1) (fun _ => 0), .complete 0 binaryResponse 5, .cleanup 10,
    .start (crawlOf 1) (fun _ => 20), .cleanup 86400000001,
    .start (crawlOf 2) (fun _ => 86400000002), .start (crawlOf 1) (fun _ => 86400000003),
    .complete 3 binaryResponse 86400000004, .start (crawlOf 1) (fun _ => 86400000005)]

theorem crawl_days_unseen :
    (crawlDays.foldl (RecordHistory.serve {} {} plainHash) { clock := 0 }).begun.map
        (fun start => (start.1, start.2.withoutId)) =
      ((crawlDays.filter fun call => !call.isCleanup).foldl (RecordHistory.serve {} {} plainHash)
        { clock := 0 }).begun.map (fun start => (start.1, start.2.withoutId)) :=
  cleanup_unseen {} {} plainHash 0 (by decide)

end Fcam

import Fcam.Model.Purge

/-!
# What a purge leaves

Every reference to a purged row is nulled or deleted before it but for those of
`upstream_resource_bindings`. So a purge succeeds exactly when no binding refers to the row (and the
audit row can be written); what it leaves satisfies the foreign keys again, and no row of it refers
to what is gone.
-/

namespace Fcam

open Table

/-- The audit row of a purge of the key fits, and no binding refers to the key. -/
def KeyPurgeable (request : AdminRequest) (t : Tables) (id : Nat) (key : ApiKey) : Prop :=
  (auditKey request "key.purge" id key).fits = true ∧
    ¬t.db.bindings.PointsTo UpstreamResourceBinding.keyRef id

instance (request : AdminRequest) (t : Tables) (id : Nat) (key : ApiKey) :
    Decidable (KeyPurgeable request t id key) :=
  inferInstanceAs (Decidable (_ ∧ _))

/-- The audit row of a purge of the client fits, and no binding refers to the client. -/
def ClientPurgeable (request : AdminRequest) (t : Tables) (id : Nat) : Prop :=
  (auditClient request "client.purge" id).fits = true ∧
    ¬t.db.bindings.PointsTo UpstreamResourceBinding.clientRef id

instance (request : AdminRequest) (t : Tables) (id : Nat) :
    Decidable (ClientPurgeable request t id) :=
  inferInstanceAs (Decidable (_ ∧ _))

namespace Tables

variable {t : Tables} {request : AdminRequest} {id : Nat} {key : ApiKey}

/-! ### Keys -/

/-- The tables after a purge of a key. -/
def withoutKey (entry : AuditLog) (id : Nat) (t : Tables) : Tables where
  db :=
    { t.db with
      creditSnapshots := t.db.creditSnapshots.deleteRefs CreditSnapshot.keyRef id
      keys := t.db.keys.delete id }
  requestLogs := t.requestLogs.updateWhere RequestLog.apiKeyId id clearLogKey
  auditLogs := t.auditLogs.insert entry

theorem deleteKey_eq (hlogs : ¬t.requestLogs.PointsTo RequestLog.apiKeyId id) :
    t.deleteKey id =
      if t.db.bindings.PointsTo UpstreamResourceBinding.keyRef id then none
      else
        some
          { t with
            db :=
              { t.db with
                creditSnapshots := t.db.creditSnapshots.deleteRefs CreditSnapshot.keyRef id
                keys := t.db.keys.delete id } } := by
  rw [deleteKey, updateWhere_eq_self hlogs, deleteKeyRow,
    deleteRefs_eq_self not_pointsTo_deleteRefs]
  simp only [hlogs, false_or]

theorem purgeKey_eq (request : AdminRequest) (hkey : t.db.keys.get? id = some key) :
    t.purgeKey request id =
      if KeyPurgeable request t id key then
        (.ok (), t.withoutKey (auditKey request "key.purge" id key) id)
      else (.error (dbUnavailable "Database unavailable"), t) := by
  have hlogs :
      ¬(t.requestLogs.updateWhere RequestLog.apiKeyId id clearLogKey).PointsTo RequestLog.apiKeyId
        id :=
    not_pointsTo_updateWhere fun _ => rfl
  simp only [purgeKey, hkey, insertAudit]
  by_cases hfits : (auditKey request "key.purge" id key).fits = true
  · rw [if_pos hfits, Option.bind_some, deleteKey_eq hlogs]
    by_cases hbound : t.db.bindings.PointsTo UpstreamResourceBinding.keyRef id
    · rw [if_pos hbound, if_neg fun h => h.2 hbound]
      rfl
    · rw [if_neg hbound, if_pos ⟨hfits, hbound⟩]
      rfl
  · rw [if_neg hfits, if_neg fun h => hfits h.1]
    rfl

theorem ForeignKeys.withoutKey (h : t.ForeignKeys) {entry : AuditLog}
    (hfree : ¬t.db.bindings.PointsTo UpstreamResourceBinding.keyRef id) :
    (t.withoutKey entry id).ForeignKeys where
  keyClient := h.keyClient.deleteWhere _
  logClient := h.logClient.updateWhere fun _ => .inr rfl
  logKey := (h.logKey.updateWhere fun _ => .inl rfl).delete (not_pointsTo_updateWhere fun _ => rfl)
  snapshotKey := (h.snapshotKey.deleteWhere _).delete not_pointsTo_deleteRefs
  recordClient := h.recordClient
  bindingClient := h.bindingClient
  bindingKey := h.bindingKey.delete hfree

theorem keyFree_withoutKey {entry : AuditLog}
    (hfree : ¬t.db.bindings.PointsTo UpstreamResourceBinding.keyRef id) :
    (t.withoutKey entry id).KeyFree id where
  logs := not_pointsTo_updateWhere fun _ => rfl
  snapshots := not_pointsTo_deleteRefs
  bindings := hfree

/-! ### Clients -/

/-- The tables after a purge of a client. -/
def withoutClient (entry : AuditLog) (id : Nat) (t : Tables) : Tables where
  db :=
    { t.db with
      keys := t.db.keys.updateWhere ApiKey.clientId id clearKeyClient
      idempotencyRecords := t.db.idempotencyRecords.deleteRefs IdempotencyRecord.clientRef id
      clients := t.db.clients.delete id }
  requestLogs := t.requestLogs.updateWhere RequestLog.clientId id clearLogClient
  auditLogs := t.auditLogs.insert entry

theorem deleteClient_eq (hkeys : ¬t.db.keys.PointsTo ApiKey.clientId id)
    (hlogs : ¬t.requestLogs.PointsTo RequestLog.clientId id)
    (hrecords : ¬t.db.idempotencyRecords.PointsTo IdempotencyRecord.clientRef id) :
    t.deleteClient id =
      if t.db.bindings.PointsTo UpstreamResourceBinding.clientRef id then none
      else some { t with db := { t.db with clients := t.db.clients.delete id } } := by
  rw [deleteClient, if_neg hrecords, updateWhere_eq_self hlogs, updateWhere_eq_self hkeys,
    deleteClientRow]
  simp only [hkeys, hlogs, hrecords, false_or]

theorem purgeClient_eq (request : AdminRequest) (hclient : (t.db.clients.get? id).isSome = true) :
    t.purgeClient request id =
      if ClientPurgeable request t id then
        (.ok (), t.withoutClient (auditClient request "client.purge" id) id)
      else (.error (dbUnavailable "Database unavailable"), t) := by
  have hkeys :
      ¬(t.db.keys.updateWhere ApiKey.clientId id clearKeyClient).PointsTo ApiKey.clientId id :=
    not_pointsTo_updateWhere fun _ => rfl
  have hlogs :
      ¬(t.requestLogs.updateWhere RequestLog.clientId id clearLogClient).PointsTo
        RequestLog.clientId id :=
    not_pointsTo_updateWhere fun _ => rfl
  have hrecords : ¬(t.db.idempotencyRecords.deleteRefs IdempotencyRecord.clientRef id).PointsTo
      IdempotencyRecord.clientRef id := not_pointsTo_deleteRefs
  have hfound : (t.db.clients.get? id).isNone = false := by
    rw [Option.isNone_eq_false_iff, hclient]
  simp only [purgeClient, hfound, Bool.false_eq_true, if_false, insertAudit]
  by_cases hfits : (auditClient request "client.purge" id).fits = true
  · rw [if_pos hfits, Option.bind_some, deleteClient_eq hkeys hlogs hrecords]
    by_cases hbound : t.db.bindings.PointsTo UpstreamResourceBinding.clientRef id
    · rw [if_pos hbound, if_neg fun h => h.2 hbound]
      rfl
    · rw [if_neg hbound, if_pos ⟨hfits, hbound⟩]
      rfl
  · rw [if_neg hfits, if_neg fun h => hfits h.1]
    rfl

theorem ForeignKeys.withoutClient (h : t.ForeignKeys) {entry : AuditLog}
    (hfree : ¬t.db.bindings.PointsTo UpstreamResourceBinding.clientRef id) :
    (t.withoutClient entry id).ForeignKeys where
  keyClient :=
    (h.keyClient.updateWhere fun _ => .inl rfl).delete (not_pointsTo_updateWhere fun _ => rfl)
  logClient :=
    (h.logClient.updateWhere fun _ => .inl rfl).delete (not_pointsTo_updateWhere fun _ => rfl)
  logKey := (h.logKey.updateWhere (f := clearLogClient) fun _ => .inr rfl).updateTarget _ _ _
  snapshotKey := h.snapshotKey.updateTarget _ _ _
  recordClient := (h.recordClient.deleteWhere _).delete not_pointsTo_deleteRefs
  bindingClient := h.bindingClient.delete hfree
  bindingKey := h.bindingKey.updateTarget _ _ _

theorem clientFree_withoutClient {entry : AuditLog}
    (hfree : ¬t.db.bindings.PointsTo UpstreamResourceBinding.clientRef id) :
    (t.withoutClient entry id).ClientFree id where
  keys := not_pointsTo_updateWhere fun _ => rfl
  logs := not_pointsTo_updateWhere fun _ => rfl
  records := not_pointsTo_deleteRefs
  bindings := hfree

/-! ### The purges of the other runs -/

/-- On the tables the keys and clients are in, a purge that is written to the audit log is the one
the runs over them take. -/
theorem purgeKey_db (w : World) (hdb : w.db = t.db) (hkey : t.db.keys.get? id = some key)
    (hfits : (auditKey request "key.purge" id key).fits = true) :
    (t.purgeKey request id).2.db = (Fcam.purgeKey true id w).2.db := by
  have hfound : (w.key? id).isNone = false := by
    rw [World.key?, hdb, hkey]
    rfl
  have hany : (t.db.bindings.rows.any fun row => row.2.apiKeyId == id) =
      decide (t.db.bindings.PointsTo UpstreamResourceBinding.keyRef id) := by
    rw [Bool.eq_iff_iff, List.any_eq_true, decide_eq_true_eq]
    simp only [PointsTo, UpstreamResourceBinding.keyRef, beq_iff_eq, Option.some.injEq]
  rw [purgeKey_eq request hkey, Fcam.purgeKey, hfound, hdb, hany]
  by_cases hbound : t.db.bindings.PointsTo UpstreamResourceBinding.keyRef id
  · rw [if_neg fun h => h.2 hbound]
    simp [hbound, hdb]
  · rw [if_pos ⟨hfits, hbound⟩]
    simp [hbound, Tables.withoutKey, deleteRefs, Table.delete, CreditSnapshot.keyRef]

end Tables

/-! ### Success -/

/-- A purge of a key, or of a client, succeeds and leaves the foreign keys satisfied and no
reference to the row exactly when no binding refers to it and its audit row fits; otherwise it is
answered with an error and the tables are as before. -/
theorem purge_integral_iff {request : AdminRequest} {t : Tables} (h : t.ForeignKeys) :
    (∀ id key, t.db.keys.get? id = some key →
      (((t.purgeKey request id).1 = .ok () ∧ (t.purgeKey request id).2.ForeignKeys ∧
          (t.purgeKey request id).2.KeyFree id ∧
          (t.purgeKey request id).2.db.keys.get? id = none) ↔ KeyPurgeable request t id key) ∧
      (¬KeyPurgeable request t id key →
        t.purgeKey request id = (.error (dbUnavailable "Database unavailable"), t))) ∧
    ∀ id, (t.db.clients.get? id).isSome = true →
      (((t.purgeClient request id).1 = .ok () ∧ (t.purgeClient request id).2.ForeignKeys ∧
          (t.purgeClient request id).2.ClientFree id ∧
          (t.purgeClient request id).2.db.clients.get? id = none) ↔ ClientPurgeable request t id) ∧
      (¬ClientPurgeable request t id →
        t.purgeClient request id = (.error (dbUnavailable "Database unavailable"), t)) := by
  constructor
  · intro id key hkey
    have hpurge := t.purgeKey_eq request hkey
    refine ⟨⟨?_, ?_⟩, fun hnot => hpurge.trans (if_neg hnot)⟩
    · rintro ⟨hok, -⟩
      by_contra hnot
      rw [hpurge, if_neg hnot] at hok
      cases hok
    · intro hfree
      rw [hpurge, if_pos hfree]
      exact ⟨rfl, h.withoutKey hfree.2, Tables.keyFree_withoutKey hfree.2, get?_delete_self _ _⟩
  · intro id hclient
    have hpurge := t.purgeClient_eq request hclient
    refine ⟨⟨?_, ?_⟩, fun hnot => hpurge.trans (if_neg hnot)⟩
    · rintro ⟨hok, -⟩
      by_contra hnot
      rw [hpurge, if_neg hnot] at hok
      cases hok
    · intro hfree
      rw [hpurge, if_pos hfree]
      exact ⟨rfl, h.withoutClient hfree.2, Tables.clientFree_withoutClient hfree.2,
        get?_delete_self _ _⟩

/-- A client with a key, and a row of every other table that refers to them, but for the
bindings. -/
def dependants (bindings : Table UpstreamResourceBinding) : Tables where
  db :=
    { keys := Table.empty.insert { clientId := some 1 }
      clients := Table.empty.insert {}
      creditSnapshots :=
        Table.empty.insert
          { apiKeyId := 1, remainingCredits := 5, planCredits := 10, snapshotAt := 0,
            fetchSuccess := true }
      idempotencyRecords :=
        Table.empty.insert
          { clientId := 1, idempotencyKey := "k", requestHash := "h", expiresAt := none }
      bindings }
  requestLogs :=
    Table.empty.insert
      { requestId := [], clientId := some 1, apiKeyId := some 1, endpoint := [], method := [],
        createdAt := 0 }

theorem dependants_foreignKeys : (dependants .empty).ForeignKeys :=
  ⟨by decide, by decide, by decide, by decide, by decide, by decide, by decide⟩

theorem unbound_purged :
    (((dependants .empty).purgeKey {} 1).1 = .ok () ∧
        ((dependants .empty).purgeKey {} 1).2.ForeignKeys ∧
        ((dependants .empty).purgeKey {} 1).2.KeyFree 1 ∧
        ((dependants .empty).purgeKey {} 1).2.db.keys.get? 1 = none) ∧
      ((dependants .empty).purgeClient {} 1).1 = .ok () ∧
        ((dependants .empty).purgeClient {} 1).2.ForeignKeys ∧
        ((dependants .empty).purgeClient {} 1).2.ClientFree 1 ∧
        ((dependants .empty).purgeClient {} 1).2.db.clients.get? 1 = none :=
  ⟨((purge_integral_iff dependants_foreignKeys).1 1 { clientId := some 1 } rfl).1.mpr
      ⟨by decide, by decide⟩,
    ((purge_integral_iff dependants_foreignKeys).2 1 rfl).1.mpr ⟨by decide, by decide⟩⟩

/-- A resource bound to the key for the client. -/
def boundKey : Tables :=
  dependants
    (Table.empty.insert { clientId := 1, apiKeyId := 1, resourceType := "crawl", resourceId := [] })

/-- It keeps both from being purged. -/
theorem bound_not_purged :
    boundKey.ForeignKeys ∧
      boundKey.purgeKey {} 1 = (.error (dbUnavailable "Database unavailable"), boundKey) ∧
      boundKey.purgeClient {} 1 = (.error (dbUnavailable "Database unavailable"), boundKey) := by
  have hkeys : boundKey.ForeignKeys := by
    refine ⟨?_, ?_, ?_, ?_, ?_, ?_, ?_⟩ <;> decide
  have hbound : boundKey.db.bindings.PointsTo UpstreamResourceBinding.keyRef 1 ∧
      boundKey.db.bindings.PointsTo UpstreamResourceBinding.clientRef 1 := by decide
  exact ⟨hkeys, (Tables.purgeKey_eq _ rfl).trans (if_neg fun h => h.2 hbound.1),
    (Tables.purgeClient_eq _ rfl).trans (if_neg fun h => h.2 hbound.2)⟩

end Fcam

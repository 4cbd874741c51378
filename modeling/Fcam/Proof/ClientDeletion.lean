import Fcam.Base.Run
import Fcam.Model.ClientAdmin

/-!
# Whether a deletion is final

A deleted client is refused by the update of a client and left deleted by its deletion and by a new
token. A batch asks for no status: it enables or disables a deleted client like any other.
-/

namespace Fcam

variable {security : Security} {masterKey : Option Bytes} {enforced : Bool}

/-! ### What an operation does to a client -/

/-- What an operation makes of the row of a client. -/
inductive ClientWritten (op : ClientOperation) (id : Nat) : Option Client → Option Client →
    Prop where
  | kept (row : Option Client) : ClientWritten op id row row
  | created (client : Client) (hstatus : client.status ≠ .deleted) :
      ClientWritten op id none (some client)
  | updated (client : Client) (req : UpdateClientRequest) (hstatus : client.status ≠ .deleted) :
      ClientWritten op id (some client) (some (updateClientRow req client))
  | deleted (client : Client) : ClientWritten op id (some client) (some (deleteClientRow client))
  | rotated (client : Client) (tokenHash : String) : ClientWritten op id (some client)
      (some { client with tokenHash })
  | batched (client : Client) (clientIds : List Nat) (action : BatchAction)
      (hop : op = .batch clientIds action) (hmem : id ∈ clientIds) :
      ClientWritten op id (some client) (some (applyBatchActionToClient action client))
  | purged (client : Client) : ClientWritten op id (some client) none

theorem mem_deduplicateClientIds {id : Nat} {ids : List Nat} :
    id ∈ deduplicateClientIds ids ↔ id ∈ ids := by
  induction ids with
  | nil => exact Iff.rfl
  | cons first rest ih =>
    rw [deduplicateClientIds, List.mem_cons, List.mem_cons, List.mem_filter, ih, decide_eq_true_eq]
    tauto

theorem nodup_deduplicateClientIds (ids : List Nat) : (deduplicateClientIds ids).Nodup := by
  induction ids with
  | nil => exact List.nodup_nil
  | cons first rest ih =>
    rw [deduplicateClientIds, List.nodup_cons]
    exact ⟨by simp, ih.filter _⟩

@[simp] theorem World.get?_modifyClient (w : World) (id other : Nat) (f : Client → Client) :
    (w.modifyClient id f).db.clients.get? other =
      if other = id then (w.db.clients.get? other).map f else w.db.clients.get? other :=
  Table.get?_modify w.db.clients id other f

theorem get?_foldl_modifyClient (f : Client → Client) (id : Nat) {ids : List Nat}
    (hnodup : ids.Nodup) (w : World) :
    (ids.foldl (fun w id => w.modifyClient id f) w).db.clients.get? id =
      if id ∈ ids then (w.db.clients.get? id).map f else w.db.clients.get? id := by
  induction ids generalizing w with
  | nil => simp
  | cons first rest ih =>
    obtain ⟨hfirst, hrest⟩ := List.nodup_cons.mp hnodup
    rw [List.foldl_cons, ih hrest, World.get?_modifyClient]
    by_cases heq : id = first
    · subst heq
      simp [hfirst]
    · simp [heq]

theorem ClientWritten.modified {op : ClientOperation} {id other : Nat} {f : Client → Client}
    {w : World} (h :
      ∀ client, w.db.clients.get? id = some client → ClientWritten op id (some client)
      (some (f client))) :
    ClientWritten op other (w.db.clients.get? other)
    ((w.modifyClient id f).db.clients.get? other) := by
  rw [World.get?_modifyClient]
  split
  · next heq =>
    subst heq
    cases hclient : w.db.clients.get? other with
    | none => exact .kept none
    | some client => exact h client hclient
  · exact .kept _

theorem perform_written (op : ClientOperation) (w : World) (id : Nat) :
    ClientWritten op id (w.db.clients.get? id)
      ((op.perform security masterKey enforced w).db.clients.get? id) := by
  cases op with
  | create today token req =>
    simp only [ClientOperation.perform, createClient]
    split
    · exact .kept _
    · split
      · exact .kept _
      · rw [Table.get?_insert]
        split
        · next heq =>
          rw [heq, Table.get?_nextId]
          refine .created _ ?_
          cases req.isActive <;> exact nofun
        · exact .kept _
  | update other req =>
    rw [ClientOperation.perform, updateClient]
    split
    · exact .kept _
    · next client hclient =>
      split
      · exact .kept _
      · next hstatus =>
        split
        · exact .kept _
        · apply ClientWritten.modified
          intro found hfound
          rw [hclient, Option.some.injEq] at hfound
          exact hfound ▸ .updated client req hstatus
  | delete other =>
    rw [ClientOperation.perform, deleteClient]
    split
    · exact ClientWritten.modified fun client _ => .deleted client
    · exact .kept _
  | rotate token other =>
    simp only [ClientOperation.perform, rotateClientToken]
    split
    · exact .kept _
    · exact .kept _
    · split
      · exact .kept _
      · exact ClientWritten.modified fun client _ => .rotated client _
  | batch clientIds action =>
    simp only [ClientOperation.perform, batchUpdateClients]
    rw [get?_foldl_modifyClient _ id ((nodup_deduplicateClientIds clientIds).filter _)]
    split
    · next hmem =>
      cases hclient : w.db.clients.get? id with
      | none => exact .kept none
      | some client =>
        exact .batched client clientIds action rfl
          (mem_deduplicateClientIds.mp (List.mem_filter.mp hmem).1)
    · exact .kept _
  | purge other =>
    rw [ClientOperation.perform, World.purgeClient]
    split
    · exact .kept _
    · split
      · exact .kept _
      · simp only
        rw [Table.get?_deleteWhere]
        cases hclient : w.db.clients.get? id with
        | none => exact .kept none
        | some client =>
          rw [Option.filter_some]
          split
          · exact .kept _
          · exact .purged client

/-! ### Deleted clients -/

/-- Deleted clients are inactive. -/
def DeletedInactive (w : World) : Prop :=
  ∀ id client, w.db.clients.get? id = some client → client.status = .deleted →
    client.isActive = false

/-- The client is deleted. -/
def IsDeleted (id : Nat) (w : World) : Prop :=
  ∃ client, w.db.clients.get? id = some client ∧ client.status = .deleted

/-- The client is deleted and inactive, and no request is let in as one of the client's. -/
def ShutOut (security : Security) (masterKey : Option Bytes) (id : Nat) (w : World) : Prop :=
  ∃ client, w.db.clients.get? id = some client ∧ client.status = .deleted ∧
    client.isActive = false ∧
      ∀ authorization found, requireClient security masterKey authorization w ≠ .ok (id, found)

/-- The operation is a batch that enables or disables the client. -/
def Reinstates (id : Nat) (op : ClientOperation) : Prop :=
  ∃ clientIds action, op = .batch clientIds action ∧ id ∈ clientIds ∧ action ≠ .delete

theorem updateClientRow_status {req : UpdateClientRequest} {client : Client}
    (h : client.status ≠ .deleted) :
    (updateClientRow req client).status ≠ .deleted := by
  rw [updateClientRow]
  split
  · exact h
  · next isActive _ =>
    rw [setClientActive]
    cases isActive.getD false <;> exact nofun

theorem applyBatchAction_deleted {action : BatchAction} {client : Client} :
    (applyBatchActionToClient action client).status = .deleted ↔ action = .delete := by
  cases action with
  | enable => exact iff_of_false nofun nofun
  | disable => exact iff_of_false nofun nofun
  | delete => exact iff_of_true rfl rfl

/-- Every operation leaves deleted clients inactive. -/
theorem ClientWritten.deletedInactive {op : ClientOperation} {id : Nat}
    {before after : Option Client} (h : ClientWritten op id before after)
    (hinactive :
      ∀ client, before = some client → client.status = .deleted → client.isActive = false) :
    ∀ client, after = some client → client.status = .deleted → client.isActive = false := by
  intro row hrow hdeleted
  cases h with
  | kept => exact hinactive row hrow hdeleted
  | created client hstatus =>
    cases hrow
    exact absurd hdeleted hstatus
  | updated client req hstatus =>
    cases hrow
    exact absurd hdeleted (updateClientRow_status hstatus)
  | deleted client =>
    cases hrow
    rfl
  | rotated client tokenHash =>
    cases hrow
    exact hinactive client rfl hdeleted
  | batched client clientIds action =>
    cases hrow
    obtain rfl := applyBatchAction_deleted.mp hdeleted
    rfl
  | purged => cases hrow

/-- A deleted client that is not purged stays deleted if and only if the operation is no batch that
reinstates it. -/
theorem ClientWritten.deleted_iff {op : ClientOperation} {id : Nat} {client : Client}
    {after : Option Client} (h : ClientWritten op id (some client) after)
    (hdeleted : client.status = .deleted) (hafter : after.isSome)
    (honly : ∀ clientIds action, op = .batch clientIds action → id ∈ clientIds →
      after = some (applyBatchActionToClient action client)) :
    (∃ row, after = some row ∧ row.status = .deleted) ↔ ¬Reinstates id op := by
  constructor
  · rintro ⟨row, hrow, hstatus⟩ ⟨clientIds, action, hop, hmem, hne⟩
    rw [honly clientIds action hop hmem, Option.some.injEq] at hrow
    subst hrow
    exact hne (applyBatchAction_deleted.mp hstatus)
  · intro hnot
    cases h with
    | kept => exact ⟨client, rfl, hdeleted⟩
    | updated _ _ hstatus => exact absurd hdeleted hstatus
    | deleted => exact ⟨_, rfl, rfl⟩
    | rotated _ tokenHash => exact ⟨_, rfl, hdeleted⟩
    | batched _ clientIds action hop hmem =>
      refine ⟨_, rfl, applyBatchAction_deleted.mpr ?_⟩
      by_contra hne
      exact hnot ⟨clientIds, action, hop, hmem, hne⟩
    | purged => cases hafter

theorem batch_get? {clientIds : List Nat} {id : Nat} (hmem : id ∈ clientIds) (action : BatchAction)
    {w : World} {client : Client} (hclient : w.db.clients.get? id = some client) :
    ((ClientOperation.batch clientIds action).perform security masterKey enforced w).db.clients.get?
      id =
      some (applyBatchActionToClient action client) := by
  simp only [ClientOperation.perform, batchUpdateClients]
  rw [get?_foldl_modifyClient _ id ((nodup_deduplicateClientIds clientIds).filter _), if_pos,
    hclient, Option.map_some]
  refine List.mem_filter.mpr ⟨mem_deduplicateClientIds.mpr hmem, ?_⟩
  rw [hclient, Option.isSome_some]

/-- A token of an inactive client lets nobody in. -/
theorem requireClient_ne {w : World} {id : Nat} {client : Client}
    (hclient : w.db.clients.get? id = some client) (hinactive : client.isActive = false)
    (authorization : Option String) (found : Client) :
    requireClient security masterKey authorization w ≠ .ok (id, found) := by
  intro h
  simp only [requireClient] at h
  split at h
  · cases h
  · cases h
  · split at h
    · cases h
    · next other row hrows =>
      split at h
      · next hactive =>
        cases h
        have hmem := Table.mem_select.mp (hrows ▸ List.mem_singleton_self _ : (id, found) ∈ _)
        rw [hclient, Option.some.injEq] at hmem
        obtain ⟨rfl, _⟩ := hmem
        rw [hinactive] at hactive
        cases hactive
      · cases h
    · cases h

/-! ### Runs -/

section Run

variable {w s : World} {id : Nat} {before after : List ClientOperation}

theorem perform_deletedInactive (op : ClientOperation) (h : DeletedInactive w) :
    DeletedInactive (op.perform security masterKey enforced w) :=
  fun id => (perform_written op w id).deletedInactive (h id)

theorem exec_deletedInactive (hexec :
    exec (ClientOperation.next security masterKey enforced) w before = some s)
    (h : DeletedInactive w) : DeletedInactive s := by
  refine exec_invariant (fun s op s' hs hnext => ?_) hexec h
  rw [ClientOperation.next, Option.some.injEq] at hnext
  exact hnext ▸ perform_deletedInactive op hs

theorem perform_isDeleted_iff {op : ClientOperation} (hdeleted : IsDeleted id w)
    (hkept : ((op.perform security masterKey enforced w).db.clients.get? id).isSome) :
    IsDeleted id (op.perform security masterKey enforced w) ↔ ¬Reinstates id op := by
  obtain ⟨client, hclient, hstatus⟩ := hdeleted
  have hwritten : ClientWritten op id (w.db.clients.get? id)
    ((op.perform security masterKey enforced w).db.clients.get? id) := perform_written op w id
  rw [hclient] at hwritten
  refine hwritten.deleted_iff hstatus hkept fun clientIds action hop hmem => ?_
  subst hop
  exact batch_get? hmem action hclient

theorem IsDeleted.shutOut (hdeleted : IsDeleted id s) (hinactive : DeletedInactive s) :
    ShutOut security masterKey id s := by
  obtain ⟨client, hclient, hstatus⟩ := hdeleted
  have hoff := hinactive id client hclient hstatus
  exact ⟨client, hclient, hstatus, hoff, requireClient_ne hclient hoff⟩

theorem shutOut_iff (hinactive : DeletedInactive s) (hdeleted : IsDeleted id s)
    (hkept : Meets (ClientOperation.next security masterKey enforced)
      (fun u op => ((op.perform security masterKey enforced u).db.clients.get? id).isSome) s
      after) :
    (∀ seen rest u, after = seen ++ rest →
      exec (ClientOperation.next security masterKey enforced) s seen = some u →
      ShutOut security masterKey id u) ↔ ∀ op ∈ after, ¬Reinstates id op := by
  induction after generalizing s with
  | nil =>
    refine iff_of_true (fun seen rest u hafter hseen => ?_) (by simp)
    obtain ⟨rfl, -⟩ := List.append_eq_nil_iff.mp hafter.symm
    rw [exec_nil, Option.some.injEq] at hseen
    exact hseen ▸ hdeleted.shutOut hinactive
  | cons op after ih =>
    have hnext : ClientOperation.next security masterKey enforced s op =
      some (op.perform security masterKey enforced s) := rfl
    have hstep := perform_isDeleted_iff hdeleted hkept.1
    have hrest :=
      fun hdeleted' => ih (perform_deletedInactive op hinactive) hdeleted' (hkept.2 _ hnext)
    rw [List.forall_mem_cons]
    constructor
    · intro hshut
      have hdeleted' : IsDeleted id (op.perform security masterKey enforced s) := by
        obtain ⟨client, hclient, hstatus, _⟩ :=
          hshut [op] after _ rfl (exec_cons_eq_some.mpr ⟨_, hnext, rfl⟩)
        exact ⟨client, hclient, hstatus⟩
      refine ⟨hstep.mp hdeleted', (hrest hdeleted').mp fun seen rest u hafter hseen => ?_⟩
      refine hshut (op :: seen) rest u (by rw [hafter, List.cons_append]) ?_
      exact exec_cons_eq_some.mpr ⟨_, hnext, hseen⟩
    · rintro ⟨hop, hops⟩ seen rest u hafter hseen
      cases seen with
      | nil =>
        rw [exec_nil, Option.some.injEq] at hseen
        exact hseen ▸ hdeleted.shutOut hinactive
      | cons first seen =>
        rw [List.cons_append, List.cons.injEq] at hafter
        obtain ⟨rfl, hafter⟩ := hafter
        obtain ⟨_, hfirst, hseen⟩ := exec_cons_eq_some.mp hseen
        rw [hnext, Option.some.injEq] at hfirst
        subst hfirst
        exact (hrest (hstep.mpr hop)).mpr hops seen rest u hafter hseen

/-- A client that was deleted stays deleted, and shut out, as long as it is not purged, if and only
if no batch enables or disables it. -/
theorem deletion_final_iff (hinactive : DeletedInactive w)
    (hbefore : exec (ClientOperation.next security masterKey enforced) w before = some s)
    (hdeleted : IsDeleted id s) (hkept : Meets (ClientOperation.next security masterKey enforced)
      (fun u op => ((op.perform security masterKey enforced u).db.clients.get? id).isSome) s
      after) :
    (∀ seen rest u, after = seen ++ rest →
      exec (ClientOperation.next security masterKey enforced) s seen = some u →
      ShutOut security masterKey id u) ↔ ∀ op ∈ after, ¬Reinstates id op :=
  shutOut_iff (exec_deletedInactive hbefore hinactive) hdeleted hkept

end Run

/-- Two clients are created, and the first one is deleted. -/
def firstDeleted : List ClientOperation :=
  [.create 0 "first" { name := "first" }, .create 0 "second" { name := "second" }, .delete 1]

/-- A client that a batch enables after its deletion is let in with its old token. -/
theorem enabled_after_deletion :
    ∃ s u, exec (ClientOperation.next .plain (some []) true) {} firstDeleted = some s ∧
      IsDeleted 1 s ∧
      exec (ClientOperation.next .plain (some []) true) s [.batch [1, 2] .enable] = some u ∧
        ¬IsDeleted 1 u ∧
      ∃ client, requireClient .plain (some []) (some "Bearer first") u = .ok (1, client) := by
  refine ⟨_, _, rfl, ⟨_, rfl, rfl⟩, rfl, ?_, _, rfl⟩
  rintro ⟨client, hclient, hstatus⟩
  cases hclient
  cases hstatus

/-- After updates, a new token and batches over it and the other client the deleted client is still
shut out. -/
theorem firstDeleted_final :
    ∃ s u, exec (ClientOperation.next .plain (some []) true) {} firstDeleted = some s ∧
      exec (ClientOperation.next .plain (some []) true) s
        [.update 1 { isActive := some (some true) },
        .rotate "again" 1, .batch [2] .disable, .batch [1, 2] .delete, .delete 1] = some u ∧
      ShutOut .plain (some []) 1 u := by
  obtain ⟨s, hs⟩ :
      ∃ s, exec (ClientOperation.next .plain (some []) true) {} firstDeleted = some s := ⟨_, rfl⟩
  have hnone : DeletedInactive {} := fun id client hclient => by cases hclient
  have hdeleted : IsDeleted 1 s := by
    obtain rfl := Option.some.inj hs
    exact ⟨_, rfl, rfl⟩
  obtain ⟨u, hu⟩ :
      ∃ u, exec (ClientOperation.next .plain (some []) true) s
        [.update 1 { isActive := some (some true) }, .rotate "again" 1, .batch [2] .disable,
          .batch [1, 2] .delete, .delete 1] = some u := ⟨_, rfl⟩
  refine ⟨s, u, hs, hu,
    (deletion_final_iff hnone hs hdeleted ?_).mpr ?_ _ [] u (List.append_nil _).symm hu⟩
  · obtain rfl := Option.some.inj hs
    exact meets_cons rfl rfl
      (meets_cons rfl rfl (meets_cons rfl rfl (meets_cons rfl rfl (meets_cons rfl rfl trivial))))
  · simp [Reinstates]

end Fcam

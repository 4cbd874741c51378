import Fcam.Model.AdminSession
import Fcam.Proof.ClientDeletion

/-!
# Changes and their audit rows

Wherever an operation of the control plane fails or breaks off, a row of a client or a key that it
has changed is named by an audit row of the operation, committed with the change. A test of a key is
the exception: the forwarder commits the outcome, and the audit row follows by itself.
-/

namespace Fcam

/-- A row an administrator's operation may change. -/
inductive AdminRow where
  | key (id : Nat)
  | client (id : Nat)

/-- The row is as it was. -/
def AdminRow.Kept (w v : World) : AdminRow → Prop
  | key id => v.key? id = w.key? id
  | client id => v.db.clients.get? id = w.db.clients.get? id

instance (w v : World) : (row : AdminRow) → Decidable (row.Kept w v)
  | .key id => inferInstanceAs (Decidable (v.key? id = w.key? id))
  | .client id => inferInstanceAs (Decidable (v.db.clients.get? id = w.db.clients.get? id))

section

variable (request : AdminRequest) (actions : List String)

/-- The audit row is that of one of the actions on the row, or on the keys as a whole. -/
def AuditLog.Names (entry : AuditLog) : AdminRow → Prop
  | .key id =>
    ∃ action ∈ actions,
      (∃ provider, entry = audit request action (keyResource provider) (toString id)) ∨
      entry = audit request action "api_key" "all"
  | .client id => ∃ action ∈ actions, entry = auditClient request action id

/-- The audit row names the row, or the client a key belonged to. -/
def AuditLog.Explains (entry : AuditLog) (w : World) (row : AdminRow) : Prop :=
  entry.Names request actions row ∨
    ∃ id key client, row = .key id ∧ w.key? id = some key ∧ key.clientId = some client ∧
      entry.Names request actions (.client client)

/-- There is an audit row of one of the actions about the row. -/
def Audited (w : World) (store : Store World AdminEntry) (row : AdminRow) : Prop :=
  ∃ entry, .audit entry ∈ store.log ∧ entry.Explains request actions w row

/-- Every changed row has its audit row. -/
def Explained (w : World) (store : Store World AdminEntry) : Prop :=
  ∀ row : AdminRow, ¬row.Kept w store.rows → Audited request actions w store row

/-- The outcome of a test of the key is committed, and the audit row of the test is not. -/
def TestPending (log : List AdminEntry) (id : Nat) : Prop :=
  ∃ before after, log = before ++ .outcome id :: after ∧
    ∀ entry, .audit entry ∈ after → ¬entry.Names request ["key.test"] (.key id)

/-- Every changed row has its audit row, up to those of keys whose tests are not audited yet. -/
def ExplainedUpToTests (w : World) (store : Store World AdminEntry) : Prop :=
  ∀ row : AdminRow, ¬row.Kept w store.rows →
    Audited request actions w store row ∨ ∃ id, row = .key id ∧ TestPending request store.log id

end

/-- The operation fetches credits. -/
def AdminOperation.refreshes : AdminOperation → Bool
  | refreshKey .. => true
  | refreshAll .. => true
  | _ => false

/-- The operation tests a key or fetches credits. -/
def AdminOperation.probes : AdminOperation → Bool
  | testKey .. => true
  | batchKeys _ _ req => req.test.isSome
  | op => op.refreshes

/-! ### Which rows a change touches -/

section

variable {w v : World} {row : AdminRow}

theorem AdminRow.kept_rfl : row.Kept w w := by
  cases row <;> exact rfl

theorem AdminRow.Kept.trans {u : World} (h : row.Kept w v) (h' : row.Kept v u) : row.Kept w u := by
  cases row with
  | key id => exact Eq.trans h' h
  | client id => exact Eq.trans h' h

/-- All changed rows are among these. -/
def ChangesOnly (w v : World) (rows : AdminRow → Prop) : Prop :=
  ∀ row : AdminRow, ¬row.Kept w v → rows row

theorem changesOnly_rfl (rows : AdminRow → Prop) : ChangesOnly w w rows :=
  fun _ h => absurd AdminRow.kept_rfl h

theorem changesOnly_modifyKey (w : World) (id : Nat) (f : ApiKey → ApiKey) :
    ChangesOnly w (w.modifyKey id f) fun row => row = .key id := by
  intro row h
  cases row with
  | key other =>
    by_contra hne
    refine h ?_
    rw [AdminRow.Kept, World.key?_modifyKey, if_neg (fun heq => hne (congrArg AdminRow.key heq))]
  | client other => exact absurd rfl h

theorem ChangesOnly.mono {rows rows' : AdminRow → Prop} (h : ChangesOnly w v rows)
    (himp : ∀ row, rows row → rows' row) :
    ChangesOnly w v rows' := fun row hrow => himp row (h row hrow)

theorem ChangesOnly.trans {u : World} {rows : AdminRow → Prop} (h : ChangesOnly w v rows)
    (h' : ChangesOnly v u rows) :
    ChangesOnly w u rows := by
  intro row hrow
  by_cases hkept : row.Kept w v
  · exact h' row fun hsecond => hrow (hkept.trans hsecond)
  · exact h row hkept

end

/-- All changed rows are named by one of the entries. -/
def NamedBy (request : AdminRequest) (actions : List String) (w : World)
    (change : World × List AuditLog) : Prop :=
  ChangesOnly w change.1 fun row => ∃ entry ∈ change.2, entry.Names request actions row

section

variable {request : AdminRequest} {actions : List String} {action : String}

end

/-! ### Handlers -/

section Handlers

variable {fwd : Forwarder} {enforced : Bool} {request : AdminRequest} (w : World)

variable {w} {actions : List String}

theorem Audited.append {store : Store World AdminEntry} {row : AdminRow}
    (h : Audited request actions w store row) (rows : World) (more : List AdminEntry) :
    Audited request actions w { rows, log := store.log ++ more } row := by
  obtain ⟨entry, hmem, hexplains⟩ := h
  exact ⟨entry, List.mem_append_left _ hmem, hexplains⟩

/-- The audit rows of a transaction are in the log after it. -/
theorem Audited.of_mem {change : World × List AuditLog} {entry : AuditLog} {row : AdminRow}
    (hmem : entry ∈ change.2) (hexplains : entry.Explains request actions w row) (rows : World)
    (log : List AdminEntry) :
    Audited request actions w { rows, log := log ++ (withAudit change).2 } row :=
  ⟨entry, List.mem_append_right _ (List.mem_map_of_mem hmem), hexplains⟩

/-- The changes so far, and those of one more transaction. -/
theorem Explained.commit {change : World → World × List AuditLog} {store : Store World AdminEntry}
    (h : Explained request actions w store)
    (hnamed : NamedBy request actions store.rows (change store.rows)) :
    Explained request actions w (Transactions.commit (fun w => withAudit (change w)) store) := by
  intro row hrow
  by_cases hkept : row.Kept w store.rows
  · obtain ⟨entry, hmem, hnames⟩ := hnamed row fun hsecond => hrow (hkept.trans hsecond)
    exact Audited.of_mem hmem (.inl hnames) _ _
  · exact (h row hkept).append _ _

/-- More entries settle a test, or leave it pending. -/
theorem TestPending.append {log : List AdminEntry} {id : Nat} (h : TestPending request log id)
    (more : List AdminEntry) :
    (∃ entry, .audit entry ∈ more ∧ entry.Names request ["key.test"] (.key id)) ∨
      TestPending request (log ++ more) id := by
  obtain ⟨before, after, rfl, hnone⟩ := h
  by_cases hsettled : ∃ entry, .audit entry ∈ more ∧ entry.Names request ["key.test"] (.key id)
  · exact .inl hsettled
  · refine .inr ⟨before, after ++ more, List.append_assoc _ _ _, fun entry hmem hnames => ?_⟩
    rcases List.mem_append.mp hmem with hold | hnew
    · exact hnone entry hold hnames
    · exact hsettled ⟨entry, hnew, hnames⟩

theorem AuditLog.Names.mono {entry : AuditLog} {row : AdminRow} {fewer : List String}
    (h : entry.Names request fewer row) (hsubset : fewer ⊆ actions) :
    entry.Names request actions row := by
  cases row with
  | key id =>
    obtain ⟨action, haction, hentry⟩ := h
    exact ⟨action, hsubset haction, hentry⟩
  | client id =>
    obtain ⟨action, haction, hentry⟩ := h
    exact ⟨action, hsubset haction, hentry⟩

/-- The changes so far, and those of one more transaction with its audit rows. -/
theorem ExplainedUpToTests.commit {change : World → World × List AuditLog}
    {store : Store World AdminEntry} (htest : "key.test" ∈ actions)
    (h : ExplainedUpToTests request actions w store)
    (hnamed : NamedBy request actions store.rows (change store.rows)) :
    ExplainedUpToTests request actions w
      (Transactions.commit (fun w => withAudit (change w)) store) := by
  intro row hrow
  by_cases hkept : row.Kept w store.rows
  · obtain ⟨entry, hmem, hnames⟩ := hnamed row fun hsecond => hrow (hkept.trans hsecond)
    exact .inl (Audited.of_mem hmem (.inl hnames) _ _)
  · rcases h row hkept with haudited | ⟨id, rfl, hpending⟩
    · exact .inl (haudited.append _ _)
    · rcases hpending.append (withAudit (change store.rows)).2 with ⟨entry, hmem, hnames⟩ | hstill
      · exact .inl ⟨entry, List.mem_append_right _ hmem,
          .inl (hnames.mono fun _ hmem => List.mem_singleton.mp hmem ▸ htest)⟩
      · exact .inr ⟨id, rfl, hstill⟩

/-- The outcome of a test leaves the rows explained, up to that of its key. -/
theorem ExplainedUpToTests.outcome {store : Store World AdminEntry} {v : World} {id : Nat}
    (h : ExplainedUpToTests request actions w store)
    (honly : ChangesOnly store.rows v fun row => row = .key id) :
    ExplainedUpToTests request actions w
      (Transactions.commit (fun _ => (v, [.outcome id])) store) := by
  intro row hrow
  by_cases hkept : row.Kept w store.rows
  · refine .inr ⟨id, honly row fun hsecond => hrow (hkept.trans hsecond), store.log, [], rfl, ?_⟩
    exact fun entry hmem => absurd hmem List.not_mem_nil
  · rcases h row hkept with haudited | ⟨other, rfl, hpending⟩
    · exact .inl (haudited.append _ _)
    · rcases hpending.append [.outcome id] with ⟨entry, hmem, -⟩ | hstill
      · cases List.mem_singleton.mp hmem
      · exact .inr ⟨other, rfl, hstill⟩

end Handlers

/-! ### Tests -/

theorem recordFailure_changes (config : AppConfig) (now : Instant) (id : Nat) (w : World) :
    ChangesOnly w (recordFailure config now id w) fun row => row = .key id := by
  rw [recordFailure]
  split
  · exact changesOnly_rfl _
  · next key hkey =>
    simp only
    split
    · exact changesOnly_rfl _
    · split
      · exact changesOnly_rfl _
      · exact changesOnly_modifyKey w id _

theorem settleTest_changes (config : AppConfig) (outcome : Outcome) (now : Instant) (id : Nat)
    (w : World) :
    ChangesOnly w (settleTest config outcome now id w) fun row => row = .key id := by
  cases outcome with
  | timeout => exact recordFailure_changes config now id w
  | httpError text => exact recordFailure_changes config now id w
  | exception text => exact changesOnly_rfl _
  | unsent text => exact changesOnly_rfl _
  | response r =>
    simp only [settleTest]
    split
    · exact changesOnly_modifyKey w id _
    split
    · exact changesOnly_modifyKey w id _
    split
    · exact changesOnly_modifyKey w id _
    split
    · exact recordFailure_changes config now id w
    · exact changesOnly_rfl _

/-- A test writes the row of its key at most, and no row if it raises. -/
structure TestChanges (w : World) (id : Nat) (tested : KeyTested) : Prop where
  only : ChangesOnly w tested.world fun row => row = .key id
  raised : ∀ raised, tested.result = .error raised → tested.world = w

theorem testKeyWith_changes (fwd : Forwarder) (env : TestEnv) (requestId : String) (id : Nat)
    (w : World) (provider : Provider) (candidates : List String) (body : Json) (masterKey : Bytes)
    (key : ApiKey) :
    TestChanges w id
      (testKeyWith fwd env requestId id w provider candidates body masterKey key) := by
  rw [testKeyWith]
  split
  · constructor
    · exact changesOnly_modifyKey w id _
    · intro raised hraised
      cases hraised
  split
  · exact ⟨changesOnly_rfl _, fun _ _ => rfl⟩
  simp only
  generalize ((probes env.outcome 0 candidates).getLast?.map Prod.snd).getD
      (.exception "AssertionError") = outcome
  constructor
  · exact settleTest_changes fwd.config outcome env.now id w
  · intro raised hraised
    cases outcome with
    | response r => cases hraised
    | timeout => cases hraised
    | httpError text => cases hraised
    | exception text => rfl
    | unsent text => rfl

theorem testKey_changes (fwd : Forwarder) (env : TestEnv) (requestId : String) (id : Nat)
    (w : World) (mode : String) (testUrl : PyStr) (key : ApiKey) :
    TestChanges w id (testKey fwd env requestId id w mode testUrl key) := by
  rw [testKey]
  simp only
  split
  · exact ⟨changesOnly_rfl _, fun _ _ => rfl⟩
  split
  · exact ⟨changesOnly_rfl _, fun _ _ => rfl⟩
  split
  · rw [testKeyExa]
    exact testKeyWith_changes fwd env requestId id w _ _ _ _ key
  · exact testKeyWith_changes fwd env requestId id w _ _ _ _ key

section

variable {fwd : Forwarder} {request : AdminRequest} {actions : List String} {w : World}
  {env : TestEnv} {envs : Nat → TestEnv} {requestId mode : String} {testUrl : PyStr} {id : Nat}
  {store last : Store World AdminEntry}

end

/-! ### Where nothing fails -/

section Complete

variable {fwd : Forwarder} {enforced : Bool} {request : AdminRequest}

theorem audited_rows {β : Type} (handled : Except FcamError β × World)
    (entries : β → List AuditLog) :
    (audited handled entries).1 = handled.2 := by
  obtain ⟨result, v⟩ := handled
  cases result <;> rfl

theorem importItemsAudited_rows (today : Day) (masterKey : Bytes) (clientId : Option Nat)
    (req : ImportRequest) (nonces : Nat → Bytes × Bytes) {savepoint : Nat → Option String}
    (hsavepoint : ∀ lineNo, savepoint lineNo = none) (items : List ParsedKeyLine)
    (result : ImportResult) (w : World) :
    (importItemsAudited fwd request today masterKey clientId req nonces savepoint items result
      w).1 =
      (importItems fwd.security today masterKey clientId req nonces items result w).2 := by
  induction items generalizing result w with
  | nil => rfl
  | cons item rest ih =>
    rw [importItemsAudited, importItems, hsavepoint]
    exact ih _ _

theorem testKeySession_rows (env : TestEnv) (requestId mode : String) (testUrl : PyStr) (id : Nat)
    (store : Store World AdminEntry) :
    ((testKeySession fwd request env requestId mode testUrl id store.rows).complete store).rows =
      (store.rows.key? id).elim store.rows fun key =>
        (testKey fwd env requestId id store.rows mode testUrl key).world := by
  rw [testKeySession]
  cases store.rows.key? id with
  | none => rfl
  | some key =>
    have hchanges := testKey_changes fwd env requestId id store.rows mode testUrl key
    rw [Option.elim_some]
    dsimp only
    cases hresult : (testKey fwd env requestId id store.rows mode testUrl key).result with
    | error raised => exact (hchanges.raised raised hresult).symm
    | ok result => rfl

theorem refreshAllSession_rows (masterKey : Bytes) (force : Bool) (now : Instant)
    (env : Nat → FetchEnv) (requestId : Nat → String) (keys : List (Nat × ApiKey))
    (store : Store World AdminEntry) :
    ((refreshAllSession fwd masterKey force now env requestId keys).complete store).rows =
      (refreshAllKeys fwd.config fwd.security masterKey force now env requestId keys
        store.rows).1 := by
  induction keys generalizing store with
  | nil => rfl
  | cons row rest ih =>
    obtain ⟨id, key⟩ := row
    rw [refreshAllSession, refreshAllKeys]
    split
    · exact ih store
    · exact ih _

/-- The ids a batch found. -/
def foundIds (results : List (Nat × Except FcamError ApiKey)) : List Nat :=
  results.filterMap fun result => match result.2 with
    | .ok _ => some result.1
    | .error _ => none

theorem batchTestsSession_rows (env : Nat → TestEnv) (requestId mode : String) (testUrl : PyStr)
    (results : List (Nat × Except FcamError ApiKey)) (store : Store World AdminEntry) :
    ((batchTestsSession fwd request env requestId mode testUrl (foundIds results)
      store.rows).complete store).rows =
      (batchTests fwd env requestId mode testUrl results store.rows).2 := by
  induction results generalizing store with
  | nil => rfl
  | cons result rest ih =>
    obtain ⟨id, result⟩ := result
    cases result with
    | error error => exact ih store
    | ok row =>
      show ((batchTestsSession fwd request env requestId mode testUrl (id :: foundIds rest)
        store.rows).complete store).rows = _
      rw [batchTestsSession, Transactions.complete_andThen, ih, testKeySession_rows, batchTests]
      cases store.rows.key? id with
      | none => rfl
      | some key => rfl

theorem batchRow_of_not_changes {req : BatchKeysRequest} (h : req.changes = false) (key : ApiKey) :
    batchRow req key = key := by
  obtain ⟨ids, patch, resetCooldown, softDelete, test⟩ := req
  simp only [BatchKeysRequest.changes, Bool.or_eq_false_iff] at h
  obtain ⟨⟨rfl, rfl⟩, hpatch⟩ := h
  cases patch with
  | none => rfl
  | some patch =>
    obtain ⟨name, planType, dailyQuota, maxConcurrent, rateLimitPerMin, isActive⟩ := patch
    simp only [Option.any_some, Bool.or_eq_false_iff, Option.isSome_eq_false_iff,
      Option.isNone_iff_eq_none] at hpatch
    obtain ⟨⟨⟨⟨⟨rfl, rfl⟩, rfl⟩, rfl⟩, rfl⟩, rfl⟩ := hpatch
    rfl

theorem modifyKey_of_id {f : ApiKey → ApiKey} (h : ∀ key, f key = key) (id : Nat) (w : World) :
    w.modifyKey id f = w := by
  have hrow : ∀ (i : Nat) (row : ApiKey), (if i = id then f row else row) = row :=
    fun i row => by rw [h, ite_self]
  have hkeys : w.db.keys.modify id f = w.db.keys := by
    simp only [Table.modify, Table.mapRows, hrow, List.map_id']
  rw [World.modifyKey, hkeys]
  rfl

theorem batchLoopSession_rows (req : BatchKeysRequest) (tests : List Nat → World → AdminSession)
    (ids done : List Nat) (store : Store World AdminEntry) :
    ∃ log, (batchLoopSession request req tests ids done store.rows).complete store =
      (tests (done ++ foundIds (batchLoop req ids store.rows).1)
        (batchLoop req ids store.rows).2).complete
        { rows := (batchLoop req ids store.rows).2, log } := by
  induction ids generalizing done store with
  | nil => exact ⟨store.log, by rw [batchLoop, foundIds, List.filterMap_nil, List.append_nil]; rfl⟩
  | cons id rest ih =>
    rw [batchLoopSession, batchLoop]
    cases hkey : store.rows.key? id with
    | none => exact ih done store
    | some key =>
      have hids : ∀ v, done ++ foundIds ((id, .ok (batchRow req key)) :: (batchLoop req rest v).1) =
          (done ++ [id]) ++ foundIds (batchLoop req rest v).1 := by
        intro v
        rw [List.append_assoc]
        rfl
      simp only [hids]
      cases hchanges : req.changes with
      | true => exact ih (done ++ [id]) { rows := store.rows.modifyKey id (batchRow req), log := _ }
      | false =>
        rw [modifyKey_of_id (batchRow_of_not_changes hchanges) id store.rows]
        exact ih (done ++ [id]) store

/-- Where nothing fails the transactions of an operation leave the state its handler does. -/
theorem complete_rows (op : AdminOperation) (hsavepoints : op.savepointsHold) (w : World) :
    ((op.session fwd enforced request w).complete { rows := w, log := [] }).rows =
      op.perform fwd enforced w := by
  cases op with
  | createKey today nonce req => exact audited_rows _ _
  | importKeys today nonces savepoint items failures req =>
    simp only [AdminOperation.session, importKeysSession, auditedOnce, withAudit, Transactions.once,
      Transactions.complete, Transactions.commit, AdminOperation.perform, importKeys]
    cases fwd.masterKey with
    | none => rfl
    | some masterKey =>
      cases requestedClient w req.clientId with
      | error error => rfl
      | ok clientId =>
        simp only
        split
        · rfl
        · exact importItemsAudited_rows today masterKey clientId req nonces hsavepoints items _ w
  | updateKey nonce id req => exact audited_rows _ _
  | deleteKey id => exact audited_rows _ _
  | purgeKey id => exact audited_rows _ _
  | batchKeys env requestId req =>
    simp only [AdminOperation.session, batchKeysSession, AdminOperation.perform, batchKeys]
    cases req.test with
    | none =>
      obtain ⟨log, hrows⟩ := @batchLoopSession_rows request req (fun _ _ => .done) req.ids []
        { rows := w, log := [] }
      exact congrArg Store.rows hrows
    | some test =>
      obtain ⟨mode, testUrl⟩ := test
      simp only
      split
      · rfl
      split
      · rfl
      obtain ⟨log, hrows⟩ := @batchLoopSession_rows request req
        (batchTestsSession fwd request env requestId mode testUrl) req.ids []
          { rows := w, log := [] }
      refine (congrArg Store.rows hrows).trans ?_
      exact batchTestsSession_rows env requestId mode testUrl
        _ { rows := (batchLoop req req.ids w).2, log }
  | resetKeysQuota today => rfl
  | testKey env requestId mode testUrl id =>
    exact testKeySession_rows env requestId mode testUrl id { rows := w, log := [] }
  | refreshKey now env requestId id =>
    rw [AdminOperation.session, refreshKeySession, AdminOperation.perform]
    cases fwd.masterKey with
    | none => rfl
    | some masterKey => rfl
  | refreshAll keyIds force now env requestId =>
    rw [AdminOperation.session, AdminOperation.perform]
    cases fwd.masterKey with
    | none => rfl
    | some masterKey =>
      exact refreshAllSession_rows masterKey force now env requestId _ { rows := w, log := [] }
  | createClient today token req => exact audited_rows _ _
  | updateClient id req => exact audited_rows _ _
  | deleteClient id => exact audited_rows _ _
  | purgeClient id => exact audited_rows _ _
  | rotateClientToken token id => exact audited_rows _ _
  | batchClients clientIds action => rfl

end Complete

section

variable {fwd : Forwarder} {enforced : Bool} {request : AdminRequest} {w : World}

end

end Fcam

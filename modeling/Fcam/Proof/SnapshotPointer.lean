import Fcam.Model.CreditAggregator

/-!
# Where the snapshot pointers of keys point

A key points to its newest successful snapshot as long as no clean-up removes a snapshot that is
pointed to. A removed one leaves a pointer behind, and the next fetch of any key may get its id.
-/

namespace Fcam

/-- The id names a successful snapshot of the key, and the key has no newer one. Ids grow with every
insertion. -/
structure PointsToLatest (snapshots : Table CreditSnapshot) (id p : Nat) : Prop where
  own : ∃ snapshot, snapshots.get? p = some snapshot ∧ snapshot.apiKeyId = id ∧
    snapshot.fetchSuccess = true
  latest : ∀ other snapshot, snapshots.get? other = some snapshot → snapshot.apiKeyId = id →
    snapshot.fetchSuccess = true → other ≤ p

/-- Every pointer that is set points to the key's newest successful snapshot. -/
def PointersSound (w : World) : Prop :=
  ∀ id key p, w.key? id = some key → key.lastCreditSnapshotId = some p →
    PointsToLatest w.db.creditSnapshots id p

/-- The credits of a key are shown with a snapshot of its own. -/
def ShowsOwn (w : World) : Prop :=
  ∀ id credits snapshot, getKeyCredits id w = .ok credits → credits.latestSnapshot = some snapshot →
    snapshot.apiKeyId = id

theorem mem_snapshotsOf {id : Nat} {p : CreditSnapshot → Bool} {w : World}
    {snapshot : CreditSnapshot} (hmem : snapshot ∈ snapshotsOf id p w) :
    snapshot.apiKeyId = id := by
  obtain ⟨row, hrow, rfl⟩ := List.mem_map.mp hmem
  have hpass := (Table.mem_select.mp hrow).2
  simp only [Bool.and_eq_true, beq_iff_eq] at hpass
  exact hpass.1

theorem PointersSound.showsOwn {w : World} (hsound : PointersSound w) : ShowsOwn w := by
  intro id credits snapshot hcredits hlatest
  rw [getKeyCredits] at hcredits
  cases hkey : w.key? id with
  | none => simp [hkey] at hcredits
  | some key =>
    simp only [hkey, Except.ok.injEq] at hcredits
    rw [← hcredits] at hlatest
    simp only [latestSnapshot, Option.or_eq_some_iff] at hlatest
    rcases hlatest with hpointed | ⟨-, hnewest⟩
    · obtain ⟨p, hp, hget⟩ := Option.bind_eq_some_iff.mp hpointed
      obtain ⟨found, hfound, hown, -⟩ :=
        (hsound id key p hkey (Option.filter_eq_some_iff.mp hp).1).own
      obtain rfl := Option.some.inj (hget.symm.trans hfound)
      exact hown
    · exact mem_snapshotsOf (List.argmax_mem hnewest)

/-! ### Changes of the snapshots -/

section

variable {snapshots : Table CreditSnapshot} {id p : Nat} {row : CreditSnapshot}

theorem PointsToLatest.lt_nextId (h : PointsToLatest snapshots id p) : p < snapshots.nextId := by
  obtain ⟨snapshot, hget, -⟩ := h.own
  exact Table.lt_nextId hget

theorem PointsToLatest.insert (h : PointsToLatest snapshots id p)
    (hrow : row.apiKeyId ≠ id ∨ row.fetchSuccess = false) :
    PointsToLatest (snapshots.insert row) id p := by
  have hlt := h.lt_nextId
  constructor
  · rw [Table.get?_insert, if_neg (by omega)]
    exact h.own
  · intro other snapshot hget hown hsuccess
    rw [Table.get?_insert] at hget
    split at hget
    · obtain rfl := Option.some.inj hget
      rcases hrow with hrow | hrow
      · exact absurd hown hrow
      · rw [hrow] at hsuccess
        cases hsuccess
    · exact h.latest other snapshot hget hown hsuccess

theorem pointsToLatest_insert_iff (hown : row.apiKeyId = id) (hsuccess : row.fetchSuccess = true) :
    PointsToLatest (snapshots.insert row) id p ↔ p = snapshots.nextId := by
  constructor
  · intro h
    have hle := h.latest snapshots.nextId row (Table.get?_insert_self snapshots row) hown hsuccess
    obtain ⟨snapshot, hget, -⟩ := h.own
    rw [Table.get?_insert] at hget
    split at hget
    · assumption
    · have := Table.lt_nextId hget
      omega
  · rintro rfl
    refine ⟨⟨row, Table.get?_insert_self snapshots row, hown, hsuccess⟩,
      fun other snapshot hget _ _ => ?_⟩
    rw [Table.get?_insert] at hget
    split at hget
    · omega
    · have := Table.lt_nextId hget
      omega

/-- A clean-up spares what is pointed to if and only if the pointer stays right. -/
theorem pointsToLatest_deleteWhere_iff {q : CreditSnapshot → Bool}
    (h : PointsToLatest snapshots id p) :
    PointsToLatest (snapshots.deleteWhere fun _ snapshot => q snapshot) id p ↔
      ∀ snapshot, snapshots.get? p = some snapshot → q snapshot = false := by
  obtain ⟨found, hfound, hown, hsuccess⟩ := h.own
  constructor
  · intro h' snapshot hget
    obtain ⟨kept, hkept, -⟩ := h'.own
    obtain ⟨hget', hq⟩ := Table.get?_of_deleteWhere hkept
    obtain rfl := Option.some.inj (hget.symm.trans hget')
    exact hq
  · intro hspared
    refine ⟨⟨found, ?_, hown, hsuccess⟩, fun other snapshot hget => ?_⟩
    · rw [Table.get?_deleteWhere, hfound, Option.filter_some, hspared found hfound]
      rfl
    · exact h.latest other snapshot (Table.get?_of_deleteWhere hget).1

end

/-! ### Changes of the keys -/

/-- Keys that had their pointer before, or have none, keep it right where it was. -/
theorem PointersSound.of_keys {w w' : World} (hsound : PointersSound w)
    (hsnapshots : w'.db.creditSnapshots = w.db.creditSnapshots)
    (hkeys : ∀ id key p, w'.key? id = some key → key.lastCreditSnapshotId = some p →
      ∃ old, w.key? id = some old ∧ old.lastCreditSnapshotId = some p) : PointersSound w' := by
  intro id key p hkey hp
  obtain ⟨old, hold, hpointer⟩ := hkeys id key p hkey hp
  rw [hsnapshots]
  exact hsound id old p hold hpointer

theorem PointersSound.modifyKey {w : World} (hsound : PointersSound w) {id : Nat}
    {f : ApiKey → ApiKey} (hf : ∀ key, (f key).lastCreditSnapshotId = key.lastCreditSnapshotId) :
    PointersSound (w.modifyKey id f) := by
  apply hsound.of_keys
  · rfl
  · intro other key p hkey hp
    rw [World.key?_modifyKey] at hkey
    split at hkey
    · obtain ⟨old, hold, rfl⟩ := Option.map_eq_some_iff.mp hkey
      exact ⟨old, hold, by rw [← hf, hp]⟩
    · exact ⟨key, hkey, hp⟩

theorem PointersSound.insertKey {w : World} (hsound : PointersSound w) {row : ApiKey}
    (hrow : row.lastCreditSnapshotId = none) :
    PointersSound (w.withKeys (w.db.keys.insert row)) := by
  apply hsound.of_keys
  · rfl
  · intro other key p hkey hp
    rw [World.key?_withKeys, Table.get?_insert] at hkey
    split at hkey
    · obtain rfl := Option.some.inj hkey
      rw [hrow] at hp
      cases hp
    · exact ⟨key, hkey, hp⟩

theorem createKey_pointers {security : Security} {masterKey : Option Bytes} {today : Day}
    {nonce : Bytes} {req : CreateKeyRequest} {w : World} (hsound : PointersSound w) :
    PointersSound (createKey security masterKey today nonce req w).2 := by
  simp only [createKey]
  split
  · exact hsound
  · exact hsound
  · split
    · exact hsound
    · exact hsound.insertKey rfl

section Import

variable {security : Security} {today : Day} {clientId : Option Nat} {req : ImportRequest}
  {w : World}

theorem importItem_pointers {masterKey : Bytes} {nonces : Bytes × Bytes} {item : ParsedKeyLine}
    {result : ImportResult} (hsound : PointersSound w) :
    PointersSound (importItem security today masterKey clientId req nonces item result w).2 := by
  rw [importItem]
  simp only
  split
  · exact hsound.insertKey rfl
  · split
    · exact hsound
    · split
      · exact hsound
      · exact hsound.modifyKey fun key => rfl

theorem importItems_pointers {masterKey : Bytes} {nonces : Nat → Bytes × Bytes}
    {items : List ParsedKeyLine} {result : ImportResult} (hsound : PointersSound w) :
    PointersSound (importItems security today masterKey clientId req nonces items result w).2 := by
  induction items generalizing result w with
  | nil => exact hsound
  | cons item rest ih => exact ih (importItem_pointers hsound)

theorem importKeys_pointers {masterKey : Option Bytes} {nonces : Nat → Bytes × Bytes}
    {items : List ParsedKeyLine} {failures : List (Nat × String × String)}
    (hsound : PointersSound w) :
    PointersSound (importKeys security masterKey today nonces items failures req w).2 := by
  simp only [importKeys]
  split
  · exact hsound
  · exact hsound
  · split
    · exact hsound
    · exact importItems_pointers hsound

end Import

theorem purgeKey_pointers {enforced : Bool} {id : Nat} {w : World} (hsound : PointersSound w) :
    PointersSound (purgeKey enforced id w).2 := by
  rw [purgeKey]
  split
  · exact hsound
  · split
    · exact hsound
    · intro other key p hkey hp
      obtain ⟨hkey, hne⟩ := Table.get?_of_deleteWhere hkey
      obtain ⟨snapshot, hget, hown, hsuccess⟩ := (hsound other key p hkey hp).own
      show PointsToLatest (w.db.creditSnapshots.deleteWhere fun _ snapshot =>
        snapshot.apiKeyId == id) other p
      apply (pointsToLatest_deleteWhere_iff (hsound other key p hkey hp)).mpr
      intro found hfound
      obtain rfl := Option.some.inj (hget.symm.trans hfound)
      rw [hown]
      exact hne

/-! ### The end of a fetch -/

section

variable {fwd : Forwarder} {enforced : Bool} {w : World} {id : Nat} {loaded : ApiKey}
  {env : FetchEnv}

/-- A change that leaves the pointer of a key, or adds the snapshot of a failure. -/
def Write.LeavesPointer : Write → Prop
  | key _ loaded current => current.lastCreditSnapshotId = loaded.lastCreditSnapshotId
  | snapshot row => row.fetchSuccess = false
  | _ => True

theorem save_pointer (loaded current stored : ApiKey) :
    (ApiKey.save loaded current stored).lastCreditSnapshotId =
      writeBack loaded.lastCreditSnapshotId current.lastCreditSnapshotId
        stored.lastCreditSnapshotId := rfl

theorem PointersSound.apply {write : Write} (hleaves : write.LeavesPointer)
    (hsound : PointersSound w) :
    PointersSound (write.apply w) := by
  cases write with
  | key id loaded current =>
    apply hsound.modifyKey
    intro stored
    rw [save_pointer, show current.lastCreditSnapshotId = loaded.lastCreditSnapshotId from hleaves,
      writeBack_unchanged]
  | client id loaded current => exact hsound.of_keys rfl fun id key p hkey hp => ⟨key, hkey, hp⟩
  | roundRobin scope idx => exact hsound.of_keys rfl fun id key p hkey hp => ⟨key, hkey, hp⟩
  | failures id entry => exact hsound.of_keys rfl fun id key p hkey hp => ⟨key, hkey, hp⟩
  | snapshot row =>
    intro id key p hkey hp
    exact (hsound id key p hkey hp).insert (.inr hleaves)

theorem PointersSound.tryCommit {writes : List Write}
    (hleaves : ∀ write ∈ writes, write.LeavesPointer) (hsound : PointersSound w) :
    PointersSound (tryCommit enforced w writes) := by
  rw [Fcam.tryCommit]
  split
  · exact hsound
  · exact commit_invariant (fun write hwrite _ => PointersSound.apply (hleaves write hwrite)) hsound

theorem fetch_leavesPointer (h : fetchedCredits fwd loaded env = none) :
    ∀ write ∈ (KeyEdit.fetch env).writes fwd w id loaded, write.LeavesPointer := by
  rw [KeyEdit.writes]
  rw [fetchedCredits] at h
  split
  · simp [Write.LeavesPointer, disableKeyDecryptFailed, failedSnapshot]
  · next hdecrypts =>
    rw [if_neg hdecrypts] at h
    rw [fetchWrites]
    cases houtcome : env.outcome with
    | response r =>
      simp only [houtcome] at h ⊢
      split
      · next hok =>
        rw [if_pos hok] at h
        split
        · simp [Write.LeavesPointer, failedSnapshot]
        · simp [Write.LeavesPointer, failedSnapshot]
        · simp
        · simp
        · next hcredits => simp [hcredits] at h
      · split
        · simp [Write.LeavesPointer, fetchUnauthorized, failedSnapshot]
        · split
          · simp [Write.LeavesPointer, fetchRateLimited, failedSnapshot]
          · simp [Write.LeavesPointer, failedSnapshot]
    | timeout => simp [Write.LeavesPointer, failedSnapshot]
    | httpError text => simp
    | exception text => simp
    | unsent text => simp

/-- The row a fetch with credits makes of the one it loaded, and its snapshot. -/
theorem fetch_writes {remaining plan : Int}
    (h : fetchedCredits fwd loaded env = some (remaining, plan)) :
    (KeyEdit.fetch env).writes fwd w id loaded =
      [.key id loaded
          (fetchSucceeded fwd.config env.now env.writtenAt w.db.creditSnapshots.nextId remaining
            plan loaded),
        .snapshot
          { apiKeyId := id
            remainingCredits := remaining
            planCredits := plan
            snapshotAt := env.writtenAt
            fetchSuccess := true }] := by
  rw [fetchedCredits] at h
  rw [KeyEdit.writes]
  split at h
  · cases h
  · next hdecrypts =>
    rw [if_neg hdecrypts, fetchWrites]
    split at h
    · next r houtcome =>
      simp only [houtcome]
      split at h
      · next hok =>
        rw [if_pos hok]
        split at h
        · next hcredits =>
          obtain ⟨rfl, rfl⟩ := Prod.mk.inj (Option.some.inj h)
          simp only [hcredits]
        · cases h
      · cases h
    · cases h

/-- What a success writes leaves the pointers sound unless its own is not written: its id is the one
the fetch found in the row it loaded, and another is stored by now. -/
theorem commit_success_iff (hsound : PointersSound w) {current : ApiKey} {row : CreditSnapshot}
    (hpointer : current.lastCreditSnapshotId = some w.db.creditSnapshots.nextId)
    (hown : row.apiKeyId = id) (hsuccess : row.fetchSuccess = true) :
    PointersSound (commit [.key id loaded current, .snapshot row] w) ↔
      ∀ key, w.key? id = some key → key.lastCreditSnapshotId.isSome →
        loaded.lastCreditSnapshotId ≠ some w.db.creditSnapshots.nextId := by
  have hkey : ∀ other, (commit [.key id loaded current, .snapshot row] w).key? other =
      if other = id then (w.key? other).map (ApiKey.save loaded current)
      else w.key? other := fun other =>
    World.key?_modifyKey w id other _
  have hsnapshots : (commit [.key id loaded current, .snapshot row] w).db.creditSnapshots =
      w.db.creditSnapshots.insert row := rfl
  constructor
  · intro hafter key hstored hset hsame
    obtain ⟨p, hp⟩ := Option.isSome_iff_exists.mp hset
    have hkept : (ApiKey.save loaded current key).lastCreditSnapshotId = some p := by
      rw [save_pointer, hpointer, hsame, writeBack_unchanged, hp]
    have hlatest : PointsToLatest (w.db.creditSnapshots.insert row) id p := by
      apply hafter id _ p _ hkept
      rw [hkey, if_pos rfl, hstored, Option.map_some]
    have heq := (pointsToLatest_insert_iff hown hsuccess).mp hlatest
    have hlt := (hsound id key p hstored hp).lt_nextId
    omega
  · intro hwritten other key p hother hp
    rw [hkey] at hother
    rw [hsnapshots]
    split at hother
    · next heq =>
      subst heq
      obtain ⟨stored, hstored, rfl⟩ := Option.map_eq_some_iff.mp hother
      rw [save_pointer, hpointer] at hp
      apply (pointsToLatest_insert_iff hown hsuccess).mpr
      by_cases hloaded : loaded.lastCreditSnapshotId = some w.db.creditSnapshots.nextId
      · rw [hloaded, writeBack_unchanged] at hp
        exact absurd hloaded (hwritten stored hstored (by rw [hp]; rfl))
      · rw [writeBack_of_ne (Ne.symm hloaded)] at hp
        exact (Option.some.inj hp).symm
    · next hne =>
      apply (hsound other key p hother hp).insert
      left
      rw [hown]
      exact Ne.symm hne

/-- The end of a fetch leaves the pointers sound unless it brings credits whose snapshot gets the id
the fetch found in the row it loaded, freed since, while the key points to another by now. -/
theorem endedFetch_iff (hsound : PointersSound w) :
    PointersSound (endedFetch fwd enforced env id loaded w) ↔
      ((fetchedCredits fwd loaded env).isSome →
        ∀ key, w.key? id = some key → key.lastCreditSnapshotId.isSome →
        loaded.lastCreditSnapshotId ≠ some w.db.creditSnapshots.nextId) := by
  rw [endedFetch]
  cases hcredits : fetchedCredits fwd loaded env with
  | none =>
    exact iff_of_true (hsound.tryCommit (fetch_leavesPointer hcredits)) (fun h => by cases h)
  | some credits =>
    rw [fetch_writes hcredits, Fcam.tryCommit]
    split
    · next hrefused =>
      refine iff_of_true hsound fun _ key hkey => ?_
      simp [Write.refused, hkey] at hrefused
    · simp only [Option.isSome_some, true_imp_iff]
      exact commit_success_iff hsound rfl rfl rfl

end

/-! ### Clean-ups -/

/-- The snapshot is older than the snapshots are kept. -/
def expired (config : AppConfig) (now : Instant) (snapshot : CreditSnapshot) : Bool :=
  decide (0 < config.creditMonitoring.retentionDays) &&
    match plusSeconds now (-(config.creditMonitoring.retentionDays * 86400)) with
    | none => false
    | some cutoff => snapshot.snapshotAt < cutoff

theorem cleanupOldSnapshots_snapshots (config : AppConfig) (now : Instant) (w : World) (id : Nat) :
    (cleanupOldSnapshots config now w).db.creditSnapshots.get? id =
      (w.db.creditSnapshots.deleteWhere fun _ snapshot => expired config now snapshot).get? id := by
  rw [Table.get?_deleteWhere, cleanupOldSnapshots]
  simp only [expired]
  split
  · next hdays =>
    have hdays : ¬0 < config.creditMonitoring.retentionDays := by omega
    cases w.db.creditSnapshots.get? id <;> simp [hdays, Option.filter_some]
  · next hdays =>
    have hdays : 0 < config.creditMonitoring.retentionDays := by omega
    simp only [hdays, decide_true, Bool.true_and]
    cases plusSeconds now (-(config.creditMonitoring.retentionDays * 86400)) with
    | none => cases w.db.creditSnapshots.get? id <;> simp [Option.filter_some]
    | some cutoff => rw [Table.get?_deleteWhere]

theorem key?_cleanupOldSnapshots (config : AppConfig) (now : Instant) (w : World) (id : Nat) :
    (cleanupOldSnapshots config now w).key? id = w.key? id := by
  rw [cleanupOldSnapshots]
  split
  · rfl
  · split <;> rfl

theorem pointsToLatest_congr {snapshots snapshots' : Table CreditSnapshot}
    (h : ∀ id, snapshots.get? id = snapshots'.get? id) {id p : Nat} :
    PointsToLatest snapshots id p ↔ PointsToLatest snapshots' id p := by
  constructor
  · rintro ⟨hown, hlatest⟩
    simp only [h] at hown hlatest
    exact ⟨hown, hlatest⟩
  · rintro ⟨hown, hlatest⟩
    simp only [← h] at hown hlatest
    exact ⟨hown, hlatest⟩

theorem cleanUp_iff {config : AppConfig} {now : Instant} {w : World} (hsound : PointersSound w) :
    PointersSound (cleanupOldSnapshots config now w) ↔
      ∀ id key p snapshot, w.key? id = some key → key.lastCreditSnapshotId = some p →
        w.db.creditSnapshots.get? p = some snapshot → expired config now snapshot = false := by
  have hiff : ∀ id key p, w.key? id = some key → key.lastCreditSnapshotId = some p →
      (PointsToLatest (cleanupOldSnapshots config now w).db.creditSnapshots id p ↔
        ∀ snapshot, w.db.creditSnapshots.get? p = some snapshot →
          expired config now snapshot = false) := by
    intro id key p hkey hp
    rw [pointsToLatest_congr (cleanupOldSnapshots_snapshots config now w)]
    exact pointsToLatest_deleteWhere_iff (hsound id key p hkey hp)
  constructor
  · intro hafter id key p snapshot hkey hp
    apply (hiff id key p hkey hp).mp
    exact hafter id key p (by rw [key?_cleanupOldSnapshots, hkey]) hp
  · intro hspared id key p hkey hp
    rw [key?_cleanupOldSnapshots] at hkey
    exact (hiff id key p hkey hp).mpr fun snapshot => hspared id key p snapshot hkey hp

/-! ### Runs -/

section

variable {fwd : Forwarder} {enforced : Bool}

/-- What a step needs to leave the pointers sound. No clean-up finds a snapshot old that a key
points to; and a fetch that brings credits for a key that points somewhere has not loaded the id its
snapshot gets. -/
def SparesPointers (fwd : Forwarder) (st : CreditState) : CreditAction → Prop
  | .endFetch f env =>
    ∀ id loaded, st.fetches[f]? = some (id, loaded) → (fetchedCredits fwd loaded env).isSome →
      ∀ key, st.world.key? id = some key → key.lastCreditSnapshotId.isSome →
        loaded.lastCreditSnapshotId ≠ some st.world.db.creditSnapshots.nextId
  | .cleanUp now =>
    ∀ id key p snapshot, st.world.key? id = some key → key.lastCreditSnapshotId = some p →
      st.world.db.creditSnapshots.get? p = some snapshot → expired fwd.config now snapshot = false
  | _ => True

theorem deduct_pointers {w : World} (hsound : PointersSound w) (id : Nat) (loaded : ApiKey)
    (cost : Option Int) :
    PointersSound (tryCommit enforced w [.key id loaded (deductCredits cost loaded)]) := by
  apply hsound.tryCommit
  intro write hwrite
  rw [List.mem_singleton] at hwrite
  subst hwrite
  show (deductCredits cost loaded).lastCreditSnapshotId = loaded.lastCreditSnapshotId
  simp only [deductCredits]
  split <;> rfl

theorem next_pointers_iff {st st' : CreditState} {a : CreditAction}
    (hsound : PointersSound st.world) (hnext : CreditAction.next fwd enforced st a = some st') :
    PointersSound st'.world ↔ SparesPointers fwd st a := by
  cases a with
  | beginFetch id =>
    obtain ⟨key, hkey, rfl⟩ := Option.map_eq_some_iff.mp hnext
    exact iff_of_true hsound trivial
  | endFetch f env =>
    obtain ⟨⟨id, loaded⟩, hfetch, rfl⟩ := Option.map_eq_some_iff.mp hnext
    simp only [SparesPointers, hfetch]
    rw [endedFetch_iff hsound]
    constructor
    · intro h other stored hsame
      obtain ⟨rfl, rfl⟩ := Prod.mk.inj (Option.some.inj hsame)
      exact h
    · intro h
      exact h id loaded rfl
  | dropFetch f =>
    obtain rfl := Option.some.inj hnext
    exact iff_of_true hsound trivial
  | deduct id loaded cost =>
    obtain rfl := Option.some.inj hnext
    exact iff_of_true (deduct_pointers hsound id loaded cost) trivial
  | cleanUp now =>
    obtain rfl := Option.some.inj hnext
    exact cleanUp_iff hsound
  | purge id =>
    obtain rfl := Option.some.inj hnext
    exact iff_of_true (purgeKey_pointers hsound) trivial
  | create today nonce req =>
    obtain rfl := Option.some.inj hnext
    exact iff_of_true (createKey_pointers hsound) trivial
  | importKeys today nonces items failures req =>
    obtain rfl := Option.some.inj hnext
    exact iff_of_true (importKeys_pointers hsound) trivial

/-- In a run from sound pointers, every pointer points to its key's newest successful snapshot in
every state reached, and every key is shown its own numbers, if and only if every step spares the
pointers. -/
theorem pointers_sound_iff {st last : CreditState} {trace : List CreditAction}
    (hsound : PointersSound st.world)
    (hexec : exec (CreditAction.next fwd enforced) st trace = some last) :
    (∀ before after mid, trace = before ++ after →
      exec (CreditAction.next fwd enforced) st before = some mid →
        PointersSound mid.world ∧ ShowsOwn mid.world) ↔
      Meets (CreditAction.next fwd enforced) (SparesPointers fwd) st trace := by
  rw [← throughout_iff_meets (fun _ _ _ => next_pointers_iff) hexec hsound]
  constructor
  · intro h before after mid htrace hmid
    exact (h before after mid htrace hmid).1
  · intro h before after mid htrace hmid
    have hmid := h before after mid htrace hmid
    exact ⟨hmid, hmid.showsOwn⟩

end

/-- An answer of the credit endpoint for an account without a plan. -/
def creditAnswerOf (remaining : Int) (now : Instant) : FetchEnv :=
  let data : Json := .obj [(PyStr.ofString "remainingCredits", .int remaining)]
  { outcome :=
      .response
        { statusCode := 200
          json := some (.obj [(PyStr.ofString "success", .bool true),
            (PyStr.ofString "data", data)]) }
    now
    writtenAt := now }

/-- A key is created and fetched; on a later day old snapshots are removed, and a second key is
created and fetched. -/
def fetchedAround (day : Int) : List CreditAction :=
  [.create 0 [] { apiKey := "fc-first" }, .beginFetch 1, .endFetch 0 (creditAnswerOf 400 0),
    .cleanUp (day * dayLength), .create day [] { apiKey := "fc-second" }, .beginFetch 2,
    .endFetch 0 (creditAnswerOf 7 (day * dayLength))]

/-- After 100 days without a fetch the first key is shown the numbers of the second. -/
theorem others_numbers_shown :
    ∃ last, exec (CreditAction.next defaultForwarder true) {} (fetchedAround 100) = some last ∧
      (getKeyCredits 1 last.world).map
        (fun credits => credits.latestSnapshot.map CreditSnapshot.apiKeyId) =
        .ok (some 2) ∧
      ¬PointersSound last.world := by
  refine ⟨_, rfl, rfl, fun hsound => ?_⟩
  obtain ⟨snapshot, hget, hown, -⟩ := (hsound 1 _ 1 rfl rfl).own
  obtain rfl := Option.some.inj hget
  cases hown

/-- After 10 days the snapshots are all kept, and the run leaves every pointer sound. -/
theorem fetchedAround_sound :
    ∃ mid, exec (CreditAction.next defaultForwarder true) {} (fetchedAround 10) = some mid ∧
      PointersSound mid.world ∧ ShowsOwn mid.world := by
  have hempty : PointersSound {} := fun id key p hkey => by cases hkey
  obtain ⟨mid, hmid⟩ :
      ∃ mid, exec (CreditAction.next defaultForwarder true) {} (fetchedAround 10) = some mid :=
        ⟨_, rfl⟩
  refine ⟨mid, hmid, (pointers_sound_iff hempty hmid).mpr ?_ _ [] mid (List.append_nil _).symm hmid⟩
  have hfetch :
      ∀ st f env, (∀ fetch, st.fetches[f]? = some fetch → fetch.2.lastCreditSnapshotId = none) →
        SparesPointers defaultForwarder st (.endFetch f env) := by
    intro st f env hnone id loaded hfetch _ key _ _
    rw [show loaded.lastCreditSnapshotId = none from hnone (id, loaded) hfetch]
    nofun
  refine meets_cons rfl trivial <| meets_cons rfl trivial <| meets_cons rfl (hfetch _ _ _ ?_) <|
    meets_cons rfl ?_ <| meets_cons rfl trivial <| meets_cons rfl trivial <|
      meets_cons rfl (hfetch _ _ _ ?_) trivial
  · intro fetch hfetch
    obtain rfl := Option.some.inj hfetch
    rfl
  · intro id key p snapshot _ _ hget
    obtain ⟨-, rfl⟩ := Prod.mk.inj (List.mem_singleton.mp (Table.get?_eq_some_iff.mp hget))
    rfl
  · intro fetch hfetch
    obtain rfl := Option.some.inj hfetch
    rfl

end Fcam

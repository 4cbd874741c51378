import Fcam.Model.CreditAggregator

/-!
# What a credit fetch leaves

Every end of a fetch that the code foresees adds one snapshot and is answered with it or with an
error of the gateway. The ends it does not foresee pass through it and leave nothing.
-/

namespace Fcam

/-- What a row caches of a successful fetch. -/
def creditCache (key : ApiKey) :
    Option Int × Option Int × Option Nat × Option Instant × Option Instant :=
  (key.cachedRemainingCredits, key.cachedPlanCredits, key.lastCreditSnapshotId,
   key.lastCreditCheckAt,
    key.nextRefreshAt)

/-- A fetch for a key adds one snapshot, marked with its success, changes caches on success only,
and returns the snapshot or raises an error of the gateway. -/
structure LeavesSnapshot (succeeds : Bool) (id : Nat) (w : World)
    (result : Except Raised CreditSnapshot) (after : World) : Prop where
  adds : ∃ snapshot : CreditSnapshot,
    after.db.creditSnapshots = w.db.creditSnapshots.insert snapshot ∧ snapshot.apiKeyId = id ∧
      snapshot.fetchSuccess = succeeds ∧
        (result = .ok snapshot ∨ ∃ error, result = .error (.fcam error))
  keeps : succeeds = false →
    ∀ other, (after.key? other).map creditCache = (w.key? other).map creditCache

/-- The outcome is one the fetch has a branch for: a time-out, or an answer that is no 200, has no
JSON, or has an object that reports no success or credits that can be read. -/
def Outcome.foreseen : Outcome → Bool
  | timeout => true
  | response r =>
    r.statusCode != 200 ||
      match r.json.map creditAnswer with
      | some .notAnObject => false
      | some .unreadable => false
      | _ => true
  | _ => false

section

variable {config : AppConfig} {security : Security} {masterKey : Bytes} {env : FetchEnv}
  {requestId : String} {id : Nat} {key : ApiKey} {w : World}

theorem creditCache_modifyKey {f : ApiKey → ApiKey}
    (hf : ∀ key, creditCache (f key) = creditCache key) (other : Nat) :
    ((w.modifyKey id f).key? other).map creditCache = (w.key? other).map creditCache := by
  rw [World.key?_modifyKey]
  split
  · rw [Option.map_map]
    congr 1
    funext row
    exact hf row
  · rfl

theorem leavesSnapshot_failed (t : Instant) (error : FcamError) :
    LeavesSnapshot false id w (.error (.fcam error)) (w.addSnapshot (failedSnapshot id t)) where
  adds := ⟨failedSnapshot id t, rfl, rfl, rfl, .inr ⟨error, rfl⟩⟩
  keeps := by
    intro _ other
    rfl

/-- One that marks the key as well. -/
theorem leavesSnapshot_marked (f : ApiKey → ApiKey)
    (hf : ∀ key, creditCache (f key) = creditCache key) (t : Instant) (error : FcamError) :
    LeavesSnapshot false id w (.error (.fcam error))
      ((w.addSnapshot (failedSnapshot id t)).modifyKey id f) where
  adds := ⟨failedSnapshot id t, rfl, rfl, rfl, .inr ⟨error, rfl⟩⟩
  keeps := by
    intro _ other
    exact creditCache_modifyKey hf other

theorem not_leavesSnapshot_other {succeeds : Bool} {text : String} {after : World} :
    ¬LeavesSnapshot succeeds id w (.error (.other text)) after := by
  rintro ⟨⟨snapshot, -, -, -, hok | ⟨error, herror⟩⟩, -⟩
  · cases hok
  · cases herror

theorem settled_leaves_snapshot_iff (hdecrypt :
    security.decryptApiKey masterKey key.apiKeyCiphertext ≠ none) :
    LeavesSnapshot (fetchedCredits { config, security, masterKey := some masterKey } key env).isSome
    id w
        (settleFetch config env id w).1 (settleFetch config env id w).2 ↔
      env.outcome.foreseen = true := by
  have hreadable : undecryptable { config, security, masterKey := some masterKey } key = false := by
    rwa [undecryptable, Option.bind_some, Forwarder.decrypt, Option.isNone_eq_false_iff,
      Option.isSome_iff_ne_none]
  rw [fetchedCredits, hreadable, if_neg Bool.false_ne_true]
  cases houtcome : env.outcome with
  | timeout =>
    simp only [settleFetch, houtcome]
    exact iff_of_true (leavesSnapshot_failed _ _) rfl
  | httpError text =>
    simp only [settleFetch, houtcome]
    exact iff_of_false not_leavesSnapshot_other Bool.false_ne_true
  | exception text =>
    simp only [settleFetch, houtcome]
    exact iff_of_false not_leavesSnapshot_other Bool.false_ne_true
  | unsent text =>
    simp only [settleFetch, houtcome]
    exact iff_of_false not_leavesSnapshot_other Bool.false_ne_true
  | response r =>
    simp only [settleFetch, houtcome, Outcome.foreseen]
    by_cases hok : r.statusCode = 200
    · simp only [hok, bne_self_eq_false, Bool.false_or]
      cases hanswer : r.json.map creditAnswer with
      | none => exact iff_of_true (leavesSnapshot_failed _ _) rfl
      | some answer =>
        cases answer with
        | notAnObject => exact iff_of_false not_leavesSnapshot_other Bool.false_ne_true
        | unreadable => exact iff_of_false not_leavesSnapshot_other Bool.false_ne_true
        | unsuccessful => exact iff_of_true (leavesSnapshot_failed _ _) rfl
        | credits remaining plan =>
          refine iff_of_true ⟨⟨_, rfl, rfl, rfl, .inl rfl⟩, ?_⟩ rfl
          intro hfailed
          cases hfailed
    · have hstatus : (r.statusCode != 200) = true := bne_iff_ne.mpr hok
      simp only [if_neg hok, hstatus, Bool.true_or]
      apply iff_of_true _ trivial
      split
      · exact leavesSnapshot_marked fetchUnauthorized (fun _ => rfl) _ _
      · split
        · exact leavesSnapshot_marked (fetchRateLimited env.now) (fun _ => rfl) _ _
        · exact leavesSnapshot_failed _ _

theorem fetched_leaves_snapshot_iff :
    LeavesSnapshot (fetchedCredits { config, security, masterKey := some masterKey } key env).isSome
      id w
        (fetchCreditFromFirecrawl config security masterKey env requestId id key w).result
        (fetchCreditFromFirecrawl config security masterKey env requestId id key w).world ↔
      security.decryptApiKey masterKey key.apiKeyCiphertext = none ∨
        env.outcome.foreseen = true := by
  cases hdecrypt : security.decryptApiKey masterKey key.apiKeyCiphertext with
  | none =>
    have hcredits :
        fetchedCredits { config, security, masterKey := some masterKey } key env = none := by
      rw [fetchedCredits, undecryptable, Option.bind_some, Forwarder.decrypt, hdecrypt,
        Option.isNone_none, if_pos rfl]
    simp only [fetchCreditFromFirecrawl, hdecrypt, hcredits]
    exact iff_of_true (leavesSnapshot_marked disableKeyDecryptFailed (fun _ => rfl) _ _)
      (.inl trivial)
  | some secret =>
    have hsettled :=
      @settled_leaves_snapshot_iff config security masterKey env id key w
        (by rw [hdecrypt]; exact nofun)
    simp only [fetchCreditFromFirecrawl, hdecrypt]
    rw [hsettled]
    simp

theorem ne_insert (t : Table CreditSnapshot) (row : CreditSnapshot) : t ≠ t.insert row := by
  intro heq
  have hget := congrArg (fun table => table.get? t.nextId) heq
  rw [Table.get?_nextId, Table.get?_insert_self] at hget
  cases hget

/-- A fetch leaves one snapshot and the answer to it exactly where the database can hold the row and
the key cannot be decrypted or the request ends in a way the fetch foresees. -/
theorem fetch_leaves_snapshot_iff (held : Bool) :
    LeavesSnapshot (fetchedCredits { config, security, masterKey := some masterKey } key env).isSome
      id w
        (storedFetch held w (fetchCreditFromFirecrawl config security masterKey env requestId id key
          w)).result
        (storedFetch held w (fetchCreditFromFirecrawl config security masterKey env requestId id key
          w)).world ↔
      held = true ∧
        (security.decryptApiKey masterKey key.apiKeyCiphertext = none ∨
          env.outcome.foreseen = true) := by
  cases held with
  | true =>
    rw [storedFetch, if_pos rfl, fetched_leaves_snapshot_iff]
    simp
  | false =>
    apply iff_of_false
    · rintro ⟨⟨snapshot, hadded, -⟩, -⟩
      exact ne_insert _ _ hadded
    · rintro ⟨hheld, -⟩
      cases hheld

/-- The upstream cannot be reached. -/
theorem unreachable_leaves_nothing :
    let env : FetchEnv := { outcome := .httpError "ConnectError", now := 0, writtenAt := 0 }
    let fetched :=
      storedFetch true {}
        (fetchCreditFromFirecrawl {} .plain [] env "r" 1 { apiKeyCiphertext := [1] } {})
    fetched.result = .error (.other "ConnectError") ∧ fetched.world.db.creditSnapshots =
      .empty := by
  exact ⟨rfl, rfl⟩

end

end Fcam

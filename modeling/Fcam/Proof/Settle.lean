import Fcam.Model.CreditRefresh
import Fcam.Model.KeyTest
import Fcam.Model.LoadedRow

/-!
# What an upstream outcome does to the key rows

Every outcome of a forward, a key test or a credit fetch changes the row of the key it was obtained
with and no other. `settle_row`, `settleTest_row` and `fetch_row` say so with the change of that row
as a function: `settleRow`, `testRow` and `fetchRow`. The failure counts of the process enter them
through one bit, whether the failure reaches the threshold.
-/

namespace Fcam

/-! ### One row of a state -/

/-- The row with an id is rewritten, and no other row changes. -/
def RowUpdated (w w' : World) (id : Nat) (f : ApiKey → ApiKey) : Prop :=
  ∀ other, w'.key? other = if other = id then (w.key? other).map f else w.key? other

theorem rowUpdated_modifyKey (w : World) (id : Nat) (f : ApiKey → ApiKey) :
    RowUpdated w (w.modifyKey id f) id f :=
  fun other => World.key?_modifyKey w id other f

namespace RowUpdated

variable {w w' w'' : World} {id : Nat} {f g : ApiKey → ApiKey}

theorem congr (h : RowUpdated w w' id f) (hrow : ∀ key, f key = g key) : RowUpdated w w' id g :=
  (funext hrow : f = g) ▸ h

theorem unchanged (hkey : ∀ other, w'.key? other = w.key? other)
    (hrow : ∀ key, w.key? id = some key → f key = key) :
    RowUpdated w w' id f := by
  intro other
  rw [hkey]
  split
  · next heq =>
    subst heq
    cases hget : w.key? other with
    | none => rfl
    | some key => rw [Option.map_some, hrow key hget]
  · rfl

theorem trans (h : RowUpdated w w' id f) (h' : RowUpdated w' w'' id g) :
    RowUpdated w w'' id fun key => g (f key) := by
  intro other
  rw [h' other, h other]
  split
  · exact Option.map_map g f _
  · rfl

theorem self (h : RowUpdated w w' id f) {key : ApiKey} (hkey : w.key? id = some key) :
    w'.key? id = some (f key) := by
  rw [h id, if_pos rfl, hkey, Option.map_some]

theorem of_ne (h : RowUpdated w w' id f) {other : Nat} (hne : other ≠ id) :
    w'.key? other = w.key? other := by
  rw [h other, if_neg hne]

theorem before (h : RowUpdated w w' id f) {other : Nat} {row : ApiKey}
    (hrow : w'.key? other = some row) :
    ∃ key, w.key? other = some key ∧ row = if other = id then f key else key := by
  rw [h other] at hrow
  split at hrow
  · next heq =>
    obtain ⟨key, hkey, rfl⟩ := Option.map_eq_some_iff.mp hrow
    exact ⟨key, hkey, (if_pos heq).symm⟩
  · next hne => exact ⟨row, hrow, (if_neg hne).symm⟩

end RowUpdated

/-! ### Failures -/

/-- The outcome is one that counts as a failure of its key. -/
def Outcome.failed : Outcome → Bool
  | timeout => true
  | httpError _ => true
  | response r => 500 ≤ r.statusCode
  | _ => false

/-- A failure of a key written now reaches the threshold. -/
def reachesThreshold (config : AppConfig) (now : Instant) (id : Nat) (w : World) : Bool :=
  config.firecrawl.failureThreshold ≤ (failuresInWindow config now id w).1 + 1

/-- The row after a failure. -/
def failureRow (config : AppConfig) (now : Instant) (reached : Bool) (key : ApiKey) : ApiKey :=
  if isDisabled key || !reached then key else markFailed config now key

theorem recordFailure_row (config : AppConfig) (now : Instant) (id : Nat) (w : World) :
    RowUpdated w (recordFailure config now id w) id
      (failureRow config now (reachesThreshold config now id w)) := by
  rw [recordFailure]
  split
  · next hkey =>
    exact .unchanged (fun _ => rfl) fun key hget => by rw [hkey] at hget; cases hget
  next key hkey =>
  split
  · next hdisabled =>
    refine .unchanged (fun _ => rfl) fun key' hget => ?_
    rw [hkey, Option.some.injEq] at hget
    rw [failureRow, ← hget, hdisabled, Bool.true_or, if_pos rfl]
  next henabled =>
  simp only
  split
  · next hbelow =>
    refine .unchanged (fun _ => rfl) fun key' _ => ?_
    have hnot : reachesThreshold config now id w = false := decide_eq_false (Int.not_le.mpr hbelow)
    rw [failureRow, hnot, Bool.not_false, Bool.or_true, if_pos rfl]
  · next hreached =>
    have hyes : reachesThreshold config now id w = true := decide_eq_true (Int.not_lt.mp hreached)
    intro other
    rw [World.key?_modifyKey, hyes]
    split
    · next heq =>
      subst heq
      have hsame : ∀ failures, World.key? { w with failures } other = some key := fun _ => hkey
      rw [hsame, hkey, Option.map_some, Option.map_some, failureRow,
        if_neg (by simpa using henabled)]
    · rfl

/-! ### Forwards -/

/-- The row after the accounting of a 2xx answer. -/
def accountRow (config : AppConfig) (method upstreamPath : String) (r : UpstreamResponse)
    (now : Instant) (key : ApiKey) : ApiKey :=
  let deducted := deductCredits (localCost config method upstreamPath r) key
  if config.quota.countMode = .success then consumeKey now deducted else deducted

theorem accountSuccess_row (config : AppConfig) (method upstreamPath : String)
    (r : UpstreamResponse) (now : Instant) (clientId id : Nat) (w : World) :
    RowUpdated w (accountSuccess config method upstreamPath r now clientId id w) id
      (accountRow config method upstreamPath r now) := by
  rw [accountSuccess]
  have hdeducted :=
    rowUpdated_modifyKey w id (deductCredits (localCost config method upstreamPath r))
  split
  · next hmode =>
    apply (hdeducted.trans (rowUpdated_modifyKey _ id (consumeKey now))).congr
    intro key
    simp only [accountRow, if_pos hmode]
  · next hmode =>
    apply hdeducted.congr
    intro key
    simp only [accountRow, if_neg hmode]

/-- The row after the outcome of a forwarded request. -/
def settleRow (config : AppConfig) (method upstreamPath : String) (outcome : Outcome)
    (now : Instant) (reached : Bool) (key : ApiKey) : ApiKey :=
  match outcome with
  | .timeout => failureRow config now reached key
  | .httpError _ => failureRow config now reached key
  | .exception _ => key
  | .unsent _ => key
  | .response r =>
    if r.statusCode = 429 then markCooling now (cooldownOf config r.headers) key
    else if r.statusCode = 401 ∨ r.statusCode = 403 then disableKey key
    else if 500 ≤ r.statusCode then failureRow config now reached key
    else if is2xx r.statusCode then accountRow config method upstreamPath r now key
    else key

theorem settleRow_failed (config : AppConfig) (method upstreamPath : String) {outcome : Outcome}
    (now : Instant) (reached : Bool) (key : ApiKey) (hfailed : outcome.failed = true) :
    settleRow config method upstreamPath outcome now reached key = failureRow config now reached
      key := by
  cases outcome with
  | timeout => rfl
  | httpError text => rfl
  | exception text => cases hfailed
  | unsent text => cases hfailed
  | response r =>
    have h5xx : 500 ≤ r.statusCode := of_decide_eq_true hfailed
    rw [settleRow, if_neg (by omega), if_neg (by omega), if_pos h5xx]

theorem settleRow_won (config : AppConfig) (method upstreamPath : String) {r : UpstreamResponse}
    (now : Instant) (reached : Bool) (key : ApiKey) (hwon : is2xx r.statusCode = true) :
    settleRow config method upstreamPath (.response r) now reached key =
      accountRow config method upstreamPath r now key := by
  have hrange : 200 ≤ r.statusCode ∧ r.statusCode < 300 := by
    rwa [is2xx, Bool.and_eq_true, decide_eq_true_eq, decide_eq_true_eq] at hwon
  rw [settleRow, if_neg (by omega), if_neg (by omega), if_neg (by omega), if_pos hwon]

theorem settle_row (config : AppConfig) (method upstreamPath : String) (outcome : Outcome)
    (now : Instant) (clientId id : Nat) (w : World) :
    RowUpdated w (settle config method upstreamPath outcome now clientId id w) id
      (settleRow config method upstreamPath outcome now (reachesThreshold config now id w)) := by
  cases outcome with
  | timeout => exact recordFailure_row config now id w
  | httpError text => exact recordFailure_row config now id w
  | exception text => exact .unchanged (fun _ => rfl) fun _ _ => rfl
  | unsent text => exact .unchanged (fun _ => rfl) fun _ _ => rfl
  | response r =>
    simp only [settle]
    split
    · next h429 =>
        exact (rowUpdated_modifyKey w id _).congr fun key => by simp only [settleRow, if_pos h429]
    next h429 =>
    split
    · next hauth =>
      exact (rowUpdated_modifyKey w id _).congr
        fun key => by simp only [settleRow, if_neg h429, if_pos hauth]
    next hauth =>
    split
    · next h5xx =>
      exact (recordFailure_row config now id w).congr fun key => by
        simp only [settleRow, if_neg h429, if_neg hauth, if_pos h5xx]
    next h5xx =>
    split
    · next hwon =>
      exact (accountSuccess_row config method upstreamPath r now clientId id w).congr fun key => by
        simp only [settleRow, if_neg h429, if_neg hauth, if_neg h5xx, if_pos hwon]
    · next hwon =>
      exact .unchanged (fun _ => rfl) fun key _ => by
        simp only [settleRow, if_neg h429, if_neg hauth, if_neg h5xx, if_neg hwon]

/-- What an outcome counts for the key it was obtained with. -/
def gain (config : AppConfig) (outcome : Outcome) : Nat :=
  if config.quota.countMode = .success ∧ outcome.won = true then 1 else 0

theorem failureRow_counters (config : AppConfig) (now : Instant) (reached : Bool) (key : ApiKey) :
    (failureRow config now reached key).dailyUsage = key.dailyUsage ∧
      (failureRow config now reached key).totalRequests = key.totalRequests := by
  rw [failureRow]
  split
  · exact ⟨rfl, rfl⟩
  rw [markFailed]
  split <;> exact ⟨rfl, rfl⟩

theorem markCooling_counters (now : Instant) (seconds : Int) (key : ApiKey) :
    (markCooling now seconds key).dailyUsage = key.dailyUsage ∧
      (markCooling now seconds key).totalRequests = key.totalRequests := by
  rw [markCooling]
  split
  · exact ⟨rfl, rfl⟩
  split <;> exact ⟨rfl, rfl⟩

theorem accountRow_counters (config : AppConfig) (method upstreamPath : String)
    (r : UpstreamResponse) (now : Instant) (key : ApiKey) :
    (accountRow config method upstreamPath r now key).dailyUsage =
        key.dailyUsage + (if config.quota.countMode = .success then 1 else 0) ∧
      (accountRow config method upstreamPath r now key).totalRequests =
        key.totalRequests + if config.quota.countMode = .success then 1 else 0 := by
  have hdeducted : ∀ cost, (deductCredits cost key).dailyUsage = key.dailyUsage ∧
      (deductCredits cost key).totalRequests = key.totalRequests := by
    intro cost
    simp only [deductCredits]
    split <;> exact ⟨rfl, rfl⟩
  obtain ⟨husage, htotal⟩ := hdeducted (localCost config method upstreamPath r)
  rw [accountRow]
  split
  · rw [← husage, ← htotal]
    simp only [consumeKey]
    split <;> exact ⟨rfl, rfl⟩
  · exact ⟨husage, htotal⟩

/-- A success is counted once in success mode, and nothing else is counted. -/
theorem settleRow_counters (config : AppConfig) (method upstreamPath : String) (outcome : Outcome)
    (now : Instant) (reached : Bool) (key : ApiKey) :
    (settleRow config method upstreamPath outcome now reached key).dailyUsage = key.dailyUsage +
      gain config outcome ∧
      (settleRow config method upstreamPath outcome now reached key).totalRequests =
        key.totalRequests + gain config outcome := by
  have hlost : outcome.won = false → gain config outcome = 0 :=
    fun hlost => if_neg (by simp [hlost])
  cases outcome with
  | timeout =>
    rw [hlost rfl]
    exact failureRow_counters config now reached key
  | httpError text =>
    rw [hlost rfl]
    exact failureRow_counters config now reached key
  | exception text =>
    rw [hlost rfl]
    exact ⟨rfl, rfl⟩
  | unsent text =>
    rw [hlost rfl]
    exact ⟨rfl, rfl⟩
  | response r =>
    by_cases hwon : is2xx r.statusCode = true
    · have hrange : 200 ≤ r.statusCode ∧ r.statusCode < 300 := by
        simpa [is2xx] using hwon
      have hgain :
          gain config (.response r) = if config.quota.countMode = .success then 1 else 0 := by
        rw [gain, show (Outcome.response r).won = true from hwon]
        simp
      simp only [settleRow]
      rw [if_neg (by omega), if_neg (by omega), if_neg (by omega), if_pos hwon, hgain]
      exact accountRow_counters config method upstreamPath r now key
    · rw [hlost (Bool.not_eq_true _ ▸ hwon)]
      simp only [settleRow]
      split
      · exact markCooling_counters _ _ key
      split
      · exact ⟨rfl, rfl⟩
      split
      · exact failureRow_counters config now reached key
      exact ⟨rfl, rfl⟩

/-! ### The rest of the state -/

theorem recordFailure_client? (config : AppConfig) (now : Instant) (id : Nat) (w : World)
    (other : Nat) :
    (recordFailure config now id w).client? other = w.client? other := by
  rw [recordFailure]
  split
  · rfl
  split
  · rfl
  simp only
  split <;> rfl

/-- A counted outcome counts for the client, too. -/
theorem settle_client? (config : AppConfig) (method upstreamPath : String) (outcome : Outcome)
    (now : Instant) (clientId id : Nat) (w : World) (other : Nat) :
    (settle config method upstreamPath outcome now clientId id w).client? other =
      if other = clientId ∧ gain config outcome = 1 then (w.client? other).map (consumeClient now)
        else w.client? other := by
  have hlost : outcome.won = false → ¬(other = clientId ∧ gain config outcome = 1) := by
    rintro hlost ⟨_, hone⟩
    rw [gain, if_neg (by simp [hlost])] at hone
    cases hone
  cases outcome with
  | timeout =>
    rw [if_neg (hlost rfl)]
    exact recordFailure_client? config now id w other
  | httpError text =>
    rw [if_neg (hlost rfl)]
    exact recordFailure_client? config now id w other
  | exception text => rw [if_neg (hlost rfl), settle]
  | unsent text => rw [if_neg (hlost rfl), settle]
  | response r =>
    by_cases hwon : is2xx r.statusCode = true
    · have hrange : 200 ≤ r.statusCode ∧ r.statusCode < 300 := by
        simpa [is2xx] using hwon
      simp only [settle]
      rw [if_neg (by omega), if_neg (by omega), if_neg (by omega), if_pos hwon, accountSuccess]
      by_cases hmode : config.quota.countMode = .success
      · have hgain : gain config (.response r) = 1 := if_pos ⟨hmode, hwon⟩
        rw [if_pos hmode, client?_modifyKey, client?_modifyClient, client?_modifyKey]
        simp only [hgain, and_true]
      · have hgain : gain config (.response r) = 0 := if_neg fun hboth => hmode hboth.1
        rw [if_neg hmode, client?_modifyKey, hgain, if_neg (by omega)]
    · rw [if_neg (hlost (Bool.not_eq_true _ ▸ hwon))]
      simp only [settle]
      split
      · rfl
      split
      · rfl
      split
      · exact recordFailure_client? config now id w other
      · rfl

section Rest

variable (config : AppConfig) (now : Instant) (id : Nat)

/-- A failure is counted unless its key is disabled or gone. -/
theorem recordFailure_failures (w : World) :
    (recordFailure config now id w).failures =
      if (w.key? id).all isDisabled then w.failures
      else Function.update w.failures id
        (some ((failuresInWindow config now id w).1 + 1,
          (failuresInWindow config now id w).2)) := by
  rw [recordFailure]
  cases w.key? id with
  | none => rfl
  | some key =>
    simp only [Option.all_some]
    split
    · rfl
    split
    · rfl
    · rfl

theorem recordFailure_rest (w : World) :
    (recordFailure config now id w).rrIndexByScope = w.rrIndexByScope ∧
      (recordFailure config now id w).db.bindings = w.db.bindings := by
  rw [recordFailure]
  split
  · exact ⟨rfl, rfl⟩
  split
  · exact ⟨rfl, rfl⟩
  simp only
  split
  · exact ⟨rfl, rfl⟩
  · exact ⟨rfl, rfl⟩

variable (method upstreamPath : String) (r : UpstreamResponse) (clientId : Nat)

theorem accountSuccess_rest (w : World) :
    (accountSuccess config method upstreamPath r now clientId id w).rrIndexByScope =
      w.rrIndexByScope ∧
      (accountSuccess config method upstreamPath r now clientId id w).db.bindings = w.db.bindings ∧
      (accountSuccess config method upstreamPath r now clientId id w).failures = w.failures := by
  rw [accountSuccess]
  split
  · exact ⟨rfl, rfl, rfl⟩
  · exact ⟨rfl, rfl, rfl⟩

theorem settle_rest (outcome : Outcome) (w : World) :
    (settle config method upstreamPath outcome now clientId id w).rrIndexByScope =
      w.rrIndexByScope ∧
      (settle config method upstreamPath outcome now clientId id w).db.bindings = w.db.bindings ∧
      (settle config method upstreamPath outcome now clientId id w).failures =
        if outcome.failed then (recordFailure config now id w).failures else w.failures := by
  obtain ⟨hrr, hbindings⟩ := recordFailure_rest config now id w
  cases outcome with
  | timeout => exact ⟨hrr, hbindings, rfl⟩
  | httpError text => exact ⟨hrr, hbindings, rfl⟩
  | exception text => exact ⟨rfl, rfl, rfl⟩
  | unsent text => exact ⟨rfl, rfl, rfl⟩
  | response r =>
    by_cases h5xx : 500 ≤ r.statusCode
    · have hfailed : (Outcome.response r).failed = true := decide_eq_true h5xx
      rw [if_pos hfailed, settle, if_neg (by omega), if_neg (by omega), if_pos h5xx]
      exact ⟨hrr, hbindings, rfl⟩
    · have hkept : ¬(Outcome.response r).failed = true :=
        fun hfailed => h5xx (of_decide_eq_true hfailed)
      rw [if_neg hkept, settle]
      split
      · exact ⟨rfl, rfl, rfl⟩
      split
      · exact ⟨rfl, rfl, rfl⟩
      split
      · exact accountSuccess_rest config now id method upstreamPath r clientId w
      · exact ⟨rfl, rfl, rfl⟩

end Rest

/-! ### Key tests -/

/-- The row after the outcome of a key test. -/
def testRow (config : AppConfig) (outcome : Outcome) (now : Instant) (reached : Bool)
    (key : ApiKey) : ApiKey :=
  match outcome with
  | .timeout => failureRow config now reached key
  | .httpError _ => failureRow config now reached key
  | .exception _ => key
  | .unsent _ => key
  | .response r =>
    if is2xx r.statusCode then markActive key
    else if r.statusCode = 429 then markCooling now (cooldownOf config r.headers) key
    else if r.statusCode = 401 ∨ r.statusCode = 403 then disableKey key
    else if 500 ≤ r.statusCode then failureRow config now reached key
    else key

theorem testRow_failed (config : AppConfig) {outcome : Outcome} (now : Instant) (reached : Bool)
    (key : ApiKey) (hfailed : outcome.failed = true) :
    testRow config outcome now reached key = failureRow config now reached key := by
  cases outcome with
  | timeout => rfl
  | httpError text => rfl
  | exception text => cases hfailed
  | unsent text => cases hfailed
  | response r =>
    have h5xx : 500 ≤ r.statusCode := of_decide_eq_true hfailed
    have hlost : ¬is2xx r.statusCode = true := by
      rw [is2xx, Bool.and_eq_true, decide_eq_true_eq, decide_eq_true_eq]
      omega
    rw [testRow, if_neg hlost, if_neg (by omega), if_neg (by omega), if_pos h5xx]

theorem settleTest_row (config : AppConfig) (outcome : Outcome) (now : Instant) (id : Nat)
    (w : World) :
    RowUpdated w (settleTest config outcome now id w) id
      (testRow config outcome now (reachesThreshold config now id w)) := by
  cases outcome with
  | timeout => exact recordFailure_row config now id w
  | httpError text => exact recordFailure_row config now id w
  | exception text => exact .unchanged (fun _ => rfl) fun _ _ => rfl
  | unsent text => exact .unchanged (fun _ => rfl) fun _ _ => rfl
  | response r =>
    simp only [settleTest]
    split
    · next hok =>
        exact (rowUpdated_modifyKey w id _).congr fun key => by simp only [testRow, if_pos hok]
    next hok =>
    split
    · next h429 =>
      exact (rowUpdated_modifyKey w id _).congr
        fun key => by simp only [testRow, if_neg hok, if_pos h429]
    next h429 =>
    split
    · next hauth =>
      exact (rowUpdated_modifyKey w id _).congr fun key => by
        simp only [testRow, if_neg hok, if_neg h429, if_pos hauth]
    next hauth =>
    split
    · next h5xx =>
      exact (recordFailure_row config now id w).congr fun key => by
        simp only [testRow, if_neg hok, if_neg h429, if_neg hauth, if_pos h5xx]
    · next h5xx =>
      exact .unchanged (fun _ => rfl) fun key _ => by
        simp only [testRow, if_neg hok, if_neg h429, if_neg hauth, if_neg h5xx]

theorem settleTest_failures (config : AppConfig) (outcome : Outcome) (now : Instant) (id : Nat)
    (w : World) :
    (settleTest config outcome now id w).failures =
      if outcome.failed then (recordFailure config now id w).failures else w.failures := by
  cases outcome with
  | timeout => rfl
  | httpError text => rfl
  | exception text => rfl
  | unsent text => rfl
  | response r =>
    by_cases h5xx : 500 ≤ r.statusCode
    · have hfailed : (Outcome.response r).failed = true := decide_eq_true h5xx
      have hlost : ¬is2xx r.statusCode = true := by
        rw [is2xx, Bool.and_eq_true, decide_eq_true_eq, decide_eq_true_eq]
        omega
      rw [if_pos hfailed, settleTest, if_neg hlost, if_neg (by omega), if_neg (by omega),
        if_pos h5xx]
    · have hkept : ¬(Outcome.response r).failed = true :=
        fun hfailed => h5xx (of_decide_eq_true hfailed)
      rw [if_neg hkept, settleTest]
      split
      · rfl
      split
      · rfl
      split
      · rfl
      · rfl

/-! ### Credit fetches -/

/-- The row after the outcome of a credit fetch, whose snapshot has the given id. -/
def fetchRow (config : AppConfig) (env : FetchEnv) (snapshotId : Nat) (key : ApiKey) : ApiKey :=
  match env.outcome with
  | .response r =>
    if r.statusCode = 200 then
      match r.json.map creditAnswer with
      | some (.credits remaining plan) =>
        fetchSucceeded config env.now env.writtenAt snapshotId remaining plan key
      | _ => key
    else if r.statusCode = 401 ∨ r.statusCode = 403 then fetchUnauthorized key
    else if r.statusCode = 429 then fetchRateLimited env.now key
    else key
  | _ => key

theorem settleFetch_row (config : AppConfig) (env : FetchEnv) (id : Nat) (w : World) :
    RowUpdated w (settleFetch config env id w).2 id
      (fetchRow config env w.db.creditSnapshots.nextId) := by
  have hnoRow : ∀ w' : World, (∀ other, w'.key? other = w.key? other) →
      (∀ key, fetchRow config env w.db.creditSnapshots.nextId key = key) →
      RowUpdated w w' id (fetchRow config env w.db.creditSnapshots.nextId) :=
    fun w' hkey hrow => .unchanged hkey fun key _ => hrow key
  rw [settleFetch]
  simp only
  split
  · next houtcome => exact hnoRow _ (fun _ => rfl) fun key => by simp only [fetchRow, houtcome]
  · next houtcome => exact hnoRow _ (fun _ => rfl) fun key => by simp only [fetchRow, houtcome]
  · next houtcome => exact hnoRow _ (fun _ => rfl) fun key => by simp only [fetchRow, houtcome]
  · next houtcome => exact hnoRow _ (fun _ => rfl) fun key => by simp only [fetchRow, houtcome]
  next r houtcome =>
  split
  · next h200 =>
    split
    · next hanswer =>
        exact hnoRow _ (fun _ => rfl)
          fun key => by simp only [fetchRow, houtcome, if_pos h200, hanswer]
    · next hanswer =>
        exact hnoRow _ (fun _ => rfl)
          fun key => by simp only [fetchRow, houtcome, if_pos h200, hanswer]
    · next hanswer =>
        exact hnoRow _ (fun _ => rfl)
          fun key => by simp only [fetchRow, houtcome, if_pos h200, hanswer]
    · next hanswer =>
        exact hnoRow _ (fun _ => rfl)
          fun key => by simp only [fetchRow, houtcome, if_pos h200, hanswer]
    · next remaining plan hanswer =>
      exact RowUpdated.congr (rowUpdated_modifyKey (w.addSnapshot _) id _) fun key => by
        simp only [fetchRow, houtcome, if_pos h200, hanswer]
  next h200 =>
  split
  · next hauth =>
    exact RowUpdated.congr (rowUpdated_modifyKey (w.addSnapshot _) id _) fun key => by
      simp only [fetchRow, houtcome, if_neg h200, if_pos hauth]
  next hauth =>
  split
  · next h429 =>
    exact RowUpdated.congr (rowUpdated_modifyKey (w.addSnapshot _) id _) fun key => by
      simp only [fetchRow, houtcome, if_neg h200, if_neg hauth, if_pos h429]
  · next h429 =>
    exact hnoRow _ (fun _ => rfl) fun key => by
      simp only [fetchRow, houtcome, if_neg h200, if_neg hauth, if_neg h429]

/-- A fetch changes the row of its key by the outcome, or disables it where it cannot be
decrypted. -/
theorem fetch_row (config : AppConfig) (security : Security) (masterKey : Bytes) (env : FetchEnv)
    (requestId : String) (id : Nat) (key : ApiKey) (w : World) :
    RowUpdated w (fetchCreditFromFirecrawl config security masterKey env requestId id key w).world
      id
      (if security.decryptApiKey masterKey key.apiKeyCiphertext = none then disableKeyDecryptFailed
      else fetchRow config env w.db.creditSnapshots.nextId) := by
  rw [fetchCreditFromFirecrawl]
  cases hsecret : security.decryptApiKey masterKey key.apiKeyCiphertext with
  | none =>
    rw [if_pos rfl]
    exact rowUpdated_modifyKey (w.addSnapshot (failedSnapshot id env.writtenAt)) id
      disableKeyDecryptFailed
  | some plaintextKey =>
    rw [if_neg (by simp)]
    exact settleFetch_row config env id w

/-! ### Columns no outcome writes -/

/-- A row with the columns an outcome can write taken from another row. -/
def withOutcome (key row : ApiKey) : ApiKey :=
  { key with
    isActive := row.isActive
    status := row.status
    cooldownUntil := row.cooldownUntil
    dailyUsage := row.dailyUsage
    totalRequests := row.totalRequests
    lastUsedAt := row.lastUsedAt
    cachedRemainingCredits := row.cachedRemainingCredits
    cachedPlanCredits := row.cachedPlanCredits
    lastCreditSnapshotId := row.lastCreditSnapshotId
    lastCreditCheckAt := row.lastCreditCheckAt
    nextRefreshAt := row.nextRefreshAt }

theorem markActive_frame (key : ApiKey) : markActive key = withOutcome key (markActive key) := by
  rw [markActive]
  split <;> rfl

theorem markCooling_frame (now : Instant) (seconds : Int) (key : ApiKey) :
    markCooling now seconds key = withOutcome key (markCooling now seconds key) := by
  rw [markCooling]
  split
  · rfl
  split <;> rfl

theorem failureRow_frame (config : AppConfig) (now : Instant) (reached : Bool) (key : ApiKey) :
    failureRow config now reached key = withOutcome key (failureRow config now reached key) := by
  rw [failureRow]
  split
  · rfl
  rw [markFailed]
  split <;> rfl

theorem consumeKey_frame (now : Instant) (key : ApiKey) :
    consumeKey now key = withOutcome key (consumeKey now key) := by
  simp only [consumeKey]
  split <;> rfl

theorem deductCredits_frame (cost : Option Int) (key : ApiKey) :
    deductCredits cost key = withOutcome key (deductCredits cost key) := by
  simp only [deductCredits]
  split <;> rfl

theorem accountRow_frame (config : AppConfig) (method upstreamPath : String) (r : UpstreamResponse)
    (now : Instant) (key : ApiKey) :
    accountRow config method upstreamPath r now key =
      withOutcome key (accountRow config method upstreamPath r now key) := by
  simp only [accountRow]
  split
  · rw [consumeKey_frame, deductCredits_frame]
    rfl
  · exact deductCredits_frame _ key

theorem settleRow_frame (config : AppConfig) (method upstreamPath : String) (outcome : Outcome)
    (now : Instant) (reached : Bool) (key : ApiKey) :
    settleRow config method upstreamPath outcome now reached key =
      withOutcome key (settleRow config method upstreamPath outcome now reached key) := by
  cases outcome with
  | timeout => exact failureRow_frame config now reached key
  | httpError text => exact failureRow_frame config now reached key
  | exception text => rfl
  | unsent text => rfl
  | response r =>
    simp only [settleRow]
    split
    · exact markCooling_frame _ _ _
    split
    · rfl
    split
    · exact failureRow_frame config now reached key
    split
    · exact accountRow_frame config method upstreamPath r now key
    · rfl

theorem settleRow_quotaResetAt (config : AppConfig) (method path : String) (outcome : Outcome)
    (now : Instant) (reached : Bool) (key : ApiKey) :
    (settleRow config method path outcome now reached key).quotaResetAt = key.quotaResetAt := by
  rw [settleRow_frame]
  rfl

theorem fetchRow_frame (config : AppConfig) (env : FetchEnv) (snapshotId : Nat) (key : ApiKey) :
    fetchRow config env snapshotId key = withOutcome key (fetchRow config env snapshotId key) := by
  simp only [fetchRow]
  split
  · split
    · split <;> rfl
    split
    · rfl
    split <;> rfl
  · rfl

end Fcam

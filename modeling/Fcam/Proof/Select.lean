import Mathlib.Data.List.Rotate
import Fcam.Model.KeyPool

/-!
# What a selection does to the key rows

`examine_cases` says once what the loop of `select` can make of one key. The loop as a whole is
described by `mem_scan_examined` (every key it passed was examined from its loaded row) and
`scan_selected` (the key it ends at was eligible). `select_ok` and `select_key?` put both over the
key table: the key returned, and every committed row, come from the row before by one examination,
which writes no column besides `daily_usage`, `quota_reset_at`, `status` and `cooldown_until`.
-/

namespace Fcam

/-! ### One key -/

/-- A row with the columns an examination can write taken from another row. -/
def withScheduling (key row : ApiKey) : ApiKey :=
  { key with
    dailyUsage := row.dailyUsage
    quotaResetAt := row.quotaResetAt
    status := row.status
    cooldownUntil := row.cooldownUntil }

theorem withScheduling_self (key : ApiKey) : withScheduling key key = key := rfl

theorem lazyReset_frame (today : Day) (key : ApiKey) :
    lazyReset today key = withScheduling key (lazyReset today key) := by
  rw [lazyReset]
  split
  · exact (withScheduling_self key).symm
  · rfl

@[simp] theorem lazyReset_quotaResetAt (today : Day) (key : ApiKey) :
    (lazyReset today key).quotaResetAt = some today := by
  rw [lazyReset]
  split
  · next heq => exact heq
  · rfl

theorem lazyReset_dailyUsage (today : Day) (key : ApiKey) :
    (lazyReset today key).dailyUsage = if key.quotaResetAt = some today then key.dailyUsage
      else 0 := by
  rw [lazyReset]
  split <;> rfl

@[simp] theorem lazyReset_cooldownUntil (today : Day) (key : ApiKey) :
    (lazyReset today key).cooldownUntil = key.cooldownUntil := by
  rw [lazyReset]
  split <;> rfl

@[simp] theorem lazyReset_dailyQuota (today : Day) (key : ApiKey) :
    (lazyReset today key).dailyQuota = key.dailyQuota := by
  rw [lazyReset]
  split <;> rfl

/-- What the quota test is applied to: the row after the lazy reset, with a back-off that is over
cleared. -/
def ReachesQuotaTest (env : PoolEnv) (id : Nat) (key tested : ApiKey) : Prop :=
  let key := lazyReset env.reading.today key
  (backsOff key = false ∧ tested = key) ∨
    (backsOff key = true ∧ tested = { key with cooldownUntil := none, status := .active } ∧
      ∃ remaining, backOffSeconds env id key = .ok remaining ∧ remaining ≤ 0)

theorem ReachesQuotaTest.dailyUsage {env : PoolEnv} {id : Nat} {key tested : ApiKey}
    (h : ReachesQuotaTest env id key tested) :
    tested.dailyUsage = (lazyReset env.reading.today key).dailyUsage := by
  rcases h with ⟨_, rfl⟩ | ⟨_, rfl, _⟩ <;> rfl

theorem ReachesQuotaTest.quotaResetAt {env : PoolEnv} {id : Nat} {key tested : ApiKey}
    (h : ReachesQuotaTest env id key tested) : tested.quotaResetAt = some env.reading.today := by
  rcases h with ⟨_, rfl⟩ | ⟨_, rfl, _⟩ <;> simp

theorem ReachesQuotaTest.frame {env : PoolEnv} {id : Nat} {key tested : ApiKey}
    (h : ReachesQuotaTest env id key tested) : tested = withScheduling key tested := by
  have hframe := lazyReset_frame env.reading.today key
  rcases h with ⟨_, rfl⟩ | ⟨_, rfl, _⟩
  · exact hframe
  · rw [hframe]
    rfl

/-- What the loop can make of one key. -/
inductive Examines (env : PoolEnv) (id : Nat) (key : ApiKey) : Verdict → ApiKey → Prop where
  | disabled (hdisabled : isDisabled key = true) : Examines env id key .disabled key
  | cooling (remaining : Int) (henabled : isDisabled key = false)
      (hbacks : backsOff (lazyReset env.reading.today key) = true)
      (hseconds : backOffSeconds env id (lazyReset env.reading.today key) = .ok remaining)
      (hpositive : 0 < remaining) :
      Examines env id key (.cooling remaining) (lazyReset env.reading.today key)
  | quotaExceeded (tested : ApiKey) (henabled : isDisabled key = false)
      (htested : ReachesQuotaTest env id key tested)
      (hquota : tested.dailyQuota ≤ tested.dailyUsage) :
      Examines env id key .quotaExceeded { tested with status := .quotaExceeded }
  | eligible (tested : ApiKey) (henabled : isDisabled key = false)
      (htested : ReachesQuotaTest env id key tested)
      (hquota : tested.dailyUsage < tested.dailyQuota) :
      Examines env id key .eligible tested

private theorem examines_of_testQuota {env : PoolEnv} {id : Nat} {key tested : ApiKey}
    {verdict : Verdict} {row : ApiKey} (henabled : isDisabled key = false)
    (htested : ReachesQuotaTest env id key tested) (h : testQuota tested = (verdict, row)) :
    Examines env id key verdict row := by
  rw [testQuota] at h
  split at h
  · next hquota =>
    cases h
    exact .quotaExceeded tested henabled htested hquota
  · next hquota =>
    cases h
    exact .eligible tested henabled htested (Nat.lt_of_not_le hquota)

theorem examine_cases {env : PoolEnv} {id : Nat} {key : ApiKey} {verdict : Verdict} {row : ApiKey}
    (h : examine env id key = .ok (verdict, row)) : Examines env id key verdict row := by
  rw [examine] at h
  split at h
  · next hdisabled =>
    cases h
    exact .disabled hdisabled
  · next henabled =>
    rw [Bool.not_eq_true] at henabled
    simp only at h
    split at h
    · next hbacks =>
      cases hseconds : backOffSeconds env id (lazyReset env.reading.today key) with
      | error error =>
        rw [hseconds] at h
        cases h
      | ok remaining =>
        rw [hseconds] at h
        simp only at h
        split at h
        · next hpositive =>
          cases h
          exact .cooling remaining henabled hbacks hseconds hpositive
        · next hover =>
          have htested : ReachesQuotaTest env id key
              { lazyReset env.reading.today key with cooldownUntil := none, status := .active } :=
            .inr ⟨hbacks, rfl, remaining, hseconds, Int.not_lt.mp hover⟩
          exact examines_of_testQuota henabled htested (Except.ok.inj h)
    · next hbacks =>
      rw [Bool.not_eq_true] at hbacks
      exact examines_of_testQuota henabled (.inl ⟨hbacks, rfl⟩) (Except.ok.inj h)

theorem Examines.frame {env : PoolEnv} {id : Nat} {key : ApiKey} {verdict : Verdict} {row : ApiKey}
    (h : Examines env id key verdict row) : row = withScheduling key row := by
  cases h with
  | disabled => rfl
  | cooling => exact lazyReset_frame env.reading.today key
  | quotaExceeded tested henabled htested hquota =>
    rw [htested.frame]
    rfl
  | eligible tested henabled htested hquota => exact htested.frame

/-- An examination leaves a disabled key alone and brings the counter of any other to the day. -/
theorem Examines.counter {env : PoolEnv} {id : Nat} {key : ApiKey} {verdict : Verdict}
    {row : ApiKey} (h : Examines env id key verdict row) :
    (isDisabled key = true ∧ verdict = .disabled ∧ row = key) ∨
      (isDisabled key = false ∧ verdict ≠ .disabled ∧ row.quotaResetAt = some env.reading.today ∧
        row.dailyUsage = if key.quotaResetAt = some env.reading.today then key.dailyUsage
          else 0) := by
  cases h with
  | disabled hdisabled => exact .inl ⟨hdisabled, rfl, rfl⟩
  | cooling remaining henabled hbacks hseconds hpositive =>
    exact .inr ⟨henabled, nofun, lazyReset_quotaResetAt _ key, lazyReset_dailyUsage _ key⟩
  | quotaExceeded tested henabled htested hquota =>
    exact .inr ⟨henabled, nofun, htested.quotaResetAt,
      htested.dailyUsage.trans (lazyReset_dailyUsage _ key)⟩
  | eligible tested henabled htested hquota =>
    exact .inr ⟨henabled, nofun, htested.quotaResetAt,
      htested.dailyUsage.trans (lazyReset_dailyUsage _ key)⟩

theorem examine_error {env : PoolEnv} {id : Nat} {key : ApiKey} {error : FcamError}
    (h : examine env id key = .error error) : env.remainingSeconds id = .error error := by
  rw [examine] at h
  split at h
  · cases h
  simp only at h
  split at h
  · split at h
    · next e hseconds =>
      cases h
      rw [backOffSeconds] at hseconds
      simp only [bind, Except.bind, pure, Except.pure] at hseconds
      split at hseconds
      · split at hseconds
        · next hstore =>
          cases hseconds
          exact hstore
        · cases hseconds
      · cases hseconds
    · split at h <;> cases h
  · cases h

/-! ### The loop -/

theorem mem_scan_examined {env : PoolEnv} {keys : List ((Nat × ApiKey) × Nat)} {e : Examined}
    (hmem : e ∈ (scan env keys).2) :
    ∃ key idx, ((e.id, key), idx) ∈ keys ∧ Examines env e.id key e.verdict e.row := by
  fun_induction scan env keys with
  | case1 => cases hmem
  | case2 => cases hmem
  | case3 id key idx rest row hexamine =>
    rw [List.mem_singleton] at hmem
    subst hmem
    exact ⟨key, idx, List.mem_cons_self, examine_cases hexamine⟩
  | case4 id key idx rest verdict row hne hexamine scanEnd examined hrest ih =>
    rcases List.mem_cons.mp hmem with rfl | htail
    · exact ⟨key, idx, List.mem_cons_self, examine_cases hexamine⟩
    · obtain ⟨key', idx', hkey, hcases⟩ := ih (by rw [hrest]; exact htail)
      exact ⟨key', idx', List.mem_cons_of_mem _ hkey, hcases⟩

theorem scan_raised {env : PoolEnv} {rows : List ((Nat × ApiKey) × Nat)} {error : FcamError}
    (h : (scan env rows).1 = .raised error) : ∃ id, env.remainingSeconds id = .error error := by
  fun_induction scan env rows with
  | case1 => cases h
  | case2 id key idx rest e hexamine =>
    cases h
    exact ⟨id, examine_error hexamine⟩
  | case3 => cases h
  | case4 id key idx rest verdict row hne hexamine scanEnd examined hrest ih =>
    rw [hrest] at ih
    exact ih h

theorem scan_selected {env : PoolEnv} {keys : List ((Nat × ApiKey) × Nat)} {idx id : Nat}
    {row : ApiKey} (h : (scan env keys).1 = .selected idx id row) :
    ⟨id, .eligible, row⟩ ∈ (scan env keys).2 := by
  fun_induction scan env keys with
  | case1 => cases h
  | case2 => cases h
  | case3 id key idx rest row hexamine =>
    cases h
    exact List.mem_singleton_self _
  | case4 id key idx rest verdict row hne hexamine scanEnd examined hrest ih =>
    rw [hrest] at ih
    exact List.mem_cons_of_mem _ (ih h)

theorem scan_eligible {env : PoolEnv} {keys : List ((Nat × ApiKey) × Nat)} {e : Examined}
    (hmem : e ∈ (scan env keys).2) (heligible : e.verdict = .eligible) :
    ∃ idx id row, (scan env keys).1 = .selected idx id row := by
  fun_induction scan env keys with
  | case1 => cases hmem
  | case2 => cases hmem
  | case3 id key idx rest row hexamine => exact ⟨idx, id, row, rfl⟩
  | case4 id key idx rest verdict row hne hexamine scanEnd examined hrest ih =>
    rw [hrest] at ih
    rcases List.mem_cons.mp hmem with rfl | htail
    · exact absurd heligible hne
    · exact ih htail

theorem scan_ids_sublist (env : PoolEnv) (keys : List ((Nat × ApiKey) × Nat)) :
    ((scan env keys).2.map Examined.id).Sublist (keys.map fun row => row.1.1) := by
  fun_induction scan env keys with
  | case1 => exact .slnil
  | case2 => exact List.nil_sublist _
  | case3 id key idx rest row hexamine => exact (List.nil_sublist _).cons_cons id
  | case4 id key idx rest verdict row hne hexamine scanEnd examined hrest ih =>
    rw [hrest] at ih
    exact ih.cons_cons id

/-- A loop that ends at a key has passed over the keys before it. -/
theorem scan_split {env : PoolEnv} {rows : List ((Nat × ApiKey) × Nat)} {idx id : Nat}
    {row : ApiKey} (h : (scan env rows).1 = .selected idx id row) :
    ∃ passed key rest, rows = passed ++ ((id, key), idx) :: rest ∧
      examine env id key = .ok (.eligible, row) ∧
      (scan env rows).2.map Examined.id = passed.map (fun r => r.1.1) ++ [id] ∧
      ∀ r ∈ passed, ∃ verdict row, examine env r.1.1 r.1.2 = .ok (verdict, row) ∧
        verdict ≠ .eligible := by
  fun_induction scan env rows with
  | case1 => cases h
  | case2 => cases h
  | case3 id' key idx' rest row' hexamine =>
    cases h
    exact ⟨[], key, rest, rfl, hexamine, rfl, fun _ hmem => absurd hmem List.not_mem_nil⟩
  | case4 id' key idx' rest verdict row' hne hexamine scanEnd examined hrest ih =>
    rw [hrest] at ih
    obtain ⟨passed, key', rest', hrows, heligible, hids, hpassed⟩ := ih h
    refine ⟨((id', key), idx') :: passed, key', rest', by rw [hrows, List.cons_append], heligible,
      ?_, ?_⟩
    · rw [List.map_cons, hids, List.map_cons, List.cons_append]
    · intro r hmem
      rcases List.mem_cons.mp hmem with rfl | hold
      · exact ⟨verdict, row', hexamine, hne⟩
      · exact hpassed r hold

theorem map_zipIdx_id (keys : List (Nat × ApiKey)) :
    (keys.zipIdx.map fun r => r.1.1) = keys.map Prod.fst := by
  conv_rhs => rw [← List.zipIdx_map_fst 0 keys, List.map_map]
  rfl

theorem mem_cyclicFrom {start : Nat} {keys : List (Nat × ApiKey)} {row : Nat × ApiKey} {idx : Nat}
    (hmem : (row, idx) ∈ cyclicFrom start keys) : row ∈ keys := by
  rw [cyclicFrom, List.mem_rotate] at hmem
  exact List.fst_mem_of_mem_zipIdx hmem

theorem exists_mem_cyclicFrom (start : Nat) {keys : List (Nat × ApiKey)} {row : Nat × ApiKey}
    (hmem : row ∈ keys) :
    ∃ visit ∈ cyclicFrom start keys, visit.1 = row := by
  rw [← List.zipIdx_map_fst 0 keys] at hmem
  obtain ⟨visit, hvisit, hrow⟩ := List.mem_map.mp hmem
  exact ⟨visit, List.mem_rotate.mpr hvisit, hrow⟩

theorem cyclicFrom_ids_nodup (start : Nat) {keys : List (Nat × ApiKey)}
    (hnodup : (keys.map Prod.fst).Nodup) :
    ((cyclicFrom start keys).map fun row => row.1.1).Nodup := by
  rw [cyclicFrom, List.map_rotate, List.nodup_rotate, map_zipIdx_id]
  exact hnodup

/-- The four ways a loop that found no key refuses, with what is told to wait for. -/
theorem exhaustedError_cases (env : PoolEnv) (clientId : Option Nat) (examined : List Examined) :
    (exhaustedError env clientId examined).code = .allKeysDisabled ∨
      ((exhaustedError env clientId examined).code = .allKeysQuotaExceeded ∧
        (exhaustedError env clientId examined).retryAfter = some env.secondsUntilNextMidnight) ∨
      ((exhaustedError env clientId examined).code = .allKeysCooling ∧
        (exhaustedError env clientId examined).retryAfter = coolingRetryAfter examined) ∨
      (exhaustedError env clientId examined).code = .noKeyAvailable := by
  rw [exhaustedError]
  split
  · exact .inl rfl
  split
  · exact .inr (.inl ⟨rfl, rfl⟩)
  split
  · exact .inr (.inr (.inl ⟨rfl, rfl⟩))
  · exact .inr (.inr (.inr rfl))

/-! ### The key table -/

theorem commitExamined_get? {keys : Table ApiKey} {examined : List Examined} {id : Nat}
    {row : ApiKey} (hget : (commitExamined keys examined).get? id = some row) :
    ∃ key, keys.get? id = some key ∧
      ((row = key ∧ ∀ e ∈ examined, e.id ≠ id) ∨ ∃ e ∈ examined, e.id = id ∧ row = e.row) := by
  rw [commitExamined, Table.get?_mapRows, Option.map_eq_some_iff] at hget
  obtain ⟨key, hkey, rfl⟩ := hget
  refine ⟨key, hkey, ?_⟩
  cases hfind : examined.find? fun e => decide (e.id = id) with
  | none =>
    exact .inl ⟨rfl, fun e hmem heq => List.find?_eq_none.mp hfind e hmem (decide_eq_true heq)⟩
  | some e =>
    have hid := List.find?_some hfind
    exact .inr ⟨e, List.mem_of_find?_eq_some hfind, of_decide_eq_true hid, rfl⟩

private theorem find?_id_of_mem {examined : List Examined}
    (hnodup : (examined.map Examined.id).Nodup) {e : Examined} (hmem : e ∈ examined) :
    examined.find? (fun e' => decide (e'.id = e.id)) = some e := by
  induction examined with
  | nil => cases hmem
  | cons first rest ih =>
    rw [List.map_cons, List.nodup_cons] at hnodup
    rcases List.mem_cons.mp hmem with rfl | hrest
    · simp
    · have hne : first.id ≠ e.id := fun heq => hnodup.1 (heq ▸ List.mem_map_of_mem hrest)
      rw [List.find?_cons_of_neg (by simpa using hne)]
      exact ih hnodup.2 hrest

theorem commitExamined_get?_of_mem {keys : Table ApiKey} {examined : List Examined} {e : Examined}
    {key : ApiKey} (hnodup : (examined.map Examined.id).Nodup) (hmem : e ∈ examined)
    (hkey : keys.get? e.id = some key) :
    (commitExamined keys examined).get? e.id = some e.row := by
  rw [commitExamined, Table.get?_mapRows, hkey, Option.map_some, find?_id_of_mem hnodup hmem]
  rfl

theorem select_ids_nodup (t : Table ApiKey) (p : ApiKey → Bool) :
    ((t.select p).map Prod.fst).Nodup :=
  t.nodup_ids.sublist (List.filter_sublist.map _)

section Select

variable {env : PoolEnv} {w : World} {clientId : Option Nat} {provider : Provider}

theorem select_examined {e : Examined} (hmem : e ∈ (select env w clientId provider).examined) :
    ∃ key, w.key? e.id = some key ∧ inScope clientId provider key = true ∧
      Examines env e.id key e.verdict e.row := by
  rw [select] at hmem
  simp only at hmem
  split at hmem
  · cases hmem
  split at hmem
  · cases hmem
  have hscan : e ∈ (scan env (cyclicFrom
      (w.rrIndexByScope { clientId, provider } %
       (w.db.keys.select (inScope clientId provider)).length)
      (w.db.keys.select (inScope clientId provider)))).2 := by
    split at hmem <;> simp_all
  obtain ⟨key, idx, hkey, hcases⟩ := mem_scan_examined hscan
  have hscope := Table.mem_select.mp (mem_cyclicFrom hkey)
  exact ⟨key, hscope.1, hscope.2, hcases⟩

theorem select_world (env : PoolEnv) (w : World) (clientId : Option Nat) (provider : Provider) :
    let selection := select env w clientId provider
    selection.world = w ∨
      ∃ rr, selection.world =
        { w.withKeys (commitExamined w.db.keys selection.examined) with rrIndexByScope := rr } := by
  intro selection
  simp only [selection, select]
  split
  · exact .inl rfl
  split
  · exact .inl rfl
  split
  · exact .inl rfl
  · exact .inl rfl
  · exact .inr ⟨_, rfl⟩

/-- A selection that returns a key has found it eligible and writes the rows it examined. -/
theorem select_selected {id : Nat} {row : ApiKey}
    (h : (select env w clientId provider).result = .ok (id, row)) :
    ⟨id, .eligible, row⟩ ∈ (select env w clientId provider).examined ∧
      (select env w clientId provider).world.db.keys =
        commitExamined w.db.keys (select env w clientId provider).examined ∧
      ((select env w clientId provider).examined.map Examined.id).Nodup := by
  rw [select] at h ⊢
  simp only at h ⊢
  split at h
  · cases h
  split at h
  · cases h
  next hempty hactive =>
  rw [if_neg hempty, if_neg hactive]
  have hnodup := cyclicFrom_ids_nodup
    (w.rrIndexByScope { clientId, provider } %
     (w.db.keys.select (inScope clientId provider)).length)
    (select_ids_nodup w.db.keys (inScope clientId provider))
  have hsub := hnodup.sublist (scan_ids_sublist env _)
  split at h
  · cases h
  · cases h
  · next idx id' key' examined hscan =>
    cases h
    have hmem := scan_selected (congrArg Prod.fst hscan)
    rw [hscan] at hsub hmem
    exact ⟨hmem, rfl, hsub⟩

theorem select_ok {id : Nat} {row : ApiKey}
    (h : (select env w clientId provider).result = .ok (id, row)) :
    (select env w clientId provider).world.key? id = some row ∧
      ∃ key, w.key? id = some key ∧ inScope clientId provider key = true ∧
        Examines env id key .eligible row := by
  obtain ⟨hmem, hworld, hnodup⟩ := select_selected h
  obtain ⟨key, hkey, hscope, hcases⟩ := select_examined hmem
  refine ⟨?_, key, hkey, hscope, hcases⟩
  rw [World.key?, hworld]
  exact commitExamined_get?_of_mem hnodup hmem hkey

theorem select_key? {id : Nat} {row : ApiKey}
    (h : (select env w clientId provider).world.key? id = some row) :
    ∃ key, w.key? id = some key ∧ (row = key ∨ ∃ verdict, Examines env id key verdict row) := by
  rcases select_world env w clientId provider with hsame | ⟨rr, hrows⟩
  · rw [hsame] at h
    exact ⟨row, h, .inl rfl⟩
  · rw [hrows] at h
    obtain ⟨key, hkey, hrow⟩ := commitExamined_get? h
    refine ⟨key, hkey, hrow.imp And.left ?_⟩
    rintro ⟨e, hmem, rfl, rfl⟩
    obtain ⟨key', hkey', _, hcases⟩ := select_examined hmem
    rw [World.key?, hkey, Option.some.injEq] at hkey'
    subst hkey'
    exact ⟨e.verdict, hcases⟩

/-- A selection writes no column of a row besides those of its schedule, and makes and loses no
row. -/
theorem select_scheduling (env : PoolEnv) (w : World) (clientId : Option Nat) (provider : Provider)
    (id : Nat) :
    Option.Rel (fun key row => row = withScheduling key row) (w.key? id)
      ((select env w clientId provider).world.key? id) := by
  have hsome : ((select env w clientId provider).world.key? id).isSome = (w.key? id).isSome := by
    rcases select_world env w clientId provider with hsame | ⟨_, hrows⟩
    · rw [hsame]
    · rw [hrows]
      exact (congrArg Option.isSome (Table.get?_mapRows w.db.keys _ id)).trans Option.isSome_map
  cases hkey : w.key? id with
  | none =>
    rw [hkey, Option.isSome_none, Option.isSome_eq_false_iff, Option.isNone_iff_eq_none] at hsome
    rw [hsome]
    exact .none
  | some key =>
    rw [hkey] at hsome
    obtain ⟨row, hrow⟩ := Option.isSome_iff_exists.mp hsome
    obtain ⟨before, hbefore, hcases⟩ := select_key? hrow
    rw [hkey, Option.some.injEq] at hbefore
    subst hbefore
    rw [hrow]
    rcases hcases with rfl | ⟨verdict, hcases⟩
    · exact .some (withScheduling_self row).symm
    · exact .some hcases.frame

theorem select_refused {error : FcamError}
    (h : (select env w clientId provider).result = .error error) :
    (select env w clientId provider).world = w ∧
      ∀ e ∈ (select env w clientId provider).examined, e.verdict ≠ .eligible := by
  rw [select] at h ⊢
  simp only at h ⊢
  split
  · exact ⟨rfl, fun _ hmem => absurd hmem List.not_mem_nil⟩
  next hsome =>
  split
  · exact ⟨rfl, fun _ hmem => absurd hmem List.not_mem_nil⟩
  next hactive =>
  rw [if_neg hsome, if_neg hactive] at h
  have hnone : ∀ {scanEnd examined}, scan env (cyclicFrom
      (w.rrIndexByScope { clientId, provider } %
       (w.db.keys.select (inScope clientId provider)).length)
      (w.db.keys.select (inScope clientId provider))) = (scanEnd, examined) →
      (∀ idx id row, scanEnd ≠ .selected idx id row) → ∀ e ∈ examined, e.verdict ≠ .eligible := by
    intro scanEnd examined hscan hnot e hmem heligible
    obtain ⟨idx, id, row, hselected⟩ := scan_eligible (by rw [hscan]; exact hmem) heligible
    rw [hscan] at hselected
    exact hnot idx id row hselected
  split
  · next hscan => exact ⟨rfl, hnone hscan (fun _ _ _ => nofun)⟩
  · next hscan => exact ⟨rfl, hnone hscan (fun _ _ _ => nofun)⟩
  · next hscan =>
    rw [hscan] at h
    cases h

/-- After a selection every row is what was made of it, or it was not examined. -/
theorem select_committed {id : Nat} {key : ApiKey}
    (h : (select env w clientId provider).result = .ok (id, key)) {other : Nat} {before : ApiKey}
    (hbefore : w.key? other = some before) :
    ∃ row, (select env w clientId provider).world.key? other = some row ∧
      ((row = before ∧ ∀ e ∈ (select env w clientId provider).examined, e.id ≠ other) ∨
        ∃ e ∈ (select env w clientId provider).examined, e.id = other ∧ e.row = row) := by
  obtain ⟨_, hworld, _⟩ := select_selected h
  have hget : ((select env w clientId provider).world.key? other).isSome = true := by
    rw [World.key?, hworld, commitExamined, Table.get?_mapRows, Option.isSome_map]
    rw [World.key?] at hbefore
    rw [hbefore]
    rfl
  obtain ⟨row, hrow⟩ := Option.isSome_iff_exists.mp hget
  refine ⟨row, hrow, ?_⟩
  rw [World.key?, hworld] at hrow
  obtain ⟨key, hkey, hcases⟩ := commitExamined_get? hrow
  rw [World.key?, hkey, Option.some.injEq] at hbefore
  subst hbefore
  exact hcases.imp_right fun ⟨e, hmem, hid, heq⟩ => ⟨e, hmem, hid, heq.symm⟩

end Select

end Fcam

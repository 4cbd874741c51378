import Fcam.Proof.Counting
import Fcam.Proof.Moves

/-!
# No update is lost while the counters are fresh

`step_effect` says once what a step writes; every step but a client's reset, the commit of a
selection and the accounting of an answer leaves the counters alone. `next_counted` keeps the
counters right over a step that meets the condition, `run_counts` over a run. Two requests that
overlap on one key break the condition, and with it the count.
-/

namespace Fcam

/-! ### What a step writes -/

/-- The change concerns no counter. -/
def Write.Quiet : Write → Prop
  | key _ loaded current => SameCounters loaded current
  | client _ _ _ => False
  | roundRobin _ _ => True
  | failures _ _ => True
  | snapshot _ => True

section

variable {fwd : Forwarder} {turn : Turn} {w : World}

theorem failureWrites_quiet {now : Instant} {id : Nat} {key : ApiKey} :
    ∀ write ∈ (Dispatch.failureWrites fwd now id key w).1, write.Quiet := by
  intro write hmem
  simp only [Dispatch.failureWrites] at hmem
  split at hmem
  · cases hmem
  split at hmem
  · rw [List.mem_singleton] at hmem
    subst hmem
    trivial
  · rw [List.mem_cons, List.mem_singleton] at hmem
    rcases hmem with rfl | rfl
    · trivial
    · show SameCounters key (markFailed fwd.config now key)
      rw [markFailed]
      split <;> exact ⟨rfl, rfl, rfl, rfl, rfl⟩

theorem outcomeWrites_quiet {now : Instant} {id : Nat} {key : ApiKey} {outcome : Outcome} :
    ∀ write ∈ (Dispatch.outcomeWrites fwd now id key outcome w).1, write.Quiet := by
  intro write hmem
  cases outcome with
  | timeout => exact failureWrites_quiet write hmem
  | httpError text => exact failureWrites_quiet write hmem
  | exception text => cases hmem
  | unsent text => cases hmem
  | response r =>
    simp only [Dispatch.outcomeWrites] at hmem
    split at hmem
    · split at hmem
      · cases hmem
      · rw [List.mem_singleton] at hmem
        subst hmem
        show SameCounters key (markCooling now (cooldownOf fwd.config r.headers) key)
        rw [markCooling]
        split
        · exact ⟨rfl, rfl, rfl, rfl, rfl⟩
        · split <;> exact ⟨rfl, rfl, rfl, rfl, rfl⟩
    split at hmem
    · rw [List.mem_singleton] at hmem
      subst hmem
      exact ⟨rfl, rfl, rfl, rfl, rfl⟩
    split at hmem
    · exact failureWrites_quiet write hmem
    · cases hmem

theorem accounted_of_idle {d : Dispatch} (hidle : d.phase.idle = true) : d.accounted = none := by
  rw [Dispatch.accounted]
  cases hphase : d.phase with
  | finished answered =>
    rw [hphase] at hidle
    exact Option.isNone_iff_eq_none.mp hidle
  | _ => rfl

/-! ### What a request holds after a step -/

variable {tracked : Counter → Prop} {today : Day} {w₀ : World} {d d' : Dispatch}

theorem Dispatch.CopiesOk.of_subset (h : d.CopiesOk tracked today w₀) (hreq : d'.req = d.req)
    (hkeys : d'.phase.keyCopies ⊆ d.phase.keyCopies)
    (hclients : d'.client.toList ++ d'.phase.clientCopies ⊆ d.client.toList ++ d.phase.clientCopies)
    (hphase : d'.phase.isPicked = false) : d'.CopiesOk tracked today w₀ where
  hasClient := by
    rw [hreq]
    exact h.hasClient
  keys copy hmem := h.keys copy (hkeys hmem)
  clients copy hmem := by
    rw [hreq]
    exact h.clients copy (hclients hmem)
  scanned idx id loaded examined hpicked := by
    rw [hpicked] at hphase
    exact absurd hphase.symm Bool.false_ne_true

/-- A client as it is stored, in the hands of a request that goes on to the quota test. -/
theorem Dispatch.CopiesOk.testClient (h : d.CopiesOk tracked today w₀) {client : Client}
    (hclient : ∀ client₀, w₀.client? d.req.clientId = some client₀ →
      ClientCopy tracked today client₀ client) :
    (d.begin fwd client).CopiesOk tracked today w₀ ∧
    (d.testClient fwd client).CopiesOk tracked today w₀ := by
  have hbegin : (d.begin fwd client).CopiesOk tracked today w₀ := by
    have hphase : (d.begin fwd client).phase = .lookingUp ∨
        (d.begin fwd client).phase = .choosing none ∨
          (d.begin fwd client).phase = .finished none := by
      simp only [Dispatch.begin]
      split
      · split <;> simp
      · simp
    refine ⟨h.hasClient, fun copy hmem => ?_, fun copy hmem => ?_,
      fun idx id loaded examined hpicked => ?_⟩
    · rcases hphase with heq | heq | heq <;> rw [heq] at hmem <;> cases hmem
    · have hnone : (d.begin fwd client).phase.clientCopies = [] := by
        rcases hphase with heq | heq | heq <;> rw [heq] <;> rfl
      rw [hnone, List.append_nil] at hmem
      have heq : copy = client := List.mem_singleton.mp hmem
      rw [heq]
      exact hclient
    · rcases hphase with heq | heq | heq <;> rw [heq] at hpicked <;> cases hpicked
  refine ⟨hbegin, ?_⟩
  simp only [Dispatch.testClient]
  split
  · exact hbegin
  · exact h.of_subset rfl (List.nil_subset _)
      (by simp [Dispatch.moveTo, DispatchPhase.clientCopies]) rfl

theorem scanned_of_examines {env : PoolEnv} {id : Nat} {key row : ApiKey} {verdict : Verdict}
    (h : Examines env id key verdict row) : Scanned env.reading.today key row := by
  have hreset : (row.quotaResetAt = key.quotaResetAt ∧ row.dailyUsage = key.dailyUsage) ∨
      (key.quotaResetAt ≠ some env.reading.today ∧ row.quotaResetAt = some env.reading.today ∧
       row.dailyUsage = 0) := by
    have hlazy : ∀ row : ApiKey, row.quotaResetAt = some env.reading.today →
        row.dailyUsage = (lazyReset env.reading.today key).dailyUsage →
        (row.quotaResetAt = key.quotaResetAt ∧ row.dailyUsage = key.dailyUsage) ∨
          (key.quotaResetAt ≠ some env.reading.today ∧ row.quotaResetAt = some env.reading.today ∧
            row.dailyUsage = 0) := by
      intro row hday husage
      rw [lazyReset_dailyUsage] at husage
      split at husage
      · next hsame => exact .inl ⟨hday.trans hsame.symm, husage⟩
      · next hother => exact .inr ⟨hother, hday, husage⟩
    cases h with
    | disabled => exact .inl ⟨rfl, rfl⟩
    | cooling => exact hlazy _ (lazyReset_quotaResetAt _ _) rfl
    | quotaExceeded tested henabled htested hquota =>
      exact hlazy _ htested.quotaResetAt htested.dailyUsage
    | eligible tested henabled htested hquota =>
      exact hlazy _ htested.quotaResetAt htested.dailyUsage
  have hframe := h.frame
  refine ⟨?_, ?_, ?_, hreset⟩
  · rw [hframe]
    rfl
  · rw [hframe]
    rfl
  · rw [hframe]
    rfl

theorem mem_withHeld {held : Option (Nat × ApiKey)} {rows : List (Nat × ApiKey)}
    {row : Nat × ApiKey} (hmem : row ∈ withHeld held rows) : row ∈ held.toList ∨ row ∈ rows := by
  obtain ⟨stored, hstored, rfl⟩ := List.mem_map.mp hmem
  cases hown : held.filter fun own => own.1 = stored.1 with
  | none => exact .inr hstored
  | some own =>
    obtain ⟨hheld, hid⟩ := Option.filter_eq_some_iff.mp hown
    have hsame : own.1 = stored.1 := of_decide_eq_true hid
    refine .inl ?_
    rw [hheld, Option.map_some, Option.getD_some, ← hsame]
    exact List.mem_singleton_self _

theorem withHeld_ids (held : Option (Nat × ApiKey)) (rows : List (Nat × ApiKey)) :
    (withHeld held rows).map Prod.fst = rows.map Prod.fst := by
  rw [withHeld, List.map_map]
  rfl

/-- Every row of a scan is what was made of the loaded row of its id. -/
theorem examines_of_lookup {env : PoolEnv} {start : Nat} {loaded : List (Nat × ApiKey)}
    (hnodup : (loaded.map Prod.fst).Nodup) {e : Examined}
    (hmem : e ∈ (scan env (cyclicFrom start loaded)).2) {before : ApiKey}
    (hbefore : loaded.lookup e.id = some before) : Examines env e.id before e.verdict e.row := by
  obtain ⟨key, idx, hkey, hexamines⟩ := mem_scan_examined hmem
  have hloaded : (e.id, key) ∈ loaded := mem_cyclicFrom hkey
  obtain ⟨init, rest, hsplit, _⟩ := List.lookup_eq_some_iff.mp hbefore
  have hfound : (e.id, before) ∈ loaded := by simp [hsplit]
  have hsame : (e.id, key) = (e.id, before) := List.inj_on_of_nodup_map hnodup hloaded hfound rfl
  rw [← (Prod.mk.inj hsame).2]
  exact hexamines

/-- The rows a selection loads are copies of what is stored, or the one it still holds. -/
theorem Dispatch.CopiesOk.choose (h : d.CopiesOk tracked today w₀) {held : Option (Nat × ApiKey)}
    (hheld : d.phase = .choosing held) (hday : turn.pool.reading.today = today)
    (hstored : ∀ id key, w.key? id = some key → ∀ key₀, w₀.key? id = some key₀ →
      KeyCopy tracked today key₀ key) :
    (d.choose fwd turn w held).CopiesOk tracked today w₀ := by
  have hfinished : (d.moveTo (.finished none)).CopiesOk tracked today w₀ :=
    h.of_subset rfl (List.nil_subset _) (by simp [Dispatch.moveTo, DispatchPhase.clientCopies]) rfl
  simp only [Dispatch.choose]
  split
  · split
    · exact hfinished
    split
    · next idx id row examined hscan =>
      have hkeys :
          ∀ copy ∈ withHeld held (w.db.keys.select (inScope (some d.req.clientId) d.req.provider)),
          ∀ key₀, w₀.key? copy.1 = some key₀ → KeyCopy tracked today key₀ copy.2 := by
        intro copy hmem
        rcases mem_withHeld hmem with hown | hrow
        · exact h.keys copy (by rw [hheld]; exact hown)
        · exact hstored copy.1 copy.2 (Table.mem_select.mp hrow).1
      refine ⟨h.hasClient, hkeys, fun copy hmem => ?_, fun idx' id' loaded examined' hpicked => ?_⟩
      · refine h.clients copy ?_
        rw [hheld]
        exact hmem
      · cases hpicked
        intro e he before hbefore
        have hnodup :
            ((withHeld held (w.db.keys.select (inScope (some d.req.clientId) d.req.provider))).map
            Prod.fst).Nodup := by
          rw [withHeld_ids]
          exact select_ids_nodup _ _
        rw [← hday]
        exact scanned_of_examines (examines_of_lookup hnodup (by rw [hscan]; exact he) hbefore)
    · exact hfinished
  · exact hfinished

theorem Dispatch.CopiesOk.finish (h : d.CopiesOk tracked today w₀) :
    (d.moveTo (.finished none)).CopiesOk tracked today w₀ :=
  h.of_subset rfl (List.nil_subset _) (by simp [Dispatch.moveTo, DispatchPhase.clientCopies]) rfl

theorem Dispatch.CopiesOk.expire (h : d.CopiesOk tracked today w₀) :
    d.expire.CopiesOk tracked today w₀ :=
  ⟨h.hasClient, h.keys, fun copy hmem => h.clients copy (List.mem_append_right _ hmem), h.scanned⟩

theorem Dispatch.CopiesOk.tryAnother (h : d.CopiesOk tracked today w₀)
    {held : Option (Nat × ApiKey)} (hheld : held.toList ⊆ d.phase.keyCopies) :
    (d.tryAnother held).CopiesOk tracked today w₀ := by
  rw [Dispatch.tryAnother]
  split
  · exact h.finish
  · exact h.of_subset rfl hheld (by simp [Dispatch.moveTo, DispatchPhase.clientCopies]) rfl

@[simp] theorem retry_req (d : Dispatch) (expired : Bool) (id : Nat) (key : ApiKey) :
    (d.retry expired id key).req = d.req := by
  rw [Dispatch.retry]
  cases expired <;> rfl

theorem Dispatch.CopiesOk.retry (h : d.CopiesOk tracked today w₀) {id : Nat} {key : ApiKey}
    (hheld : (id, key) ∈ d.phase.keyCopies) (expired : Bool) :
    (d.retry expired id key).CopiesOk tracked today w₀ := by
  have hkey : [(id, key)] ⊆ d.phase.keyCopies := by
    rintro _ hmem
    rw [List.mem_singleton.mp hmem]
    exact hheld
  cases expired with
  | true =>
    rw [Dispatch.retry]
    cases d.pinned <;>
      exact h.of_subset rfl (List.nil_subset _) (List.nil_subset _) rfl
  | false =>
    rw [Dispatch.retry]
    cases d.pinned <;>
      exact h.of_subset rfl hkey (by simp [Dispatch.moveTo, DispatchPhase.clientCopies]) rfl

/-- A request whose rows are all as they are stored. -/
theorem Dispatch.CopiesOk.load (h : d.CopiesOk tracked today w₀) (hreq : d'.req = d.req)
    (hclient : d'.client = d.client) (hclients : d'.phase.clientCopies = [])
    (hpicked : d'.phase.isPicked = false)
    (hstored : ∀ id key, w.key? id = some key → ∀ key₀, w₀.key? id = some key₀ →
      KeyCopy tracked today key₀ key)
    (hkeys : ∀ copy ∈ d'.phase.keyCopies, w.key? copy.1 = some copy.2) :
    d'.CopiesOk tracked today w₀ where
  hasClient := by
    rw [hreq]
    exact h.hasClient
  keys copy hmem := hstored copy.1 copy.2 (hkeys copy hmem)
  clients copy hmem := by
    rw [hclient, hclients, List.append_nil] at hmem
    rw [hreq]
    exact h.clients copy (List.mem_append_left _ hmem)
  scanned idx id loaded examined hphase := by
    rw [hphase] at hpicked
    cases hpicked

theorem step_req {writes : List Write} (hstep : d.step fwd turn w = some (d', writes)) :
    d'.req = d.req := by
  have htest : ∀ client, (d.testClient fwd client).req = d.req := by
    intro client
    rw [Dispatch.testClient]
    split <;> rfl
  have hchoose : ∀ held, (d.choose fwd turn w held).req = d.req := by
    intro held
    simp only [Dispatch.choose]
    split
    · split
      · rfl
      · split <;> rfl
    · rfl
  cases step_moves hstep with
  | tested client hphase => exact htest client
  | chosen held hphase => exact hchoose held
  | refused id key d' hphase hnext hrefused => rcases hnext with rfl | rfl <;> rfl
  | lost id key outcome d' hphase hlost hnext =>
    rcases hnext with ⟨expired, rfl⟩ | rfl
    · exact retry_req d expired id key
    · rfl
  | _ => rfl

theorem accounted_of_step {writes : List Write} (hstep : d.step fwd turn w = some (d', writes)) :
    d.accounted = none := by
  rw [Dispatch.accounted]
  cases hphase : d.phase with
  | finished answered => simp [Dispatch.step, hphase] at hstep
  | _ => rfl

/-- The rows a request holds after a step are copies it held before, or rows as they are stored. -/
theorem step_copies {writes : List Write} (hmode : fwd.config.quota.countMode = .success)
    (hday : turn.pool.reading.today = today) (h : d.CopiesOk tracked today w₀)
    (hclients : ∀ id client, w.client? id = some client → ∀ client₀, w₀.client? id = some client₀ →
      ClientCopy tracked today client₀ client)
    (hstored : ∀ id key, w.key? id = some key → ∀ key₀, w₀.key? id = some key₀ →
      KeyCopy tracked today key₀ key)
    (hstep : d.step fwd turn w = some (d', writes)) : d'.CopiesOk tracked today w₀ := by
  have hattempt :
      ∀ {id key}, d.phase.attempt? = some (id, key) → [(id, key)] ⊆ d.phase.keyCopies := by
    intro id key hattempt
    cases hphase : d.phase <;> rw [hphase] at hattempt <;> cases hattempt <;>
      exact List.Subset.refl _
  have hkeep : ∀ {id key phase}, d.phase.attempt? = some (id, key) → phase.keyCopies ⊆ [(id, key)] →
      phase.clientCopies = [] → phase.isPicked = false →
        (d.moveTo phase).CopiesOk tracked today w₀ := by
    intro id key phase hheld hkeys hnone hpicked
    refine h.of_subset rfl (List.Subset.trans hkeys (hattempt hheld))
      (by simp [Dispatch.moveTo, hnone]) ?_
    exact hpicked
  cases step_moves hstep with
  | begun client hphase =>
    refine (h.testClient (h.clients client (List.mem_append_right _ ?_))).1
    rw [hphase]
    exact List.mem_singleton_self _
  | tested client hphase =>
    rcases hphase with hphase | ⟨_, hloaded⟩
    · refine (h.testClient (h.clients client (List.mem_append_right _ ?_))).2
      rw [hphase]
      exact List.mem_singleton_self _
    · exact (h.testClient (hclients _ client hloaded)).2
  | unclaimed hphase => exact h.finish
  | reset client hphase hchecked hquota hother =>
    exact h.expire.of_subset rfl (List.nil_subset _) (List.nil_subset _) rfl
  | pinAccepted id key hphase hkey henabled =>
    refine h.load rfl rfl rfl rfl hstored fun copy hmem => ?_
    rw [List.mem_singleton.mp hmem]
    exact hkey
  | pinRejected held hphase hheld =>
    refine h.load rfl rfl rfl rfl hstored fun copy hmem => ?_
    exact hheld copy (Option.mem_toList.mp hmem)
  | chosen held hphase => exact h.choose hphase hday hstored
  | selected idx id loaded examined hphase =>
    exact h.of_subset rfl (List.nil_subset _) (List.nil_subset _) rfl
  | vanished id hphase => exact h.finish
  | loaded id key hphase hkey =>
    refine h.load rfl rfl rfl rfl hstored fun copy hmem => ?_
    rw [List.mem_singleton.mp hmem]
    exact hkey
  | refused id key d' hphase hnext hrefused =>
    rcases hnext with rfl | rfl
    · exact h.tryAnother (hattempt (by rw [hphase]; rfl))
    · exact h.finish
  | undecryptable id key retryAfter hphase hallow hlease hsecret =>
    exact h.expire.tryAnother (List.nil_subset _)
  | sent id key retryAfter hphase hallow hlease hsecret =>
    exact hkeep (by rw [hphase]; rfl) (List.Subset.refl _) rfl rfl
  | broke id key hphase houtcome =>
    have hfinished := h.finish
    exact ⟨hfinished.hasClient, hfinished.keys, hfinished.clients, hfinished.scanned⟩
  | returned id key hphase houtcome =>
    have hmoved : (d.moveTo (.settling id key turn.outcome)).CopiesOk tracked today w₀ :=
      hkeep (by rw [hphase]; rfl) (List.Subset.refl _) rfl rfl
    exact ⟨hmoved.hasClient, hmoved.keys, hmoved.clients, hmoved.scanned⟩
  | lost id key outcome d' hphase hlost hnext =>
    rcases hnext with ⟨expired, rfl⟩ | rfl
    · refine h.retry ?_ expired
      rw [hphase]
      exact List.mem_singleton_self _
    · exact h.finish
  | won id key r client hphase hwon hmode' hloaded =>
    -- The client is loaded now unless its copy has survived since the quota check.
    have hcopy :
        ∀ client₀, w₀.client? d.req.clientId = some client₀ →
          ClientCopy tracked today client₀ client := by
      rcases Option.or_eq_some_iff.mp hloaded with hown | ⟨_, hclient⟩
      · exact h.clients client (List.mem_append_left _ (Option.mem_toList.mpr hown))
      · exact hclients _ client hclient
    refine ⟨h.hasClient, fun copy hmem => ?_, fun copy hmem => ?_,
      fun _ _ _ _ hpicked => by cases hpicked⟩
    · refine h.keys copy ?_
      rw [hphase]
      exact hmem
    · rcases List.mem_append.mp hmem with hown | hnew
      · exact h.clients copy (List.mem_append_left _ hown)
      · rw [List.mem_singleton.mp hnew]
        exact hcopy
  | wonUnclaimed id key r hphase hwon hmode' hclient =>
    exact h.of_subset rfl (List.nil_subset _)
      (by simp [Dispatch.moveTo, DispatchPhase.clientCopies]) rfl
  | wonUncounted id key r hphase hwon hmode' => exact absurd hmode hmode'
  | accounted id key client r hphase =>
    exact h.of_subset rfl (List.nil_subset _) (List.nil_subset _) rfl

/-- What a step writes: nothing that is counted, a client's reset, a selection, or an answer. -/
inductive StepEffect (fwd : Forwarder) (today : Day) (d d' : Dispatch) (writes : List Write) :
    Prop where
  | quiet (haccounted : d'.accounted = none) (hquiet : ∀ write ∈ writes, write.Quiet)
  | reset (client : Client) (hphase : d.phase = .governing client)
      (hchecked : fwd.config.quota.enableQuotaCheck = true) (hquota : client.dailyQuota.isSome)
      (hday : client.quotaResetAt ≠ some today) (haccounted : d'.accounted = none)
      (hwrites : writes = [.client d.req.clientId client (resetClient today client)])
  | selection (idx id : Nat) (loaded : List (Nat × ApiKey)) (examined : List Examined)
      (scope : Scope) (hphase : d.phase = .picked idx id loaded examined)
      (haccounted : d'.accounted = none)
      (hwrites : writes = examinedWrites loaded examined ++ [.roundRobin scope (idx + 1)])
  | account (id : Nat) (key : ApiKey) (client : Client) (r : UpstreamResponse) (now : Instant)
      (hphase : d.phase = .accounting id key client r) (haccounted : d'.accounted = some (id, r))
      (hwrites : writes = d.accountWrites fwd now id key client r)

theorem step_effect {writes : List Write} (hmode : fwd.config.quota.countMode = .success)
    (hday : turn.pool.reading.today = today) (h : d.CopiesOk tracked today w₀)
    (hclient : ∃ client, w.client? d.req.clientId = some client)
    (hclients : ∀ id client, w.client? id = some client → ∀ client₀, w₀.client? id = some client₀ →
      ClientCopy tracked today client₀ client)
    (hstored : ∀ id key, w.key? id = some key → ∀ key₀, w₀.key? id = some key₀ →
      KeyCopy tracked today key₀ key)
    (hstep : d.step fwd turn w = some (d', writes)) :
    d'.CopiesOk tracked today w₀ ∧ d'.req = d.req ∧ d.accounted = none ∧
      StepEffect fwd today d d' writes := by
  refine ⟨step_copies hmode hday h hclients hstored hstep, step_req hstep, accounted_of_step hstep,
    ?_⟩
  have hsilent : ∀ {d' : Dispatch}, d'.phase.idle = true → StepEffect fwd today d d' [] :=
    fun hidle =>
    .quiet (accounted_of_idle hidle) fun _ hmem => absurd hmem List.not_mem_nil
  cases step_moves hstep with
  | begun client hphase => exact hsilent (begin_waits _ _ _).idle
  | tested client hphase => exact hsilent (testClient_waits _ _ _).idle
  | unclaimed hphase => exact hsilent rfl
  | reset client hphase hchecked hquota hother =>
    rw [hday] at hother ⊢
    exact .reset client hphase hchecked hquota hother rfl rfl
  | pinAccepted id key hphase hkey henabled => exact hsilent rfl
  | pinRejected held hphase hheld => exact hsilent rfl
  | chosen held hphase => exact hsilent (choose_idle _ _ _ _ _)
  | selected idx id loaded examined hphase =>
    exact .selection idx id loaded examined _ hphase rfl rfl
  | vanished id hphase => exact hsilent rfl
  | loaded id key hphase hkey => exact hsilent rfl
  | refused id key d' hphase hnext hrefused =>
    rcases hnext with rfl | rfl
    · exact hsilent (tryAnother_waits _ _).idle
    · exact hsilent rfl
  | undecryptable id key retryAfter hphase hallow hlease hsecret =>
    refine .quiet (accounted_of_idle (tryAnother_waits _ _).idle) fun write hmem => ?_
    rw [List.mem_singleton.mp hmem]
    exact ⟨rfl, rfl, rfl, rfl, rfl⟩
  | sent id key retryAfter hphase hallow hlease hsecret =>
    exact .quiet rfl fun _ hmem => absurd hmem List.not_mem_nil
  | broke id key hphase houtcome => exact hsilent rfl
  | returned id key hphase houtcome => exact .quiet rfl fun _ hmem => absurd hmem List.not_mem_nil
  | lost id key outcome d' hphase hlost hnext =>
    rcases hnext with ⟨expired, rfl⟩ | rfl
    · exact .quiet (accounted_of_idle (retry_idle _ _ _ _)) outcomeWrites_quiet
    · exact .quiet rfl outcomeWrites_quiet
  | won id key r client hphase hwon hmode' hloaded =>
    exact .quiet rfl fun _ hmem => absurd hmem List.not_mem_nil
  | wonUnclaimed id key r hphase hwon hmode' hunclaimed =>
    obtain ⟨client, hclient⟩ := hclient
    rw [hclient] at hunclaimed
    cases hown : d.client <;> rw [hown] at hunclaimed <;> cases hunclaimed
  | wonUncounted id key r hphase hwon hmode' => exact absurd hmode hmode'
  | accounted id key client r hphase => exact .account id key client r turn.settledAt hphase rfl rfl

/-! ### The tables -/

theorem key?_modifyKey_of_key? {w : World} {id : Nat} {f : ApiKey → ApiKey} {other : Nat}
    {key : ApiKey} (hkey : w.key? other = some key) :
    (w.modifyKey id f).key? other = some (if other = id then f key else key) := by
  rw [World.key?_modifyKey, hkey]
  split <;> rfl

/-- One key's row is saved in a way that keeps its counts. -/
theorem KeysCounted.save {requests : List Dispatch}
    (h : KeysCounted tracked today fwd w₀ requests w) {id : Nat} {loaded current : ApiKey}
    (hsave : ∀ key₀ key count charges, w₀.key? id = some key₀ →
      (tally (fun d => countWith id d.accounted) requests = count) →
      KeyCounted tracked today key₀ count charges key →
        KeyCounted tracked today key₀ count charges (ApiKey.save loaded current key)) :
    KeysCounted tracked today fwd w₀ requests (w.modifyKey id (ApiKey.save loaded current)) := by
  intro other key₀ hkey₀
  obtain ⟨key, hkey, hcounted⟩ := h other key₀ hkey₀
  refine ⟨_, key?_modifyKey_of_key? hkey, ?_⟩
  split
  · next heq =>
    subst heq
    exact hsave key₀ key _ _ hkey₀ rfl hcounted
  · exact hcounted

theorem ClientsCounted.save {requests : List Dispatch}
    (h : ClientsCounted tracked today w₀ requests w) {id : Nat} {loaded current : Client}
    (hsave : ∀ client₀ client count, w₀.client? id = some client₀ →
      (tally (fun d => countFor id d d.accounted) requests = count) →
      ClientCounted tracked today client₀ count client →
        ClientCounted tracked today client₀ count (Client.save loaded current client)) :
    ClientsCounted tracked today w₀ requests (w.modifyClient id (Client.save loaded current)) := by
  intro other client₀ hclient₀
  obtain ⟨client, hclient, hcounted⟩ := h other client₀ hclient₀
  rw [client?_modifyClient, hclient]
  split
  · next heq =>
    subst heq
    exact ⟨_, rfl, hsave client₀ client _ hclient₀ rfl hcounted⟩
  · exact ⟨client, rfl, hcounted⟩

/-- Writes without counters keep what is counted. -/
theorem counted_of_quiet {requests : List Dispatch} {writes : List Write}
    (hquiet : ∀ write ∈ writes, write.Quiet) (hkeys : KeysCounted tracked today fwd w₀ requests w)
    (hclients : ClientsCounted tracked today w₀ requests w) :
    KeysCounted tracked today fwd w₀ requests (commit writes w) ∧
      ClientsCounted tracked today w₀ requests (commit writes w) := by
  have hone : ∀ write ∈ writes, ∀ w : World,
      KeysCounted tracked today fwd w₀ requests w ∧ ClientsCounted tracked today w₀ requests w →
        KeysCounted tracked today fwd w₀ requests (write.apply w) ∧
          ClientsCounted tracked today w₀ requests (write.apply w) := by
    intro write hmem w ⟨hkeys, hclients⟩
    have hwrite := hquiet write hmem
    cases write with
    | key id loaded current =>
      exact ⟨hkeys.save fun _ _ _ _ _ _ hcounted => hcounted.save_same hwrite, hclients⟩
    | client id loaded current => exact hwrite.elim
    | roundRobin scope idx => exact ⟨hkeys, hclients⟩
    | failures id entry => exact ⟨hkeys, hclients⟩
    | snapshot row => exact ⟨hkeys, hclients⟩
  have hinv :
      (fun w => KeysCounted tracked today fwd w₀ requests w ∧
       ClientsCounted tracked today w₀ requests w) (commit writes w) := commit_invariant hone
         ⟨hkeys, hclients⟩
  exact hinv

/-- A selection keeps what is counted, where it resets no counter with an answer of the day on
it. -/
theorem counted_of_selection {requests : List Dispatch} {loaded : List (Nat × ApiKey)}
    {examined : List Examined}
    (hcopies : ∀ copy ∈ loaded, ∀ key₀, w₀.key? copy.1 = some key₀ →
      KeyCopy tracked today key₀ copy.2)
    (hscanned : ∀ e ∈ examined, ∀ before, loaded.lookup e.id = some before →
      Scanned today before e.row)
    (hfresh : tracked .keyUsage → ∀ e ∈ examined, ∀ before, loaded.lookup e.id = some before →
      e.row.quotaResetAt ≠ before.quotaResetAt → before.dailyUsage ≠ 0 →
        tally (fun d => countWith e.id d.accounted) requests = 0)
    (hkeys : KeysCounted tracked today fwd w₀ requests w) :
    KeysCounted tracked today fwd w₀ requests (commit (examinedWrites loaded examined) w) := by
  refine commit_invariant (fun write hmem w hinv => ?_) hkeys
  obtain ⟨e, he, hwrite⟩ := List.mem_filterMap.mp hmem
  obtain ⟨before, hbefore, rfl⟩ := Option.map_eq_some_iff.mp hwrite
  obtain ⟨init, rest, hsplit, _⟩ := List.lookup_eq_some_iff.mp hbefore
  have hloaded : (e.id, before) ∈ loaded := by simp [hsplit]
  refine KeysCounted.save hinv fun key₀ key count charges hkey₀ hcount hcounted => ?_
  refine hcounted.save_scanned (hcopies _ hloaded key₀ hkey₀) (hscanned e he before hbefore) ?_
  intro hkept hreset hused
  rw [← hcount]
  exact hfresh hkept e he before hbefore hreset hused

/-! ### Counts -/

@[simp] theorem countWith_none (id : Nat) : countWith id none = 0 := rfl

@[simp] theorem countWith_some (id other : Nat) (r : UpstreamResponse) :
    countWith id (some (other, r)) = if other = id then 1 else 0 := by
  simp [countWith]

@[simp] theorem countFor_none (clientId : Nat) (d : Dispatch) : countFor clientId d none = 0 := by
  simp [countFor]

@[simp] theorem countFor_some (clientId : Nat) (d : Dispatch) (answer : Nat × UpstreamResponse) :
    countFor clientId d (some answer) = if d.req.clientId = clientId then 1 else 0 := by
  simp [countFor]

@[simp] theorem chargeWith_none (id : Nat) (d : Dispatch) : chargeWith fwd id d none = 0 := rfl

theorem chargeWith_some (id other : Nat) (d : Dispatch) (r : UpstreamResponse) :
    chargeWith fwd id d (some (other, r)) = if other = id then (d.cost fwd r).getD 0 else 0 := by
  by_cases heq : other = id <;> simp [chargeWith, Option.filter, heq]

theorem cost_of_req (hreq : d'.req = d.req) (r : UpstreamResponse) :
    d'.cost fwd r = d.cost fwd r := by
  rw [Dispatch.cost, Dispatch.cost, hreq]

theorem answered_of_accounted {answer : Nat × UpstreamResponse} (h : d.accounted = some answer) :
    d.answered = some answer := by
  rw [Dispatch.accounted] at h
  split at h
  · next answered hphase =>
    rw [Dispatch.answered, hphase]
    exact h
  · cases h

theorem countWith_accounted_le (id : Nat) (d : Dispatch) :
    countWith id d.accounted ≤ countWith id d.answered := by
  cases hanswer : d.accounted with
  | none => exact Nat.zero_le _
  | some answer =>
    rw [answered_of_accounted hanswer]

theorem countFor_accounted_le (clientId : Nat) (d : Dispatch) :
    countFor clientId d d.accounted ≤ countFor clientId d d.answered := by
  cases hanswer : d.accounted with
  | none =>
    rw [countFor_none]
    exact Nat.zero_le _
  | some answer =>
    rw [answered_of_accounted hanswer]

theorem charges_nonneg (fwd : Forwarder) (id : Nat) (requests : List Dispatch) :
    0 ≤ tally (fun d => chargeWith fwd id d d.accounted) requests := by
  induction requests with
  | nil => exact le_refl 0
  | cons d rest ih =>
    rw [tally_cons]
    exact add_nonneg (chargeWith_nonneg fwd id d d.accounted) ih

/-- An answer is accounted on the rows of its key and of its client. -/
theorem counted_of_account {requests : List Dispatch} {i id : Nat} {key : ApiKey} {client : Client}
    {r : UpstreamResponse} (now : Instant) (hget : requests[i]? = some d) (hreq : d'.req = d.req)
    (hbefore : d.accounted = none) (haccounted : d'.accounted = some (id, r))
    (hclient : ∀ client₀, w₀.client? d.req.clientId = some client₀ →
      ClientCopy tracked today client₀ client)
    (hkeyFresh : ∀ stored, w.key? id = some stored →
      (tracked .keyUsage → key.dailyUsage = stored.dailyUsage) ∧
        (tracked .keyRequests → key.totalRequests = stored.totalRequests) ∧
          (tracked .credits → (d.cost fwd r).isSome →
            key.cachedRemainingCredits = stored.cachedRemainingCredits))
    (hclientFresh : ∀ stored, w.client? d.req.clientId = some stored → tracked .clientUsage →
      client.dailyQuota.isSome → client.dailyUsage = stored.dailyUsage)
    (hkeys : KeysCounted tracked today fwd w₀ requests w)
    (hclients : ClientsCounted tracked today w₀ requests w) :
    KeysCounted tracked today fwd w₀ (requests.set i d')
      (commit (d.accountWrites fwd now id key client r) w) ∧
      ClientsCounted tracked today w₀ (requests.set i d')
        (commit (d.accountWrites fwd now id key client r) w) := by
  constructor
  · intro other key₀ hkey₀
    obtain ⟨stored, hstored, hcounted⟩ := hkeys other key₀ hkey₀
    have hcount := tally_set (fun d => countWith other d.accounted) d' hget
    have hcharges := tally_set (fun d => chargeWith fwd other d d.accounted) d' hget
    simp only [hbefore, haccounted, countWith_none, countWith_some, chargeWith_none,
      chargeWith_some, add_zero, cost_of_req hreq] at hcount hcharges
    rw [hcount, hcharges]
    have hafter : (commit (d.accountWrites fwd now id key client r) w).key? other =
        some (if other = id then
          ApiKey.save key (consumeKey now (deductCredits (d.cost fwd r) key)) stored else stored) :=
      key?_modifyKey_of_key? hstored
    refine ⟨_, hafter, ?_⟩
    by_cases heq : other = id
    · subst heq
      rw [if_pos rfl, if_pos rfl, if_pos rfl]
      obtain ⟨husage, hrequests, hcredits⟩ := hkeyFresh stored hstored
      exact hcounted.save_accounted (charges_nonneg fwd other requests)
        (fun c hc => localCost_pos hc) husage hrequests hcredits
    · rw [if_neg heq, if_neg (Ne.symm heq), if_neg (Ne.symm heq), Nat.add_zero, add_zero]
      exact hcounted
  · intro other client₀ hclient₀
    obtain ⟨stored, hstored, hcounted⟩ := hclients other client₀ hclient₀
    have hcount := tally_set (fun d => countFor other d d.accounted) d' hget
    simp only [hbefore, haccounted, countFor_none, countFor_some, add_zero, hreq] at hcount
    have hafter : (commit (d.accountWrites fwd now id key client r) w).client? other =
        if other = d.req.clientId then
          (w.client? other).map (Client.save client (consumeClient now client))
        else w.client? other :=
      client?_modifyClient other
    rw [hafter, hstored, hcount]
    by_cases heq : other = d.req.clientId
    · subst heq
      rw [if_pos rfl, if_pos rfl]
      exact ⟨_, rfl,
        hcounted.save_accounted (hclient client₀ hclient₀) (hclientFresh stored hstored)⟩
    · rw [if_neg heq, if_neg (Ne.symm heq)]
      exact ⟨stored, rfl, hcounted⟩

/-- A request that moves without an answer accounted changes no count. -/
theorem KeysCounted.set {requests : List Dispatch} {i : Nat}
    (h : KeysCounted tracked today fwd w₀ requests w) (hget : requests[i]? = some d)
    (hbefore : d.accounted = none) (haccounted : d'.accounted = none) :
    KeysCounted tracked today fwd w₀ (requests.set i d') w := by
  intro id key₀ hkey₀
  rw [tally_set_of_eq _ hget (by simp [hbefore, haccounted]),
    tally_set_of_eq _ hget (by simp [hbefore, haccounted])]
  exact h id key₀ hkey₀

theorem ClientsCounted.set {requests : List Dispatch} {i : Nat}
    (h : ClientsCounted tracked today w₀ requests w) (hget : requests[i]? = some d)
    (hbefore : d.accounted = none) (haccounted : d'.accounted = none) :
    ClientsCounted tracked today w₀ (requests.set i d') w := by
  intro id client₀ hclient₀
  rw [tally_set_of_eq _ hget (by simp [hbefore, haccounted])]
  exact h id client₀ hclient₀

/-! ### Runs -/

theorem Counted.key_copy {st : DispatchState} (h : Counted tracked today fwd w₀ st) (id : Nat)
    (key : ApiKey) (hkey : st.world.key? id = some key) (key₀ : ApiKey)
    (hkey₀ : w₀.key? id = some key₀) :
    KeyCopy tracked today key₀ key := by
  obtain ⟨stored, hstored, hcounted⟩ := h.keys id key₀ hkey₀
  rw [hkey, Option.some.injEq] at hstored
  rw [hstored]
  exact hcounted.copy

theorem Counted.client_copy {st : DispatchState} (h : Counted tracked today fwd w₀ st) (id : Nat)
    (client : Client) (hclient : st.world.client? id = some client) (client₀ : Client)
    (hclient₀ : w₀.client? id = some client₀) :
    ClientCopy tracked today client₀ client := by
  obtain ⟨stored, hstored, hcounted⟩ := h.clients id client₀ hclient₀
  rw [hclient, Option.some.injEq] at hstored
  rw [hstored]
  exact hcounted.copy

/-- The clients are those there were at the start. -/
def SameClients (w₀ w : World) : Prop := ∀ id, (w.client? id).isSome = (w₀.client? id).isSome

theorem sameClients_commit {writes : List Write} (h : SameClients w₀ w) :
    SameClients w₀ (commit writes w) := by
  refine commit_invariant (fun write _ w hinv => ?_) h
  cases write with
  | key id loaded current => exact hinv
  | client id loaded current =>
    intro other
    rw [← hinv other]
    show ((w.modifyClient id _).client? other).isSome = _
    rw [client?_modifyClient]
    split
    · exact Option.isSome_map
    · rfl
  | roundRobin scope idx => exact hinv
  | failures id entry => exact hinv
  | snapshot row => exact hinv

/-- A step of the day that meets the condition keeps the counters right. -/
theorem next_counted (hmode : fwd.config.quota.countMode = .success) (st : DispatchState)
    (a : DispatchAction) (st' : DispatchState)
    (h : Counted tracked today fwd w₀ st ∧ SameClients w₀ st.world)
    (hok : a.CountsFresh tracked today fwd st) (hnext : a.next fwd st = some st') :
    Counted tracked today fwd w₀ st' ∧ SameClients w₀ st'.world := by
  obtain ⟨h, hsame⟩ := h
  cases a with
  | arrive req =>
    obtain ⟨client, hfound, rfl⟩ := Option.map_eq_some_iff.mp hnext
    have hclient := (Option.filter_eq_some_iff.mp hfound).1
    have hclient₀ : (w₀.client? req.clientId).isSome := by
      rw [← hsame, hclient]
      rfl
    refine ⟨⟨?_, ?_, ?_⟩, hsame⟩
    · intro id key₀ hkey₀
      simp only [tally_concat, Dispatch.accounted, countWith_none, chargeWith_none, add_zero]
      exact h.keys id key₀ hkey₀
    · intro id client₀ hclient₀
      simp only [tally_concat, Dispatch.accounted, countFor_none, add_zero]
      exact h.clients id client₀ hclient₀
    · intro d hmem
      rcases List.mem_append.mp hmem with hold | hnew
      · exact h.copies d hold
      · rw [List.mem_singleton.mp hnew]
        refine ⟨Option.isSome_iff_exists.mp hclient₀,
          fun copy hcopy => absurd hcopy List.not_mem_nil, fun copy hcopy => ?_,
          fun _ _ _ _ hpicked => by cases hpicked⟩
        have heq : copy = client := List.mem_singleton.mp hcopy
        rw [heq]
        exact h.client_copy req.clientId client hclient
  | advance i turn =>
    obtain ⟨⟨d', writes⟩, hbind, rfl⟩ := Option.map_eq_some_iff.mp hnext
    obtain ⟨d, hget, hstep⟩ := Option.bind_eq_some_iff.mp hbind
    have hmem : d ∈ st.requests := List.mem_of_getElem? hget
    have hd := h.copies d hmem
    have hfresh := hok.2 d hget
    have hclient : ∃ client, st.world.client? d.req.clientId = some client := by
      obtain ⟨client₀, hclient₀⟩ := hd.hasClient
      rw [← Option.isSome_iff_exists, hsame, hclient₀]
      rfl
    obtain ⟨hcopies, hreq, hbefore, heffect⟩ :=
      step_effect hmode hok.1 hd hclient h.client_copy h.key_copy hstep
    have hall : ∀ other ∈ st.requests.set i d', other.CopiesOk tracked today w₀ := by
      intro other hother
      rcases List.mem_or_eq_of_mem_set hother with hold | rfl
      · exact h.copies other hold
      · exact hcopies
    refine ⟨?_, sameClients_commit hsame⟩
    show Counted tracked today fwd w₀
      { world := commit writes st.world, requests := st.requests.set i d' }
    cases heffect with
    | quiet haccounted hquiet =>
      obtain ⟨hkeys, hclients⟩ := counted_of_quiet hquiet h.keys h.clients
      exact ⟨hkeys.set hget hbefore haccounted, hclients.set hget hbefore haccounted, hall⟩
    | reset client hphase hchecked hquota hday haccounted hwrites =>
      rw [hwrites]
      have hcopy :
          ∀ client₀, w₀.client? d.req.clientId = some client₀ →
            ClientCopy tracked today client₀ client := by
        refine hd.clients client (List.mem_append_right _ ?_)
        rw [hphase]
        exact List.mem_singleton_self _
      rw [Dispatch.CountsFresh, hphase] at hfresh
      have hclients : ClientsCounted tracked today w₀ st.requests
          (st.world.modifyClient d.req.clientId
           (Client.save client (resetClient today client))) := by
        refine h.clients.save fun client₀ stored count hclient₀ hcount hcounted => ?_
        refine hcounted.save_reset (hcopy client₀ hclient₀) hday fun hkept hused => ?_
        have hnone := hfresh hkept hchecked hquota hday hused
        have hle : count ≤ st.answersFor d.req.clientId := by
          rw [← hcount]
          exact tally_le fun other _ => countFor_accounted_le d.req.clientId other
        omega
      exact ⟨KeysCounted.set h.keys hget hbefore haccounted, hclients.set hget hbefore haccounted,
        hall⟩
    | selection idx id loaded examined scope hphase haccounted hwrites =>
      rw [hwrites]
      rw [Dispatch.CountsFresh, hphase] at hfresh
      have hloaded :
          ∀ copy ∈ loaded, ∀ key₀, w₀.key? copy.1 = some key₀ →
            KeyCopy tracked today key₀ copy.2 := by
        intro copy hcopy
        refine hd.keys copy ?_
        rw [hphase]
        exact hcopy
      have hselection : KeysCounted tracked today fwd w₀ st.requests
          (commit (examinedWrites loaded examined) st.world) := by
        refine counted_of_selection hloaded (hd.scanned idx id loaded examined hphase) ?_ h.keys
        intro hkept e he before hbefore hreset hused
        have hnone := hfresh hkept e he before hbefore hreset hused
        have hle : tally (fun d => countWith e.id d.accounted) st.requests ≤ st.answersWith e.id :=
          tally_le fun other _ => countWith_accounted_le e.id other
        omega
      have hclientsKept : ClientsCounted tracked today w₀ st.requests
          (commit (examinedWrites loaded examined) st.world) := by
        refine commit_invariant (fun write hwrite w hinv => ?_) h.clients
        obtain ⟨e, _, he⟩ := List.mem_filterMap.mp hwrite
        obtain ⟨before, _, rfl⟩ := Option.map_eq_some_iff.mp he
        exact hinv
      have hcommit :
          commit (examinedWrites loaded examined ++ [.roundRobin scope (idx + 1)]) st.world =
            Write.apply (commit (examinedWrites loaded examined) st.world)
              (.roundRobin scope (idx + 1)) := by
        rw [commit, List.foldl_append]
        rfl
      rw [hcommit]
      exact ⟨KeysCounted.set hselection hget hbefore haccounted,
        ClientsCounted.set hclientsKept hget hbefore haccounted, hall⟩
    | account id key client r now hphase haccounted hwrites =>
      rw [hwrites]
      rw [Dispatch.CountsFresh, hphase] at hfresh
      have hcopy :
          ∀ client₀, w₀.client? d.req.clientId = some client₀ →
            ClientCopy tracked today client₀ client := by
        refine hd.clients client (List.mem_append_right _ ?_)
        rw [hphase]
        exact List.mem_singleton_self _
      obtain ⟨hkeys, hclients⟩ :=
        counted_of_account now hget hreq hbefore haccounted hcopy hfresh.1 hfresh.2
        h.keys h.clients
      exact ⟨hkeys, hclients, hall⟩

end

/-! ### The counters at the end of a run -/

def DispatchState.AllFinished (st : DispatchState) : Prop :=
  ∀ d ∈ st.requests, ∃ answered, d.phase = .finished answered

/-- Every counter has grown by what is attributed to it, from what it was, or from 0 where it was
reset. -/
structure CountsExact (fwd : Forwarder) (w₀ : World) (st : DispatchState) : Prop where
  keys : ∀ id key₀, w₀.key? id = some key₀ → ∃ key, st.world.key? id = some key ∧
    key.dailyUsage = (if key.quotaResetAt = key₀.quotaResetAt then key₀.dailyUsage
      else 0) + st.answersWith id ∧ key.totalRequests = key₀.totalRequests + st.answersWith id ∧
        ∀ credits, key₀.cachedRemainingCredits = some credits →
          key.cachedRemainingCredits = some (deducted credits (st.chargesWith fwd id))
  clients : ∀ id client₀, w₀.client? id = some client₀ → client₀.dailyQuota.isSome →
    ∃ client, st.world.client? id = some client ∧
      client.dailyUsage =
        (if client.quotaResetAt = client₀.quotaResetAt then client₀.dailyUsage
         else 0) + st.answersFor id

section

variable {fwd : Forwarder} {tracked : Counter → Prop} {today : Day} {w₀ : World}

theorem counted_start (w₀ : World) : Counted tracked today fwd w₀ { world := w₀ } where
  keys id key₀ hkey₀ := by
    refine ⟨key₀, hkey₀, rfl, .inl rfl, fun _ => ?_, fun _ => rfl, fun _ credits hcredits => ?_⟩
    · rw [if_pos rfl]
      rfl
    · rw [hcredits]
      rfl
  clients id client₀ hclient₀ := by
    refine ⟨client₀, hclient₀, rfl, .inl rfl, fun _ _ => ?_⟩
    rw [if_pos rfl]
    rfl
  copies d hmem := absurd hmem List.not_mem_nil

theorem run_counted {last : DispatchState} {trace : List DispatchAction}
    (hmode : fwd.config.quota.countMode = .success)
    (hmeets : Meets (DispatchAction.next fwd) (fun st a => a.CountsFresh tracked today fwd st)
      { world := w₀ } trace)
    (hexec : exec (DispatchAction.next fwd) { world := w₀ } trace = some last) :
    Counted tracked today fwd w₀ last := by
  have hstart : Counted tracked today fwd w₀ { world := w₀ } ∧ SameClients w₀ w₀ :=
    ⟨counted_start w₀, fun _ => rfl⟩
  have hinv : Counted tracked today fwd w₀ last ∧ SameClients w₀ last.world :=
    exec_invariant_of_meets (next_counted hmode) hmeets hexec hstart
  exact hinv.1

theorem accounted_of_finished {st : DispatchState} (hdone : st.AllFinished) {d : Dispatch}
    (hmem : d ∈ st.requests) :
    d.accounted = d.answered := by
  obtain ⟨answered, hphase⟩ := hdone d hmem
  rw [Dispatch.accounted, Dispatch.answered, hphase]

/-- In every run on one day whose resets and increments are fresh, once all requests have finished
every counter has grown by exactly what is attributed to it. -/
theorem run_counts {last : DispatchState} {trace : List DispatchAction}
    (hmode : fwd.config.quota.countMode = .success)
    (hmeets : Meets (DispatchAction.next fwd)
      (fun st a => a.CountsFresh (fun _ => True) today fwd st) { world := w₀ } trace)
    (hexec : exec (DispatchAction.next fwd) { world := w₀ } trace = some last)
    (hdone : last.AllFinished) :
    CountsExact fwd w₀ last := by
  have hcounted := run_counted hmode hmeets hexec
  have hsame : ∀ d ∈ last.requests, d.accounted = d.answered := fun d => accounted_of_finished hdone
  constructor
  · intro id key₀ hkey₀
    obtain ⟨key, hkey, hrow⟩ := hcounted.keys id key₀ hkey₀
    have hcount : tally (fun d => countWith id d.accounted) last.requests = last.answersWith id :=
      tally_congr fun d hmem => by rw [hsame d hmem]
    have hcharges :
        tally (fun d => chargeWith fwd id d d.accounted) last.requests = last.chargesWith fwd id :=
      tally_congr fun d hmem => by rw [hsame d hmem]
    rw [hcount, hcharges] at hrow
    exact ⟨key, hkey, hrow.usage trivial, hrow.requests trivial, hrow.credits trivial⟩
  · intro id client₀ hclient₀ hquota
    obtain ⟨client, hclient, hrow⟩ := hcounted.clients id client₀ hclient₀
    have hcount : tally (fun d => countFor id d d.accounted) last.requests = last.answersFor id :=
      tally_congr fun d hmem => by rw [hsame d hmem]
    rw [hcount] at hrow
    exact ⟨client, hclient, hrow.usage trivial hquota⟩

end

theorem countsFresh_advance {fwd : Forwarder} {tracked : Counter → Prop} {today : Day}
    {st : DispatchState} {i : Nat} {turn : Turn} {d : Dispatch}
    (hday : turn.pool.reading.today = today) (hget : st.requests[i]? = some d)
    (hfresh : d.CountsFresh tracked today fwd st) :
    DispatchAction.CountsFresh tracked today fwd st (.advance i turn) := by
  refine ⟨hday, fun d' hget' => ?_⟩
  rw [hget, Option.some.injEq] at hget'
  exact hget' ▸ hfresh

def scrapeForward : ForwardRequest :=
  { clientId := 1, method := "POST", upstreamPath := "/v1/scrape" }

/-- Nothing is refused, and the upstream answers 200. -/
def answeredTurn : Turn := .unhindered 0 0 (.response { statusCode := 200 })

/-- A request that is answered, from its arrival to its end. -/
def answeredRequest : List DispatchAction :=
  .arrive scrapeForward :: List.replicate 8 (.advance 0 answeredTurn)

theorem run_counts_answered :
    ∃ last, exec (DispatchAction.next defaultForwarder)
      { world := servedWorld 5 } answeredRequest = some last ∧
      CountsExact defaultForwarder (servedWorld 5) last := by
  have hmeets : Meets (DispatchAction.next defaultForwarder)
      (fun st a => a.CountsFresh (fun _ => True) 0 defaultForwarder st) { world := servedWorld 5 }
        answeredRequest := by
    refine meets_cons rfl trivial ?_
    refine meets_cons rfl (countsFresh_advance rfl rfl fun _ _ _ hday => absurd rfl hday) ?_
    refine meets_cons rfl (countsFresh_advance rfl rfl trivial) ?_
    -- The selection resets nothing.
    refine meets_cons rfl (countsFresh_advance rfl rfl ?_) ?_
    · intro _ e he before hbefore hreset
      cases List.mem_singleton.mp he
      cases hbefore
      exact absurd rfl hreset
    refine meets_cons rfl (countsFresh_advance rfl rfl trivial) ?_
    refine meets_cons rfl (countsFresh_advance rfl rfl trivial) ?_
    refine meets_cons rfl (countsFresh_advance rfl rfl trivial) ?_
    refine meets_cons rfl (countsFresh_advance rfl rfl trivial) ?_
    -- Nobody has written the rows since they were loaded.
    refine meets_cons rfl
      (countsFresh_advance rfl rfl ⟨fun stored hstored => ?_, fun stored hstored _ _ => ?_⟩) trivial
    · cases hstored
      exact ⟨fun _ => rfl, fun _ => rfl, fun _ _ => rfl⟩
    · cases hstored
      rfl
  have hmode : defaultForwarder.config.quota.countMode = .success := rfl
  refine ⟨_, rfl, run_counts hmode hmeets rfl fun d hmem => ?_⟩
  cases List.mem_singleton.mp hmem
  exact ⟨_, rfl⟩

/-- Two requests load the key before either writes its answer. -/
def overlappingForwards : List DispatchAction :=
  [.arrive scrapeForward, .arrive scrapeForward] ++ List.replicate 7 (.advance 0 answeredTurn) ++
    List.replicate 8 (.advance 1 answeredTurn) ++ [.advance 0 answeredTurn]

/-- The step falls on the day. -/
def DispatchAction.OnDay (today : Day) : DispatchAction → Prop
  | .arrive _ => True
  | .advance _ turn => turn.pool.reading.today = today

theorem overlapping_update_lost :
    ¬∀ (fwd : Forwarder) (today : Day) (w₀ : World) (last : DispatchState)
      (trace : List DispatchAction),
      fwd.config.quota.countMode = .success →
      Meets (DispatchAction.next fwd) (fun _ a => a.OnDay today) { world := w₀ } trace →
      exec (DispatchAction.next fwd) { world := w₀ } trace = some last → last.AllFinished →
        CountsExact fwd w₀ last := by
  intro h
  have hday : ∀ a ∈ overlappingForwards, a.OnDay 0 := by
    simp [overlappingForwards, DispatchAction.OnDay, answeredTurn, Turn.unhindered]
  have hmeets :
      Meets (DispatchAction.next defaultForwarder) (fun _ a => a.OnDay 0) { world := servedWorld 5 }
      overlappingForwards :=
        meets_iff.mpr fun before a after _ htrace _ => hday a (by simp [htrace])
  have hexact :=
    h defaultForwarder 0 (servedWorld 5) _ overlappingForwards rfl hmeets rfl fun d hmem => by
    rcases List.mem_cons.mp hmem with rfl | hmem
    · exact ⟨_, rfl⟩
    · cases List.mem_singleton.mp hmem
      exact ⟨_, rfl⟩
  obtain ⟨key, hkey, husage, _⟩ := hexact.keys 1 _ rfl
  cases hkey
  exact absurd husage (by decide)

end Fcam

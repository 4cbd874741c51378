import Fcam.Model.GatewayRun
import Fcam.Proof.LostUpdate

/-!
# A disabled key stays disabled

Of all that writes key rows only an administrator's patch turns `is_active` on, and a commit writes
the attributes its session has changed, so the flag survives every late write. What a selection
reads is another matter: a request that still holds the row from before the disable sees the key as
it was.
-/

namespace Fcam

/-! ### What the writes make of the flag -/

/-- The change does not turn a key's flag on. -/
def Write.NeverEnables : Write → Prop
  | key _ loaded current => current.isActive = true → loaded.isActive = true
  | _ => True

/-- Every row a selection is about to commit is what was made of the loaded row of its id. -/
def Dispatch.PickedOk (d : Dispatch) : Prop :=
  ∀ idx id loaded examined, d.phase = .picked idx id loaded examined → ∀ e ∈ examined, ∀ before,
    loaded.lookup e.id = some before → ∃ env, Examines env e.id before e.verdict e.row

theorem pickedOk_of_not_picked {d : Dispatch} (h : d.phase.isPicked = false) : d.PickedOk := by
  intro idx id loaded examined hphase
  rw [hphase] at h
  cases h

section

variable {fwd : Forwarder} {turn : Turn} {w : World} {d d' : Dispatch}

/-- What a selection that has picked a key made of the rows it was given. -/
theorem choose_picked {held : Option (Nat × ApiKey)} {idx id : Nat} {loaded : List (Nat × ApiKey)}
    {examined : List Examined}
    (h : (d.choose fwd turn w held).phase = .picked idx id loaded examined) :
    loaded = withHeld held (w.db.keys.select (inScope (some d.req.clientId) d.req.provider)) ∧
      (∃ start, (scan turn.pool (cyclicFrom start loaded)).2 = examined) ∧
        ∃ key, (id, key) ∈ loaded ∧ isDisabled key = false := by
  simp only [Dispatch.choose] at h
  split at h
  · split at h
    · cases h
    split at h
    · next idx' id' row examined' hscan =>
      cases h
      refine ⟨rfl, ⟨_, congrArg Prod.snd hscan⟩, ?_⟩
      have hselected := scan_selected (congrArg Prod.fst hscan)
      obtain ⟨key, position, hkey, hexamines⟩ := mem_scan_examined hselected
      cases hexamines with
      | eligible tested henabled htested hquota => exact ⟨key, mem_cyclicFrom hkey, henabled⟩
    · cases h
  · cases h

theorem choose_pickedOk (held : Option (Nat × ApiKey)) : (d.choose fwd turn w held).PickedOk := by
  intro idx id loaded examined hphase e he before hbefore
  obtain ⟨hloaded, ⟨start, hscan⟩, _⟩ := choose_picked hphase
  have hnodup : (loaded.map Prod.fst).Nodup := by
    rw [hloaded, withHeld_ids]
    exact select_ids_nodup _ _
  rw [← hscan] at he
  exact ⟨turn.pool, examines_of_lookup hnodup he hbefore⟩

theorem step_picked {writes : List Write} (hstep : d.step fwd turn w = some (d', writes)) :
    (∃ held, d.phase = .choosing held ∧ d' = d.choose fwd turn w held) ∨
      d'.phase.isPicked = false := by
  cases step_moves hstep with
  | begun client hphase => exact .inr (begin_waits _ _ _).isPicked
  | tested client hphase => exact .inr (testClient_waits _ _ _).isPicked
  | unclaimed hphase => exact .inr rfl
  | reset client hphase hchecked hquota hday => exact .inr rfl
  | pinAccepted id key hphase hkey henabled => exact .inr rfl
  | pinRejected held hphase hheld => exact .inr rfl
  | chosen held hphase => exact .inl ⟨held, hphase, rfl⟩
  | selected idx id loaded examined hphase => exact .inr rfl
  | vanished id hphase => exact .inr rfl
  | loaded id key hphase hkey => exact .inr rfl
  | refused id key d' hphase hnext hrefused =>
    refine .inr ?_
    rcases hnext with rfl | rfl
    · exact (tryAnother_waits _ _).isPicked
    · rfl
  | undecryptable id key retryAfter hphase hallow hlease hsecret =>
    exact .inr (tryAnother_waits _ _).isPicked
  | sent id key retryAfter hphase hallow hlease hsecret => exact .inr rfl
  | broke id key hphase houtcome => exact .inr rfl
  | returned id key hphase houtcome => exact .inr rfl
  | lost id key outcome d' hphase hlost hnext =>
    refine .inr ?_
    rcases hnext with ⟨expired, rfl⟩ | rfl
    · exact retry_isPicked _ expired id key
    · rfl
  | won id key r client hphase hwon hmode hclient => exact .inr rfl
  | wonUnclaimed id key r hphase hwon hmode hclient => exact .inr rfl
  | wonUncounted id key r hphase hwon hmode => exact .inr rfl
  | accounted id key client r hphase => exact .inr rfl

theorem step_pickedOk {writes : List Write} (hstep : d.step fwd turn w = some (d', writes)) :
    d'.PickedOk := by
  rcases step_picked hstep with ⟨held, _, rfl⟩ | hnot
  · exact choose_pickedOk held
  · exact pickedOk_of_not_picked hnot

/-! ### A forward never enables a key -/

theorem markFailed_isActive (config : AppConfig) (now : Instant) (key : ApiKey) :
    (markFailed config now key).isActive = key.isActive := by
  rw [markFailed]
  split <;> rfl

theorem markCooling_isActive (now : Instant) (seconds : Int) (key : ApiKey) :
    (markCooling now seconds key).isActive = key.isActive := by
  rw [markCooling]
  split
  · rfl
  · split <;> rfl

theorem consumeKey_isActive (now : Instant) (key : ApiKey) :
    (consumeKey now key).isActive = key.isActive := by
  simp only [consumeKey]
  split <;> rfl

theorem failureWrites_neverEnables {now : Instant} {id : Nat} {key : ApiKey} :
    ∀ write ∈ (Dispatch.failureWrites fwd now id key w).1, write.NeverEnables := by
  intro write hmem
  simp only [Dispatch.failureWrites] at hmem
  split at hmem
  · cases hmem
  split at hmem
  · rw [List.mem_singleton.mp hmem]
    trivial
  · rw [List.mem_cons, List.mem_singleton] at hmem
    rcases hmem with rfl | rfl
    · trivial
    · intro hactive
      rwa [markFailed_isActive] at hactive

theorem outcomeWrites_neverEnables {now : Instant} {id : Nat} {key : ApiKey} {outcome : Outcome} :
    ∀ write ∈ (Dispatch.outcomeWrites fwd now id key outcome w).1, write.NeverEnables := by
  intro write hmem
  cases outcome with
  | timeout => exact failureWrites_neverEnables write hmem
  | httpError text => exact failureWrites_neverEnables write hmem
  | exception text => cases hmem
  | unsent text => cases hmem
  | response r =>
    simp only [Dispatch.outcomeWrites] at hmem
    split at hmem
    · split at hmem
      · cases hmem
      · rw [List.mem_singleton.mp hmem]
        intro hactive
        rwa [markCooling_isActive] at hactive
    split at hmem
    · rw [List.mem_singleton.mp hmem]
      exact fun hactive => absurd hactive Bool.false_ne_true
    split at hmem
    · exact failureWrites_neverEnables write hmem
    · cases hmem

theorem step_neverEnables {writes : List Write} (hpicked : d.PickedOk)
    (hstep : d.step fwd turn w = some (d', writes)) : ∀ write ∈ writes, write.NeverEnables := by
  intro write hmem
  cases step_moves hstep with
  | reset client hphase hchecked hquota hday =>
    rw [List.mem_singleton.mp hmem]
    trivial
  | selected idx id loaded examined hphase =>
    rcases List.mem_append.mp hmem with hrow | hlast
    · obtain ⟨e, he, hwrite⟩ := List.mem_filterMap.mp hrow
      obtain ⟨before, hbefore, rfl⟩ := Option.map_eq_some_iff.mp hwrite
      obtain ⟨env, hexamines⟩ := hpicked idx id loaded examined hphase e he before hbefore
      intro hactive
      rw [hexamines.frame] at hactive
      exact hactive
    · rw [List.mem_singleton.mp hlast]
      trivial
  | undecryptable id key retryAfter hphase hallow hlease hsecret =>
    rw [List.mem_singleton.mp hmem]
    exact fun hactive => absurd hactive Bool.false_ne_true
  | lost id key outcome d' hphase hlost hnext => exact outcomeWrites_neverEnables write hmem
  | wonUncounted id key r hphase hwon hmode =>
    rw [List.mem_singleton.mp hmem]
    intro hactive
    rw [deductCredits_eq] at hactive
    exact hactive
  | accounted id key client r hphase =>
    rcases List.mem_cons.mp hmem with rfl | hkey
    · trivial
    · rw [List.mem_singleton.mp hkey]
      intro hactive
      rw [consumeKey_isActive, deductCredits_eq] at hactive
      exact hactive
  | _ => cases hmem

end

/-! ### The other writers -/

/-- A transaction that may turn the flag of its keys on. -/
def KeyEdit.enables : KeyEdit → Bool
  | update _ _ req => req.isActive == some true
  | batch req => !req.softDelete && (req.patch.bind BatchKeyPatch.isActive) == some true
  | _ => false

theorem patchActive_isActive {isActive : Option Bool} (hpatch : isActive ≠ some true) {key : ApiKey}
    (hactive : (patchActive isActive key).isActive = true) : key.isActive = true := by
  cases isActive with
  | none => exact hactive
  | some flag =>
    cases flag with
    | false => cases hactive
    | true => exact absurd rfl hpatch

theorem patchQuota_isActive (dailyQuota : Option Nat) (key : ApiKey) :
    (patchQuota dailyQuota key).isActive = key.isActive := by
  cases dailyQuota with
  | none => rfl
  | some quota =>
    simp only [patchQuota]
    split <;> rfl

theorem patchRow_isActive {planType : Option String}
    {dailyQuota maxConcurrent rateLimitPerMin : Option Nat} {isActive : Option Bool}
    (hpatch : isActive ≠ some true) {key : ApiKey}
    (hactive : (patchRow planType dailyQuota maxConcurrent rateLimitPerMin isActive key).isActive =
      true) :
    key.isActive = true := by
  have hquota := patchActive_isActive hpatch hactive
  simp only [patchQuota_isActive] at hquota
  exact hquota

theorem batchRow_isActive {req : BatchKeysRequest} (hreq : KeyEdit.enables (.batch req) = false)
    {key : ApiKey} (hactive : (batchRow req key).isActive = true) : key.isActive = true := by
  have hreset :
      (if req.resetCooldown then resetCooldownRow key else key).isActive = key.isActive := by
    split <;> rfl
  simp only [batchRow] at hactive
  split at hactive
  · cases hactive
  next hsoft =>
  rw [KeyEdit.enables, Bool.eq_false_iff.mpr hsoft, Bool.not_false, Bool.true_and] at hreq
  rw [← hreset]
  split at hactive
  · exact hactive
  · next patch hpatch =>
    rw [hpatch, Option.bind_some, beq_eq_false_iff_ne] at hreq
    have hbefore := patchRow_isActive hreq hactive
    exact hbefore

section

variable {fwd : Forwarder} {w : World} {id : Nat} {key : ApiKey}

theorem testWrites_neverEnables {outcome : Outcome} {now : Instant} :
    ∀ write ∈ testWrites fwd w id key outcome now, write.NeverEnables := by
  intro write hmem
  cases outcome with
  | response r =>
    simp only [testWrites] at hmem
    split at hmem
    · rw [List.mem_singleton.mp hmem]
      intro hactive
      rw [markActive] at hactive
      split at hactive <;> exact hactive
    · exact outcomeWrites_neverEnables write hmem
  | _ => exact outcomeWrites_neverEnables write hmem

theorem fetchWrites_neverEnables {env : FetchEnv} :
    ∀ write ∈ fetchWrites fwd w id key env, write.NeverEnables := by
  have hpair : ∀ current : ApiKey, (current.isActive = true → key.isActive = true) → ∀ row, ∀ write,
      write ∈ [Write.key id key current, .snapshot row] → write.NeverEnables := by
    intro current hcurrent row write hmem
    rw [List.mem_cons, List.mem_singleton] at hmem
    rcases hmem with rfl | rfl
    · exact hcurrent
    · trivial
  have hsingle : ∀ row, ∀ write, write ∈ [Write.snapshot row] → write.NeverEnables := by
    intro row write hmem
    rw [List.mem_singleton.mp hmem]
    trivial
  intro write hmem
  cases houtcome : env.outcome with
  | response r =>
    simp only [fetchWrites, houtcome] at hmem
    split at hmem
    · split at hmem
      · exact hsingle _ write hmem
      · exact hsingle _ write hmem
      · cases hmem
      · cases hmem
      · exact (hpair _ · _ write hmem) fun hactive => hactive
    split at hmem
    · exact hpair _ (fun hactive => absurd hactive Bool.false_ne_true) _ write hmem
    split at hmem
    · exact (hpair _ · _ write hmem) fun hactive => hactive
    · exact hsingle _ write hmem
  | timeout =>
    simp only [fetchWrites, houtcome] at hmem
    exact hsingle _ write hmem
  | httpError text =>
    simp only [fetchWrites, houtcome] at hmem
    cases hmem
  | exception text =>
    simp only [fetchWrites, houtcome] at hmem
    cases hmem
  | unsent text =>
    simp only [fetchWrites, houtcome] at hmem
    cases hmem

theorem KeyEdit.writes_neverEnables {edit : KeyEdit} (hedit : edit.enables = false) :
    ∀ write ∈ edit.writes fwd w id key, write.NeverEnables := by
  intro write hmem
  cases edit with
  | test outcome now =>
    rw [KeyEdit.writes] at hmem
    split at hmem
    · rw [List.mem_singleton.mp hmem]
      exact fun hactive => absurd hactive Bool.false_ne_true
    · exact testWrites_neverEnables write hmem
  | fetch env =>
    rw [KeyEdit.writes] at hmem
    split at hmem
    · rw [List.mem_cons, List.mem_singleton] at hmem
      rcases hmem with rfl | rfl
      · exact fun hactive => absurd hactive Bool.false_ne_true
      · trivial
    · exact fetchWrites_neverEnables write hmem
  | update nonce clientId req =>
    obtain ⟨row, hrow, rfl⟩ := List.mem_map.mp hmem
    rw [Option.mem_toList, updatedRow.eq_def] at hrow
    rw [KeyEdit.enables, beq_eq_false_iff_ne] at hedit
    intro hactive
    split at hrow
    · cases hrow
      have hbefore := patchRow_isActive hedit hactive
      exact hbefore
    · cases hrow
    · cases hrow
      have hbefore := patchRow_isActive hedit hactive
      exact hbefore
  | delete =>
    rw [List.mem_singleton.mp hmem]
    exact fun hactive => absurd hactive Bool.false_ne_true
  | batch req =>
    rw [List.mem_singleton.mp hmem]
    exact batchRow_isActive hedit
  | quotaReset today =>
    rw [List.mem_singleton.mp hmem]
    exact fun hactive => hactive

end

/-! ### Runs -/

/-- The key is stored, and disabled. -/
def World.Inactive (w : World) (id : Nat) : Prop :=
  ∃ key, w.key? id = some key ∧ key.isActive = false

namespace GatewayAction

/-- The step commits an administrator's patch that turns the flag of the key on. -/
def Enables (st : GatewayState) (id : Nat) : GatewayAction → Prop
  | save t edit _ =>
    edit.enables = true ∧ ∃ loaded, st.transactions[t]? = some loaded ∧ id ∈ loaded.map Prod.fst
  | _ => False

/-- The step selects the key, or accepts it as the pinned key. -/
def Serves (fwd : Forwarder) (st : GatewayState) (id : Nat) : GatewayAction → Prop
  | dispatch (.advance i turn) =>
    ∃ d d' writes, st.requests[i]? = some d ∧ d.step fwd turn st.world = some (d', writes) ∧
      ((∃ idx loaded examined, d'.phase = .picked idx id loaded examined) ∨
        d.phase = .lookingUp ∧ ∃ key, d'.phase = .gating id key)
  | _ => False

/-- A step that selects does not hold the row of the key from before it was disabled. -/
def ReadsFresh (st : GatewayState) (id : Nat) : GatewayAction → Prop
  | dispatch (.advance i _) =>
    ∀ d copy, st.requests[i]? = some d → d.phase = .choosing (some (id, copy)) →
      copy.isActive = true →
      ∀ stored, st.world.key? id = some stored → stored.isActive = true
  | _ => True

end GatewayAction

theorem save_inactive {loaded current stored : ApiKey}
    (h : current.isActive = true → loaded.isActive = true) (hstored : stored.isActive = false) :
    (ApiKey.save loaded current stored).isActive = false := by
  show writeBack loaded.isActive current.isActive stored.isActive = false
  rcases writeBack_cases loaded.isActive current.isActive stored.isActive with
    ⟨_, hkept⟩ | ⟨hne, hwritten⟩
  · rw [hkept, hstored]
  · rw [hwritten]
    by_contra hcurrent
    rw [Bool.not_eq_false] at hcurrent
    exact hne (hcurrent.trans (h hcurrent).symm)

theorem apply_inactive {w : World} {id : Nat} {write : Write}
    (hwrite : write.NeverEnables ∨ ∃ other loaded current,
      write = .key other loaded current ∧ other ≠ id)
    (hinactive : w.Inactive id) : (write.apply w).Inactive id := by
  obtain ⟨key, hkey, hdisabled⟩ := hinactive
  cases write with
  | key other loaded current =>
    by_cases hother : id = other
    · refine ⟨ApiKey.save loaded current key, ?_, ?_⟩
      · rw [Write.apply, World.key?_modifyKey, if_pos hother, hkey, Option.map_some]
      · rcases hwrite with hnever | ⟨_, _, _, heq, hne⟩
        · exact save_inactive hnever hdisabled
        · cases heq
          exact absurd hother.symm hne
    · refine ⟨key, ?_, hdisabled⟩
      rw [Write.apply, World.key?_modifyKey, if_neg hother, hkey]
  | client other loaded current => exact ⟨key, hkey, hdisabled⟩
  | roundRobin scope idx => exact ⟨key, hkey, hdisabled⟩
  | failures other entry => exact ⟨key, hkey, hdisabled⟩
  | snapshot row => exact ⟨key, hkey, hdisabled⟩

theorem writes_of_enables {fwd : Forwarder} {w : World} {id : Nat} {key : ApiKey} {edit : KeyEdit}
    (hedit : edit.enables = true) :
    ∀ write ∈ edit.writes fwd w id key, ∃ current, write = .key id key current := by
  intro write hmem
  cases edit with
  | update nonce clientId req =>
    obtain ⟨row, _, rfl⟩ := List.mem_map.mp hmem
    exact ⟨row, rfl⟩
  | batch req => exact ⟨_, List.mem_singleton.mp hmem⟩
  | test outcome now => cases hedit
  | fetch env => cases hedit
  | delete => cases hedit
  | quotaReset today => cases hedit

/-- A selection that keeps to the stored rows does not return a disabled key. -/
theorem choose_not_disabled {fwd : Forwarder} {turn : Turn} {w : World} {d : Dispatch}
    {held : Option (Nat × ApiKey)} {id : Nat} (hinactive : w.Inactive id)
    (hfresh : ∀ copy, held = some (id, copy) → copy.isActive = true →
      ∀ stored, w.key? id = some stored → stored.isActive = true) {idx : Nat}
        {loaded : List (Nat × ApiKey)} {examined : List Examined}
    (hphase : (d.choose fwd turn w held).phase = .picked idx id loaded examined) : False := by
  obtain ⟨hloaded, _, copy, hmem, henabled⟩ := choose_picked hphase
  obtain ⟨stored, hstored, hdisabled⟩ := hinactive
  have hcopy : copy.isActive = true := by
    rw [isDisabled, Bool.or_eq_false_iff, Bool.not_eq_false'] at henabled
    exact henabled.1
  have hactive : stored.isActive = true := by
    rw [hloaded] at hmem
    rcases mem_withHeld hmem with hheld | hrow
    · rw [Option.mem_toList] at hheld
      exact hfresh copy hheld hcopy stored hstored
    · rw [Table.mem_select] at hrow
      have hsame : some stored = some copy := hstored.symm.trans hrow.1
      rw [Option.some.injEq] at hsame
      rw [hsame, hcopy]
  rw [hdisabled] at hactive
  cases hactive

/-- A pin is looked up among the stored rows, and a disabled one is not accepted. -/
theorem lookingUp_not_disabled {fwd : Forwarder} {turn : Turn} {w : World} {d d' : Dispatch}
    {writes : List Write} {id : Nat} (hinactive : w.Inactive id)
    (hstep : d.step fwd turn w = some (d', writes)) (hphase : d.phase = .lookingUp) {key : ApiKey}
    (hgating : d'.phase = .gating id key) : False := by
  obtain ⟨stored, hstored, hdisabled⟩ := hinactive
  simp only [Dispatch.step, hphase] at hstep
  split at hstep
  · cases hstep
    cases hgating
  · next pin hpin =>
    split at hstep
    · next haccepted =>
      cases hstep
      cases hgating
      obtain ⟨pinned, _, hmap⟩ := Option.bind_eq_some_iff.mp hpin
      obtain ⟨row, hfilter, hsame⟩ := Option.map_eq_some_iff.mp hmap
      cases hsame
      obtain ⟨hrow, _⟩ := Option.filter_eq_some_iff.mp hfilter
      rw [hstored, Option.some.injEq] at hrow
      rw [← hrow, Bool.and_eq_true, isDisabled, hdisabled] at haccepted
      cases haccepted.1
    · cases hstep
      cases hgating

/-- In every state of a run from rows alone, selections hold what they made of the rows they
loaded. -/
def GatewayState.AllPickedOk (st : GatewayState) : Prop := ∀ d ∈ st.requests, d.PickedOk

theorem next_allPickedOk {fwd : Forwarder} (st : GatewayState) (a : GatewayAction)
    (st' : GatewayState) (h : st.AllPickedOk) (hnext : a.next fwd st = some st') :
    st'.AllPickedOk := by
  cases a with
  | dispatch a =>
    obtain ⟨dispatched, hdispatched, rfl⟩ := Option.map_eq_some_iff.mp hnext
    cases a with
    | arrive req =>
      obtain ⟨client, _, rfl⟩ := Option.map_eq_some_iff.mp hdispatched
      intro d hmem
      rcases List.mem_append.mp hmem with hold | hnew
      · exact h d hold
      · rw [List.mem_singleton.mp hnew]
        exact pickedOk_of_not_picked rfl
    | advance i turn =>
      obtain ⟨⟨d', writes⟩, hbind, rfl⟩ := Option.map_eq_some_iff.mp hdispatched
      obtain ⟨d, _, hstep⟩ := Option.bind_eq_some_iff.mp hbind
      intro other hmem
      rcases List.mem_or_eq_of_mem_set hmem with hold | rfl
      · exact h other hold
      · exact step_pickedOk hstep
  | load ids =>
    cases hnext
    exact h
  | save t edit now =>
    obtain ⟨loaded, _, rfl⟩ := Option.map_eq_some_iff.mp hnext
    exact h

/-- One step: a disabled key stays disabled, and it serves nobody who reads the stored rows. -/
theorem next_disabled {fwd : Forwarder} {id : Nat} (st : GatewayState) (a : GatewayAction)
    (st' : GatewayState) (h : st.AllPickedOk ∧ st.world.Inactive id)
    (hok : ¬a.Enables st id ∧ a.ReadsFresh st id) (hnext : a.next fwd st = some st') :
    (st'.AllPickedOk ∧ st'.world.Inactive id) ∧ ¬a.Serves fwd st id := by
  obtain ⟨hpicked, hinactive⟩ := h
  refine ⟨⟨next_allPickedOk st a st' hpicked hnext, ?_⟩, ?_⟩
  · cases a with
    | dispatch a =>
      obtain ⟨dispatched, hdispatched, rfl⟩ := Option.map_eq_some_iff.mp hnext
      cases a with
      | arrive req =>
        obtain ⟨client, _, rfl⟩ := Option.map_eq_some_iff.mp hdispatched
        exact hinactive
      | advance i turn =>
        obtain ⟨⟨d', writes⟩, hbind, rfl⟩ := Option.map_eq_some_iff.mp hdispatched
        obtain ⟨d, hget, hstep⟩ := Option.bind_eq_some_iff.mp hbind
        have hnever := step_neverEnables (hpicked d (List.mem_of_getElem? hget)) hstep
        have hkeeps : ∀ write ∈ writes, ∀ w : World, w.Inactive id → (write.apply w).Inactive id :=
          fun write hmem w => apply_inactive (.inl (hnever write hmem))
        exact commit_invariant hkeeps hinactive
    | load ids =>
      cases hnext
      exact hinactive
    | save t edit now =>
      obtain ⟨loaded, hget, rfl⟩ := Option.map_eq_some_iff.mp hnext
      have hkeeps : ∀ write ∈ loaded.flatMap fun row => edit.writes fwd st.world row.1 row.2,
          ∀ w : World, w.Inactive id → (write.apply w).Inactive id := by
        intro write hmem w
        refine apply_inactive ?_
        obtain ⟨row, hrow, hwrite⟩ := List.mem_flatMap.mp hmem
        by_cases hedit : edit.enables = true
        · obtain ⟨current, rfl⟩ := writes_of_enables hedit write hwrite
          refine .inr ⟨row.1, row.2, current, rfl, ?_⟩
          rintro rfl
          exact hok.1 ⟨hedit, loaded, hget, List.mem_map_of_mem hrow⟩
        · exact .inl (KeyEdit.writes_neverEnables (Bool.eq_false_iff.mpr hedit) write hwrite)
      exact commit_invariant hkeeps hinactive
  · intro hserves
    cases a with
    | dispatch a =>
      cases a with
      | arrive req => exact hserves
      | advance i turn =>
        obtain ⟨d, d', writes, hget, hstep,
            ⟨idx, loaded, examined, hphase⟩ | ⟨hlooking, key, hgating⟩⟩ := hserves
        · rcases step_picked hstep with ⟨held, hchoosing, rfl⟩ | hnot
          · refine choose_not_disabled hinactive (fun copy hheld hcopy => ?_) hphase
            rw [hheld] at hchoosing
            exact hok.2 d copy hget hchoosing hcopy
          · rw [hphase] at hnot
            cases hnot
        · exact lookingUp_not_disabled hinactive hstep hlooking hgating
    | load ids => exact hserves
    | save t edit now => exact hserves

/-- Once a key is disabled, every run in which no administrator enables it and no selection holds
its row from before keeps it disabled, and it is neither selected nor accepted as a pin. -/
theorem run_staysDisabled {fwd : Forwarder} {w₀ : World} {mid last : GatewayState}
    {before after : List GatewayAction} {id : Nat}
    (hbefore : exec (GatewayAction.next fwd) { world := w₀ } before = some mid)
    (hinactive : mid.world.Inactive id)
    (hmeets : Meets (GatewayAction.next fwd) (fun st a => ¬a.Enables st id ∧ a.ReadsFresh st id) mid
      after) (hexec : exec (GatewayAction.next fwd) mid after = some last) :
    Meets (GatewayAction.next fwd) (fun st a => ¬a.Serves fwd st id) mid after ∧
      last.world.Inactive id := by
  have hpicked : mid.AllPickedOk :=
    exec_invariant next_allPickedOk hbefore fun _ hmem => absurd hmem List.not_mem_nil
  have hserves := meets_of_invariant next_disabled hmeets hexec ⟨hpicked, hinactive⟩
  have hstep :
      ∀ st a st', st.AllPickedOk ∧ st.world.Inactive id → ¬a.Enables st id ∧ a.ReadsFresh st id →
        GatewayAction.next fwd st a = some st' → st'.AllPickedOk ∧ st'.world.Inactive id :=
    fun st a st' h hok hnext => (next_disabled st a st' h hok hnext).1
  exact ⟨hserves, (exec_invariant_of_meets hstep hmeets hexec ⟨hpicked, hinactive⟩).2⟩

/-- The administrator deletes the first key. -/
def deletedKey : List GatewayAction := [.load [1], .save 0 .delete 0]

/-- A request that asks for a key after the only one is gone, from its arrival to the selection. -/
def refusedRequest : List GatewayAction :=
  .dispatch (.arrive scrapeForward) :: List.replicate 2 (.dispatch (.advance 0 answeredTurn))

theorem run_staysDisabled_deleted :
    ∃ mid last, exec (GatewayAction.next defaultForwarder)
      { world := servedWorld 5 } deletedKey = some mid ∧
      exec (GatewayAction.next defaultForwarder) mid refusedRequest = some last ∧
      Meets (GatewayAction.next defaultForwarder) (fun st a => ¬a.Serves defaultForwarder st 1) mid
        refusedRequest ∧
      last.world.Inactive 1 := by
  have hrun : exec (GatewayAction.next defaultForwarder) { world := servedWorld 5 } deletedKey =
    some _ := rfl
  refine ⟨_, _, hrun, rfl, ?_⟩
  refine run_staysDisabled hrun ⟨_, rfl, rfl⟩ ?_ rfl
  refine meets_cons rfl ⟨fun h => h, trivial⟩ ?_
  refine meets_cons rfl ⟨fun h => h, ?_⟩ ?_
  · rintro d copy hget hphase
    cases hget
    cases hphase
  refine meets_cons rfl ⟨fun h => h, ?_⟩ trivial
  rintro d copy hget hphase
  cases hget
  cases hphase

/-- The request is refused a token for the key and asks for another one, with the row still in its
session. -/
def refusedToken : List GatewayAction :=
  .dispatch (.arrive scrapeForward) :: List.replicate 4 (.dispatch (.advance 0 answeredTurn)) ++
    [.dispatch (.advance 0 { answeredTurn with allow := fun _ _ => .ok (false, some 1) })]

theorem deleted_key_selected :
    ¬∀ (fwd : Forwarder) (w₀ : World) (mid last : GatewayState) (before after : List GatewayAction)
      (id : Nat),
      exec (GatewayAction.next fwd) { world := w₀ } before = some mid → mid.world.Inactive id →
      Meets (GatewayAction.next fwd) (fun st a => ¬a.Enables st id) mid after →
      exec (GatewayAction.next fwd) mid after = some last →
      Meets (GatewayAction.next fwd) (fun st a => ¬a.Serves fwd st id) mid after := by
  intro h
  have hserves := h defaultForwarder (servedWorld 5) _ _ (refusedToken ++ deletedKey)
    [.dispatch (.advance 0 answeredTurn)] 1 rfl ⟨_, rfl, rfl⟩ ⟨fun h => h, fun _ _ => trivial⟩ rfl
  exact hserves.1 ⟨_, _, _, rfl, rfl, .inl ⟨_, _, _, rfl⟩⟩

end Fcam

import Fcam.Model.DataPlane
import Fcam.Model.LoadedRow
import Fcam.Proof.AttemptBound
import Fcam.Proof.Live

/-!
# Forwards of one client in two states

Two states that agree on what belongs to a client are compared: its row, its keys, its bindings, its
place in the round robin, and the failure counts, rate tokens and leases of its keys. A forward of
the client does the same in both and leaves them in agreement, because every step sees and changes
keys of the client only.
-/

namespace Fcam

/-- The id names a key of the client. -/
def Owned (clientId : Nat) (w : World) (id : Nat) : Prop :=
  ∃ key, w.key? id = some key ∧ key.clientId = some clientId

/-- Two states agree on what belongs to a client. -/
structure World.SameFor (clientId : Nat) (provider : Provider) (w w' : World) : Prop where
  client : w.client? clientId = w'.client? clientId
  keys : ∀ id key, key.clientId = some clientId → (w.key? id = some key ↔ w'.key? id = some key)
  bindings : (w.db.bindings.select fun row => row.clientId == clientId) =
    w'.db.bindings.select fun row => row.clientId == clientId
  roundRobin : w.rrIndexByScope { clientId := some clientId, provider } =
    w'.rrIndexByScope { clientId := some clientId, provider }
  failures : ∀ id, Owned clientId w id → w.failures id = w'.failures id

/-- Two processes agree on the rate tokens and the leases of some keys. -/
structure Stores.SameFor (owned : Nat → Prop) (stores stores' : Stores) : Prop where
  buckets : ∀ id, owned id → stores.limiter.buckets id = stores'.limiter.buckets id
  leases : ∀ id, owned id → stores.leases.states id = stores'.leases.states id

/-- Two passes are answered alike: the clocks, the upstream, and what the cooldown store holds for
some keys. -/
structure LiveTurn.SameFor (owned : Nat → Prop) (live live' : LiveTurn) : Prop where
  reading : live.pool.reading = live'.pool.reading
  secondsUntilNextMidnight :
    live.pool.secondsUntilNextMidnight = live'.pool.secondsUntilNextMidnight
  remainingSeconds : ∀ id, owned id → live.pool.remainingSeconds id = live'.pool.remainingSeconds id
  monotonic : live.monotonic = live'.monotonic
  outcome : live.outcome = live'.outcome
  settledAt : live.settledAt = live'.settledAt

/-- An exchange without the key tables it was logged with. -/
def Exchange.seen (e : Exchange) : Exchange := { e with before := .empty, after := .empty }

def Event.seen : Event → Event
  | exchanged e => .exchanged e.seen
  | event => event

theorem exchangesOf_seen (events : List Event) :
    exchangesOf (events.map Event.seen) = (exchangesOf events).map Exchange.seen := by
  induction events with
  | nil => rfl
  | cons event rest ih =>
    cases event with
    | exchanged e => exact congrArg (e.seen :: ·) ih
    | _ => exact ih

namespace World.SameFor

variable {clientId : Nat} {provider : Provider} {w w' : World}

theorem owned_iff (h : w.SameFor clientId provider w') (id : Nat) : Owned clientId w id ↔
    Owned clientId w' id := by
  constructor
  · rintro ⟨key, hkey, howner⟩
    exact ⟨key, (h.keys id key howner).mp hkey, howner⟩
  · rintro ⟨key, hkey, howner⟩
    exact ⟨key, (h.keys id key howner).mpr hkey, howner⟩

theorem key? (h : w.SameFor clientId provider w') {id : Nat} (howned : Owned clientId w id) :
    w.key? id = w'.key? id := by
  obtain ⟨key, hkey, howner⟩ := howned
  rw [hkey, (h.keys id key howner).mp hkey]

theorem select_eq (h : w.SameFor clientId provider w') :
    w.db.keys.select (inScope (some clientId) provider) =
      w'.db.keys.select (inScope (some clientId) provider) := by
  apply Table.select_eq
  intro id key hscope
  simp only [inScope, Option.isNone_some, Bool.false_or, Bool.and_eq_true, beq_iff_eq] at hscope
  exact h.keys id key hscope.2

end World.SameFor

/-! ### Steps -/

/-- A step leaves every key with its client. -/
def SameOwners (w v : World) : Prop :=
  ∀ id, Option.Rel (fun before after : ApiKey => after.clientId = before.clientId) (w.key? id)
    (v.key? id)

theorem SameOwners.owned_iff {w v : World} (h : SameOwners w v) (clientId id : Nat) :
    Owned clientId v id ↔ Owned clientId w id := by
  have hid := h id
  rw [Owned, Owned]
  revert hid
  generalize w.key? id = before
  generalize v.key? id = after
  intro hid
  cases hid with
  | none => simp
  | some hsame => simp [hsame]

theorem RowUpdated.sameOwners {w v : World} {id : Nat} {f : ApiKey → ApiKey}
    (h : RowUpdated w v id f) (hsame : ∀ key, (f key).clientId = key.clientId) :
    SameOwners w v := by
  intro other
  rw [h other]
  by_cases heq : other = id
  · rw [if_pos heq]
    exact .map _ f hsame
  · rw [if_neg heq]
    exact .of_eq _ fun _ => rfl

/-- Two steps that do the same to what belongs to the client. -/
theorem World.SameFor.step {clientId : Nat} {provider : Provider} {w w' v v' : World}
    (h : w.SameFor clientId provider w') (howners : SameOwners w v) (howners' : SameOwners w' v')
    (hkeys : ∀ id, Owned clientId w id → v.key? id = v'.key? id)
    (hclient : v.client? clientId = v'.client? clientId)
    (hbindings : v.db.bindings = w.db.bindings ∧ v'.db.bindings = w'.db.bindings)
    (hrr : v.rrIndexByScope { clientId := some clientId, provider } =
      v'.rrIndexByScope { clientId := some clientId, provider })
    (hfailures : ∀ id, Owned clientId w id → v.failures id = v'.failures id) :
    v.SameFor clientId provider v' where
  client := hclient
  keys id key howner := by
    constructor
    · intro hkey
      rw [← hkeys id ((howners.owned_iff clientId id).mp ⟨key, hkey, howner⟩)]
      exact hkey
    · intro hkey
      rw [hkeys id ((h.owned_iff id).mpr ((howners'.owned_iff clientId id).mp ⟨key, hkey, howner⟩))]
      exact hkey
  bindings := by
    rw [hbindings.1, hbindings.2]
    exact h.bindings
  roundRobin := hrr
  failures id howned := hfailures id ((howners.owned_iff clientId id).mp howned)

/-! ### Selections -/

section Select

variable {env env' : PoolEnv}

theorem examine_congr {id : Nat} (hreading : env.reading = env'.reading)
    (hremaining : env.remainingSeconds id = env'.remainingSeconds id) (key : ApiKey) :
    examine env id key = examine env' id key := by
  simp only [examine, backOffSeconds, hreading, hremaining]

theorem scan_congr (hreading : env.reading = env'.reading) {keys : List ((Nat × ApiKey) × Nat)}
    (hremaining : ∀ row ∈ keys, env.remainingSeconds row.1.1 = env'.remainingSeconds row.1.1) :
    scan env keys = scan env' keys := by
  induction keys with
  | nil => rfl
  | cons first rest ih =>
    obtain ⟨⟨id, key⟩, idx⟩ := first
    have hfirst := examine_congr hreading (hremaining _ List.mem_cons_self) key
    have hrest := ih fun row hmem => hremaining row (List.mem_cons_of_mem _ hmem)
    simp only [scan, hfirst, hrest]

theorem select_sameOwners (env : PoolEnv) (w : World) (clientId : Option Nat)
    (provider : Provider) :
    SameOwners w (select env w clientId provider).world := by
  intro id
  apply (select_scheduling env w clientId provider id).imp
  intro key row hrow
  rw [hrow]
  rfl

theorem select_rest (env : PoolEnv) (w : World) (clientId : Option Nat) (provider : Provider) :
    (select env w clientId provider).world.db.clients = w.db.clients ∧
      (select env w clientId provider).world.db.bindings = w.db.bindings ∧
      (select env w clientId provider).world.failures = w.failures := by
  rcases select_world env w clientId provider with hsame | ⟨_, hrows⟩
  · rw [hsame]
    exact ⟨rfl, rfl, rfl⟩
  · rw [hrows]
    exact ⟨rfl, rfl, rfl⟩

/-- A selection for the client gives the same key, or the same error, and writes the same rows. -/
theorem select_sameFor {clientId : Nat} {provider : Provider} {w w' : World}
    (h : w.SameFor clientId provider w') (hreading : env.reading = env'.reading)
    (hmidnight : env.secondsUntilNextMidnight = env'.secondsUntilNextMidnight)
    (hremaining : ∀ id, Owned clientId w id → env.remainingSeconds id = env'.remainingSeconds id) :
    (select env w (some clientId) provider).result =
      (select env' w' (some clientId) provider).result ∧
      (select env w (some clientId) provider).examined =
        (select env' w' (some clientId) provider).examined ∧
      (select env w (some clientId) provider).world.SameFor clientId provider
        (select env' w' (some clientId) provider).world := by
  have hscan :
      ∀ start, scan env (cyclicFrom start (w.db.keys.select (inScope (some clientId) provider))) =
        scan env' (cyclicFrom start (w.db.keys.select (inScope (some clientId) provider))) := by
    intro start
    apply scan_congr hreading
    intro row hmem
    obtain ⟨hkey, hscope⟩ := Table.mem_select.mp (mem_cyclicFrom hmem)
    simp only [inScope, Option.isNone_some, Bool.false_or, Bool.and_eq_true, beq_iff_eq] at hscope
    exact hremaining row.1.1 ⟨row.1.2, hkey, hscope.2⟩
  obtain ⟨hresult, hexamined, hrr⟩ :
      (select env w (some clientId) provider).result =
        (select env' w' (some clientId) provider).result ∧
          (select env w (some clientId) provider).examined =
            (select env' w' (some clientId) provider).examined ∧
        (select env w (some clientId) provider).world.rrIndexByScope
          { clientId := some clientId, provider } =
            (select env' w' (some clientId) provider).world.rrIndexByScope
              { clientId := some clientId, provider } := by
    simp only [select, ← h.select_eq, ← h.roundRobin, ← hscan]
    split
    · exact ⟨rfl, rfl, h.roundRobin⟩
    split
    · exact ⟨rfl, rfl, h.roundRobin⟩
    split
    · exact ⟨rfl, rfl, h.roundRobin⟩
    · exact ⟨by simp only [exhaustedError, hmidnight], rfl, h.roundRobin⟩
    · exact ⟨rfl, rfl, by simp only [Function.update_self]⟩
  refine ⟨hresult, hexamined, ?_⟩
  cases hcase : (select env w (some clientId) provider).result with
  | error error =>
    rw [(select_refused hcase).1, (select_refused (hresult.symm.trans hcase)).1]
    exact h
  | ok selected =>
    have hcommitted := (select_selected hcase).2.1
    have hcommitted' := (select_selected (hresult.symm.trans hcase)).2.1
    have hrest := select_rest env w (some clientId) provider
    have hrest' := select_rest env' w' (some clientId) provider
    refine h.step (select_sameOwners env w (some clientId) provider)
      (select_sameOwners env' w' (some clientId) provider) ?_ ?_ ⟨hrest.2.1, hrest'.2.1⟩ hrr ?_
    · intro id howned
      rw [World.key?, World.key?, hcommitted, hcommitted', hexamined, commitExamined,
        commitExamined, Table.get?_mapRows, Table.get?_mapRows]
      exact congrArg _ (h.key? howned)
    · rw [World.client?, World.client?, hrest.1, hrest'.1]
      exact h.client
    · intro id howned
      rw [hrest.2.2, hrest'.2.2]
      exact h.failures id howned

end Select

/-! ### Outcomes -/

section Outcomes

variable {clientId : Nat} {provider : Provider} {w w' : World}

theorem failuresInWindow_congr (config : AppConfig) (now : Instant) {id : Nat}
    (hsame : w.failures id = w'.failures id) :
    failuresInWindow config now id w = failuresInWindow config now id w' := by
  simp only [failuresInWindow, hsame]

theorem settle_sameOwners (config : AppConfig) (method upstreamPath : String) (outcome : Outcome)
    (now : Instant) (clientId id : Nat) (w : World) :
    SameOwners w (settle config method upstreamPath outcome now clientId id w) := by
  apply (settle_row config method upstreamPath outcome now clientId id w).sameOwners
  intro key
  rw [settleRow_frame]
  rfl

/-- An outcome of a key of the client does the same in both states. -/
theorem settle_sameFor (h : w.SameFor clientId provider w') (config : AppConfig)
    (method upstreamPath : String) (outcome : Outcome) (now : Instant) {id : Nat}
    (howned : Owned clientId w id) :
    (settle config method upstreamPath outcome now clientId id w).SameFor clientId provider
      (settle config method upstreamPath outcome now clientId id w') := by
  have hwindow := failuresInWindow_congr config now (h.failures id howned)
  have hrest := settle_rest config now id method upstreamPath clientId outcome w
  have hrest' := settle_rest config now id method upstreamPath clientId outcome w'
  refine h.step (settle_sameOwners _ _ _ _ _ _ _ _) (settle_sameOwners _ _ _ _ _ _ _ _) ?_ ?_
    ⟨hrest.2.1, hrest'.2.1⟩ ?_ ?_
  · intro other hother
    have hreached : reachesThreshold config now id w = reachesThreshold config now id w' := by
      simp only [reachesThreshold, hwindow]
    rw [settle_row config method upstreamPath outcome now clientId id w other,
      settle_row config method upstreamPath outcome now clientId id w' other, hreached,
      h.key? hother]
  · rw [settle_client?, settle_client?, h.client]
  · rw [hrest.1, hrest'.1]
    exact h.roundRobin
  · intro other hother
    rw [hrest.2.2, hrest'.2.2, recordFailure_failures, recordFailure_failures, hwindow,
      h.key? howned]
    have hsame := h.failures other hother
    split
    · split
      · exact hsame
      · by_cases heq : other = id
        · rw [heq, Function.update_self, Function.update_self]
        · rw [Function.update_of_ne heq, Function.update_of_ne heq]
          exact hsame
    · exact hsame

theorem modifyKey_sameFor (h : w.SameFor clientId provider w') (id : Nat) {f : ApiKey → ApiKey}
    (hsame : ∀ key, (f key).clientId = key.clientId) :
    (w.modifyKey id f).SameFor clientId provider (w'.modifyKey id f) := by
  refine h.step ((rowUpdated_modifyKey w id f).sameOwners hsame)
    ((rowUpdated_modifyKey w' id f).sameOwners hsame) ?_ h.client ⟨rfl, rfl⟩ h.roundRobin h.failures
  intro other hother
  rw [World.key?_modifyKey, World.key?_modifyKey, h.key? hother]

end Outcomes

/-! ### Passes -/

/-- Two passes get the same answers for some keys. -/
structure Turn.SameFor (owned : Nat → Prop) (turn turn' : Turn) : Prop where
  reading : turn.pool.reading = turn'.pool.reading
  secondsUntilNextMidnight :
    turn.pool.secondsUntilNextMidnight = turn'.pool.secondsUntilNextMidnight
  remainingSeconds : ∀ id, owned id → turn.pool.remainingSeconds id = turn'.pool.remainingSeconds id
  allow : ∀ id, owned id → turn.allow id = turn'.allow id
  tryAcquire : ∀ id, owned id → turn.tryAcquire id = turn'.tryAcquire id
  outcome : turn.outcome = turn'.outcome
  settledAt : turn.settledAt = turn'.settledAt

/-- Two forwards of the client have got equally far; `owned` are the ids of its keys. -/
structure Progress.SameFor (clientId : Nat) (provider : Provider) (owned : Nat → Prop)
    (p p' : Progress) : Prop where
  world : p.world.SameFor clientId provider p'.world
  owned_iff : ∀ id, Owned clientId p.world id ↔ owned id
  upstreamAttempts : p.upstreamAttempts = p'.upstreamAttempts
  retryCount : p.retryCount = p'.retryCount
  lastUpstreamStatus : p.lastUpstreamStatus = p'.lastUpstreamStatus
  lastApiKeyId : p.lastApiKeyId = p'.lastApiKeyId
  decryptFailedSeen : p.decryptFailedSeen = p'.decryptFailedSeen
  events : p.events.map Event.seen = p'.events.map Event.seen
  calls : ∀ e ∈ exchangesOf p.events, owned e.keyId

/-- Two forwards of the client have ended alike. -/
structure Forwarded.SameFor (clientId : Nat) (provider : Provider) (owned : Nat → Prop)
    (forwarded forwarded' : Forwarded) :
    Prop where
  result : forwarded.result = forwarded'.result
  world : forwarded.world.SameFor clientId provider forwarded'.world
  events : forwarded.events.map Event.seen = forwarded'.events.map Event.seen
  calls : ∀ e ∈ exchangesOf forwarded.events, owned e.keyId

namespace Progress.SameFor

variable {clientId : Nat} {provider : Provider} {owned : Nat → Prop} {p p' : Progress}

theorem log (h : p.SameFor clientId provider owned p') {events events' : List Event}
    (hseen : events.map Event.seen = events'.map Event.seen) (hquiet : exchangesOf events = []) :
    (p.log events).SameFor clientId provider owned (p'.log events') :=
  { h with
    events := by simp only [Progress.log, List.map_append, h.events, hseen]
    calls := by
      simp only [Progress.log, exchangesOf_append, hquiet, List.append_nil]
      exact h.calls }

theorem retry (h : p.SameFor clientId provider owned p') {retryCount retryCount' : Nat}
    (heq : retryCount = retryCount') :
    { p with retryCount }.SameFor clientId provider owned { p' with retryCount := retryCount' } :=
  { h with retryCount := heq }

theorem raise (h : p.SameFor clientId provider owned p') {error error' : FcamError}
    (heq : error = error') :
    (p.raise error).SameFor clientId provider owned (p'.raise error') := by
  subst heq
  exact ⟨rfl, h.world, h.events, h.calls⟩

theorem fail (h : p.SameFor clientId provider owned p') (text : String) :
    (p.fail text).SameFor clientId provider owned (p'.fail text) :=
  ⟨rfl, h.world, h.events, h.calls⟩

theorem respond (h : p.SameFor clientId provider owned p') (r : UpstreamResponse) :
    (p.respond r).SameFor clientId provider owned (p'.respond r) where
  result := by simp only [Progress.respond, h.retryCount, h.lastUpstreamStatus, h.lastApiKeyId]
  world := h.world
  events := h.events
  calls := h.calls

theorem noAttemptLeft_eq (h : p.SameFor clientId provider owned p') (fwd : Forwarder)
    (req : ForwardRequest) :
    noAttemptLeft fwd req p = noAttemptLeft fwd req p' := by
  simp only [noAttemptLeft, h.upstreamAttempts, h.lastUpstreamStatus, h.lastApiKeyId]

theorem undecrypted (h : p.SameFor clientId provider owned p') (id : Nat) :
    (p.undecrypted id).SameFor clientId provider owned (p'.undecrypted id) := by
  have hlogged :=
    h.log (rfl : [Event.tokenTaken id, .leased id, .released id].map Event.seen = _) rfl
  have howners := (rowUpdated_modifyKey p.world id disableKeyDecryptFailed).sameOwners fun _ => rfl
  exact { hlogged with
    world := modifyKey_sameFor h.world id fun _ => rfl
    owned_iff := fun other => (howners.owned_iff clientId other).trans (h.owned_iff other) }

section

variable (fwd : Forwarder) (baseUrl : String) (req : ForwardRequest) {turn turn' : Turn}

theorem called (h : p.SameFor req.clientId req.provider owned p') (hturn : turn.SameFor owned turn')
    {id : Nat} (howned : owned id) (plaintextKey : String) :
    (p.called fwd baseUrl req turn id plaintextKey).SameFor req.clientId req.provider owned
      (p'.called fwd baseUrl req turn' id plaintextKey) := by
  have hworld :=
    settle_sameFor h.world fwd.config req.method req.upstreamPath turn.outcome turn.settledAt
    ((h.owned_iff id).mpr howned)
  have howners :=
    settle_sameOwners fwd.config req.method req.upstreamPath turn.outcome turn.settledAt
      req.clientId id p.world
  have hseen : ∀ before after before' after',
      (exchanges fwd baseUrl req turn.outcome id plaintextKey before after).map Event.seen =
        (exchanges fwd baseUrl req turn.outcome id plaintextKey before' after').map Event.seen := by
    intro before after before' after'
    cases turn.outcome <;> rfl
  have hcalls :
      ∀ e ∈ exchangesOf (p.called fwd baseUrl req turn id plaintextKey).events, owned e.keyId := by
    intro e hmem
    rcases called_exchanges fwd baseUrl req turn id p plaintextKey with
      ⟨hsame, _⟩ | ⟨last, hmore, rfl, _⟩
    · rw [hsame] at hmem
      exact h.calls e hmem
    · rw [hmore, List.mem_append, List.mem_singleton] at hmem
      rcases hmem with hold | rfl
      · exact h.calls e hold
      · exact howned
  simp only [Progress.called, call, ← hturn.outcome, ← hturn.settledAt]
  exact {
    world := hworld
    owned_iff := fun other => (howners.owned_iff req.clientId other).trans (h.owned_iff other)
    upstreamAttempts := congrArg (· + 1) h.upstreamAttempts
    retryCount := h.retryCount
    lastUpstreamStatus := by
      simp only [Progress.log]
      split
      · rfl
      · exact h.lastUpstreamStatus
    lastApiKeyId := h.lastApiKeyId
    decryptFailedSeen := h.decryptFailedSeen
    events := by
      simp only [Progress.log, List.map_append, h.events]
      rw [hseen]
    calls := hcalls }

theorem selected (h : p.SameFor req.clientId req.provider owned p')
    (hturn : turn.SameFor owned turn') :
    (p.selected req turn).SameFor req.clientId req.provider owned (p'.selected req turn') := by
  obtain ⟨_, hexamined, hworld⟩ :=
    select_sameFor h.world hturn.reading hturn.secondsUntilNextMidnight
    fun id howned => hturn.remainingSeconds id ((h.owned_iff id).mp howned)
  have howners := select_sameOwners turn.pool p.world (some req.clientId) req.provider
  have hevent :
      [Event.examined turn.pool.reading.today
        (select turn.pool p.world (some req.clientId) req.provider).examined] =
          [.examined turn'.pool.reading.today
            (select turn'.pool p'.world (some req.clientId) req.provider).examined] := by
    rw [hexamined, hturn.reading]
  have hlogged := h.log (congrArg (List.map Event.seen) hevent) rfl
  exact { hlogged with
    world := hworld
    owned_iff := fun other => (howners.owned_iff req.clientId other).trans (h.owned_iff other) }

end

end Progress.SameFor

section Passes

variable {fwd : Forwarder} {masterKey : Bytes} {baseUrl : String} {req : ForwardRequest}
  {owned : Nat → Prop} {turns turns' : Nat → Turn} {p p' : Progress}

theorem pooledPass_sameFor (i : Nat) (h : p.SameFor req.clientId req.provider owned p')
    (hturn : (turns i).SameFor owned (turns' i)) :
    (pooledPass fwd masterKey baseUrl req turns i p).Related
      (Progress.SameFor req.clientId req.provider owned)
      (Forwarded.SameFor req.clientId req.provider owned)
        (pooledPass fwd masterKey baseUrl req turns' i p') := by
  have hselected := h.selected req hturn
  obtain ⟨hresult, _, _⟩ := select_sameFor h.world hturn.reading hturn.secondsUntilNextMidnight
    fun id howned => hturn.remainingSeconds id ((h.owned_iff id).mp howned)
  rw [pooledPass, pooledPass]
  simp only [← hresult, ← hturn.outcome]
  cases hcase : (select (turns i).pool p.world (some req.clientId) req.provider).result with
  | error error =>
    refine .done (hselected.raise ?_)
    show (if (p.decryptFailedSeen && explainedByDecryption error.code) = true then keyDecryptFailed
      else error) = _
    rw [h.decryptFailedSeen]
    rfl
  | ok selected =>
  obtain ⟨id, key⟩ := selected
  have howned : owned id := by
    obtain ⟨_, before, hbefore, hscope, _⟩ := select_ok hcase
    simp only [inScope, Option.isNone_some, Bool.false_or, Bool.and_eq_true, beq_iff_eq] at hscope
    exact (h.owned_iff id).mp ⟨before, hbefore, hscope.2⟩
  have hchosen :
      { p.selected req (turns i) with lastApiKeyId := some id }.SameFor req.clientId req.provider
        owned { p'.selected req (turns' i) with lastApiKeyId := some id } :=
    { hselected with lastApiKeyId := rfl }
  have hretried := hchosen.retry (congrArg (· + 1) hchosen.retryCount)
  simp only [← hturn.allow id howned, ← hturn.tryAcquire id howned]
  cases (turns i).allow id key.rateLimitPerMin with
  | error error => exact .done (hchosen.raise rfl)
  | ok answer =>
  obtain ⟨allowed, retryAfter⟩ := answer
  cases allowed with
  | false => exact .again (hretried.log rfl rfl)
  | true =>
  simp only
  cases (turns i).tryAcquire id key.maxConcurrent with
  | error error => exact .done ((hchosen.log rfl rfl).raise rfl)
  | ok acquired =>
  cases acquired with
  | false => exact .again (hretried.log rfl rfl)
  | true =>
  cases fwd.decrypt masterKey key with
  | none => exact .again { hretried.undecrypted id with decryptFailedSeen := rfl }
  | some plaintextKey =>
  have hcalled := hchosen.called fwd baseUrl req hturn howned plaintextKey
  have hagain := hcalled.retry (congrArg (· + 1) hcalled.retryCount)
  have hlast := iff_of_eq (congrArg (fwd.totalAttempts req.provider ≤ ·) hcalled.upstreamAttempts)
  cases (turns i).outcome with
  | exception text => exact .done (hcalled.fail text)
  | unsent text => exact .done (hcalled.fail text)
  | timeout => exact .ite hlast (.done (hagain.raise rfl)) (.again hagain)
  | httpError text => exact .ite hlast (.done (hagain.raise rfl)) (.again hagain)
  | response r =>
    exact .ite (and_congr_right' (not_congr hlast)) (.again hagain) (.done (hcalled.respond r))

theorem pinnedPass_sameFor (id i : Nat) (h : p.SameFor req.clientId req.provider owned p')
    (howned : owned id) (hturn : (turns i).SameFor owned (turns' i)) :
    (pinnedPass fwd masterKey baseUrl req turns id i p).Related
      (Progress.SameFor req.clientId req.provider owned)
      (Forwarded.SameFor req.clientId req.provider owned)
        (pinnedPass fwd masterKey baseUrl req turns' id i p') := by
  rw [pinnedPass, pinnedPass]
  simp only [← h.world.key? ((h.owned_iff id).mpr howned), ← hturn.outcome, Progress.log_log,
    List.cons_append, List.nil_append]
  cases p.world.key? id with
  | none => exact .done (h.fail _)
  | some key =>
  simp only [← hturn.allow id howned, ← hturn.tryAcquire id howned]
  cases (turns i).allow id key.rateLimitPerMin with
  | error error => exact .done (h.raise rfl)
  | ok answer =>
  obtain ⟨allowed, retryAfter⟩ := answer
  cases allowed with
  | false => exact .done ((h.log rfl rfl).raise rfl)
  | true =>
  simp only
  cases (turns i).tryAcquire id key.maxConcurrent with
  | error error => exact .done ((h.log rfl rfl).raise rfl)
  | ok acquired =>
  cases acquired with
  | false => exact .done ((h.log rfl rfl).raise rfl)
  | true =>
  cases fwd.decrypt masterKey key with
  | none => exact .done ((h.undecrypted id).raise rfl)
  | some plaintextKey =>
  have hcalled := h.called fwd baseUrl req hturn howned plaintextKey
  cases (turns i).outcome with
  | exception text => exact .done (hcalled.fail text)
  | unsent text => exact .done (hcalled.fail text)
  | timeout => exact .ite Iff.rfl (.done (hcalled.raise rfl)) (.again hcalled)
  | httpError text => exact .ite Iff.rfl (.done (hcalled.raise rfl)) (.again hcalled)
  | response r =>
    have hretried :=
      hcalled.retry (congrArg (fun retryCount => if 0 < i then i
        else retryCount) hcalled.retryCount)
    exact .ite Iff.rfl (.again hretried) (.done (hretried.respond r))

end Passes

/-! ### Stores -/

section Stores

variable {clientId : Nat} {provider : Provider} {owned : Nat → Prop} {w w' : World}
  {stores stores' : Stores}

theorem LiveTurn.SameFor.turn {live live' : LiveTurn} (h : live.SameFor owned live')
    (hstores : stores.SameFor owned stores') :
    (live.turn stores).SameFor owned (live'.turn stores') where
  reading := h.reading
  secondsUntilNextMidnight := h.secondsUntilNextMidnight
  remainingSeconds := h.remainingSeconds
  allow id howned := by
    funext ratePerMin
    have hanswer :=
      (TokenBucketRateLimiter.allow_congr live.monotonic ratePerMin (hstores.buckets id howned)).1
    rw [h.monotonic] at hanswer
    simp only [LiveTurn.turn, h.monotonic]
    exact congrArg (fun answer : Bool × Int => Except.ok (answer.1, some answer.2)) hanswer
  tryAcquire id howned := by
    funext maximum
    simp only [LiveTurn.turn]
    rw [(ConcurrencyManager.tryAcquire_congr maximum (hstores.leases id howned)).1]
  outcome := h.outcome
  settledAt := h.settledAt

theorem logged_seen (monotonic : ℚ) (w : World) (stores : Stores) (event : Event) :
    stores.logged monotonic w event.seen = stores.logged monotonic w event := by
  cases event <;> rfl

/-- The key whose entries an event changes. -/
def Event.key? : Event → Option Nat
  | rateLimited id => some id
  | tokenTaken id => some id
  | busy id => some id
  | leased id => some id
  | released id => some id
  | examined _ _ => none
  | exchanged _ => none

theorem logged_of_ne (monotonic : ℚ) (w : World) (stores : Stores) {event : Event} {id : Nat}
    (hne : event.key? ≠ some id) :
    (stores.logged monotonic w event).limiter.buckets id = stores.limiter.buckets id ∧
      (stores.logged monotonic w event).leases.states id = stores.leases.states id := by
  have hother : ∀ {key : Nat}, some key ≠ some id → id ≠ key := fun hkey heq => hkey (heq ▸ rfl)
  cases event with
  | examined => exact ⟨rfl, rfl⟩
  | exchanged => exact ⟨rfl, rfl⟩
  | rateLimited key =>
    simp only [Stores.logged]
    cases w.key? key with
    | none => exact ⟨rfl, rfl⟩
    | some row =>
      exact ⟨TokenBucketRateLimiter.allow_of_ne monotonic row.rateLimitPerMin (hother hne), rfl⟩
  | tokenTaken key =>
    simp only [Stores.logged]
    cases w.key? key with
    | none => exact ⟨rfl, rfl⟩
    | some row =>
      exact ⟨TokenBucketRateLimiter.allow_of_ne monotonic row.rateLimitPerMin (hother hne), rfl⟩
  | busy key =>
    simp only [Stores.logged]
    cases w.key? key with
    | none => exact ⟨rfl, rfl⟩
    | some row => exact ⟨rfl, ConcurrencyManager.tryAcquire_of_ne row.maxConcurrent (hother hne)⟩
  | leased key =>
    simp only [Stores.logged]
    cases w.key? key with
    | none => exact ⟨rfl, rfl⟩
    | some row => exact ⟨rfl, ConcurrencyManager.tryAcquire_of_ne row.maxConcurrent (hother hne)⟩
  | released key =>
    simp only [Stores.logged]
    cases w.key? key with
    | none => exact ⟨rfl, rfl⟩
    | some row =>
      simp only
      split
      · exact ⟨rfl, rfl⟩
      · exact ⟨rfl, ConcurrencyManager.giveBack_of_ne (hother hne)⟩

theorem logged_congr (monotonic : ℚ) {event : Event} {id : Nat} (hevent : event.key? = some id)
    (hkey : w.key? id = w'.key? id)
    (hbuckets : stores.limiter.buckets id = stores'.limiter.buckets id)
    (hleases : stores.leases.states id = stores'.leases.states id) :
    (stores.logged monotonic w event).limiter.buckets id =
      (stores'.logged monotonic w' event).limiter.buckets id ∧
      (stores.logged monotonic w event).leases.states id =
        (stores'.logged monotonic w' event).leases.states id := by
  cases event with
  | examined => cases hevent
  | exchanged => cases hevent
  | rateLimited key =>
    cases hevent
    simp only [Stores.logged, hkey]
    cases w'.key? id with
    | none => exact ⟨hbuckets, hleases⟩
    | some row =>
      exact ⟨(TokenBucketRateLimiter.allow_congr monotonic row.rateLimitPerMin hbuckets).2, hleases⟩
  | tokenTaken key =>
    cases hevent
    simp only [Stores.logged, hkey]
    cases w'.key? id with
    | none => exact ⟨hbuckets, hleases⟩
    | some row =>
      exact ⟨(TokenBucketRateLimiter.allow_congr monotonic row.rateLimitPerMin hbuckets).2, hleases⟩
  | busy key =>
    cases hevent
    simp only [Stores.logged, hkey]
    cases w'.key? id with
    | none => exact ⟨hbuckets, hleases⟩
    | some row =>
      exact ⟨hbuckets, (ConcurrencyManager.tryAcquire_congr row.maxConcurrent hleases).2⟩
  | leased key =>
    cases hevent
    simp only [Stores.logged, hkey]
    cases w'.key? id with
    | none => exact ⟨hbuckets, hleases⟩
    | some row =>
      exact ⟨hbuckets, (ConcurrencyManager.tryAcquire_congr row.maxConcurrent hleases).2⟩
  | released key =>
    cases hevent
    simp only [Stores.logged, hkey]
    cases w'.key? id with
    | none => exact ⟨hbuckets, hleases⟩
    | some row =>
      simp only
      split
      · exact ⟨hbuckets, hleases⟩
      · exact ⟨hbuckets, ConcurrencyManager.giveBack_congr hleases⟩

theorem logged_sameFor (hstores : stores.SameFor owned stores')
    (hworld : w.SameFor clientId provider w') (howned : ∀ id, Owned clientId w id ↔ owned id)
    (monotonic : ℚ) (event : Event) :
    (stores.logged monotonic w event).SameFor owned (stores'.logged monotonic w' event) := by
  have hentry : ∀ id, owned id →
      (stores.logged monotonic w event).limiter.buckets id =
        (stores'.logged monotonic w' event).limiter.buckets id ∧
          (stores.logged monotonic w event).leases.states id =
            (stores'.logged monotonic w' event).leases.states id := by
    intro id hid
    by_cases hevent : event.key? = some id
    · exact logged_congr monotonic hevent (hworld.key? ((howned id).mpr hid))
        (hstores.buckets id hid) (hstores.leases id hid)
    · obtain ⟨hbuckets, hleases⟩ := logged_of_ne monotonic w stores hevent
      obtain ⟨hbuckets', hleases'⟩ := logged_of_ne monotonic w' stores' hevent
      rw [hbuckets, hbuckets', hleases, hleases']
      exact ⟨hstores.buckets id hid, hstores.leases id hid⟩
  exact ⟨fun id hid => (hentry id hid).1, fun id hid => (hentry id hid).2⟩

/-- What two forwards have logged since the same place. -/
theorem after_sameFor (hworld : w.SameFor clientId provider w')
    (howned : ∀ id, Owned clientId w id ↔ owned id) (hstores : stores.SameFor owned stores')
    (monotonic : ℚ) (n : Nat) {events events' : List Event}
    (hseen : events.map Event.seen = events'.map Event.seen) :
    ((events.drop n).foldl (Stores.logged monotonic w) stores).SameFor owned
      ((events'.drop n).foldl (Stores.logged monotonic w') stores') := by
  have hfold : ∀ (w : World) (stores : Stores) (events : List Event),
      (events.drop n).foldl (Stores.logged monotonic w) stores =
        ((events.map Event.seen).drop n).foldl (Stores.logged monotonic w) stores := by
    intro w stores events
    rw [← List.map_drop, List.foldl_map]
    simp only [logged_seen]
  rw [hfold w, hfold w', hseen]
  generalize (events'.map Event.seen).drop n = rest
  induction rest generalizing stores stores' with
  | nil => exact hstores
  | cons event rest ih => exact ih (logged_sameFor hstores hworld howned monotonic event)

end Stores

/-! ### Forwards -/

/-- Two passes with their stores, or the ends of two forwards with theirs. -/
def WithStores {α : Type} (same : α → α → Prop) (owned : Nat → Prop) (s s' : α × Stores) : Prop :=
  same s.1 s'.1 ∧ s.2.SameFor owned s'.2

section Forwards

variable {fwd : Forwarder} {req : ForwardRequest} {owned : Nat → Prop} {live live' : Nat → LiveTurn}

theorem livePass_sameFor (pass : (Nat → Turn) → Nat → Progress → Pass Progress Forwarded)
    (hpass : ∀ {turns turns' : Nat → Turn} {p p'} (i : Nat), p.SameFor req.clientId req.provider
      owned p' → (turns i).SameFor owned (turns' i) →
      (pass turns i p).Related (Progress.SameFor req.clientId req.provider owned)
        (Forwarded.SameFor req.clientId req.provider owned) (pass turns' i p'))
    (hlive : ∀ i, (live i).SameFor owned (live' i)) (i : Nat) (s s' : Progress × Stores)
    (h : WithStores (Progress.SameFor req.clientId req.provider owned) owned s s') :
    (livePass live pass i s).Related
      (WithStores (Progress.SameFor req.clientId req.provider owned) owned)
      (WithStores (Forwarded.SameFor req.clientId req.provider owned) owned)
        (livePass live' pass i s') := by
  obtain ⟨p, stores⟩ := s
  obtain ⟨p', stores'⟩ := s'
  obtain ⟨hprogress, hstores⟩ := h
  have hlength : p.events.length = p'.events.length := by
    have hseen := congrArg List.length hprogress.events
    rwa [List.length_map, List.length_map] at hseen
  have hafter : ∀ {events events' : List Event}, events.map Event.seen = events'.map Event.seen →
      ((events.drop p.events.length).foldl (Stores.logged (live i).monotonic p.world)
        stores).SameFor owned
          ((events'.drop p.events.length).foldl (Stores.logged (live i).monotonic p'.world)
            stores') := fun hseen =>
    after_sameFor hprogress.world hprogress.owned_iff hstores (live i).monotonic p.events.length
      hseen
  have hrelated :
      (pass (fun _ => (live i).turn stores) i p).Related
        (Progress.SameFor req.clientId req.provider owned)
          (Forwarded.SameFor req.clientId req.provider owned)
            (pass (fun _ => (live' i).turn stores') i p') :=
    hpass i hprogress ((hlive i).turn hstores)
  simp only [livePass, ← hlength, ← (hlive i).monotonic]
  revert hrelated
  generalize pass (fun _ => (live i).turn stores) i p = first
  generalize pass (fun _ => (live' i).turn stores') i p' = second
  intro hrelated
  cases hrelated with
  | again hnext => exact .again ⟨hnext, hafter hnext.events⟩
  | done hended => exact .done ⟨hended, hafter hended.events⟩

variable {masterKey : Bytes} {baseUrl : String}

theorem forwardPooledLive_sameFor (hlive : ∀ i, (live i).SameFor owned (live' i))
    {s s' : Progress × Stores}
    (h : WithStores (Progress.SameFor req.clientId req.provider owned) owned s s') :
    WithStores (Forwarded.SameFor req.clientId req.provider owned) owned
      (forwardPooledLive fwd masterKey baseUrl req live s)
        (forwardPooledLive fwd masterKey baseUrl req live' s') := by
  have hguard :
      ∀ s s' : Progress × Stores,
        WithStores (Progress.SameFor req.clientId req.provider owned) owned s s' →
      decide (s.1.upstreamAttempts < fwd.totalAttempts req.provider) =
        decide (s'.1.upstreamAttempts < fwd.totalAttempts req.provider) :=
    fun _ _ h => by rw [h.1.upstreamAttempts]
  have hpass := livePass_sameFor (pooledPass fwd masterKey baseUrl req) pooledPass_sameFor hlive
  have hloop :=
    loopWhile_related _ _ hguard hpass (maxSelectionTries (fwd.totalAttempts req.provider)) 0 s s' h
  simp only [forwardPooledLive]
  revert hloop
  generalize loopWhile _ (livePass live _) _ 0 s = first
  generalize loopWhile _ (livePass live' _) _ 0 s' = second
  intro hloop
  cases hloop with
  | done hended => exact hended
  | again hlast => exact ⟨hlast.1.raise (hlast.1.noAttemptLeft_eq fwd req), hlast.2⟩

theorem forwardPinnedLive_sameFor (hlive : ∀ i, (live i).SameFor owned (live' i)) {id : Nat}
    (howned : owned id) {s s' : Progress × Stores}
    (h : WithStores (Progress.SameFor req.clientId req.provider owned) owned s s') :
    WithStores (Forwarded.SameFor req.clientId req.provider owned) owned
      (forwardPinnedLive fwd masterKey baseUrl req live id s)
        (forwardPinnedLive fwd masterKey baseUrl req live' id s') := by
  have hstart : WithStores (Progress.SameFor req.clientId req.provider owned) owned
      ({ s.1 with lastApiKeyId := some id }, s.2) ({ s'.1 with lastApiKeyId := some id }, s'.2) :=
    ⟨{ h.1 with lastApiKeyId := rfl }, h.2⟩
  have hpass := livePass_sameFor (fun turns => pinnedPass fwd masterKey baseUrl req turns id)
    (fun i hprogress hturn => pinnedPass_sameFor id i hprogress howned hturn) hlive
  have hloop :=
    loopWhile_related (fun _ => true) (fun _ => true) (fun _ _ _ => rfl) hpass
      (fwd.totalAttempts req.provider) 0 _ _ hstart
  simp only [forwardPinnedLive]
  revert hloop
  generalize loopWhile _ (livePass live _) _ 0 _ = first
  generalize loopWhile _ (livePass live' _) _ 0 _ = second
  intro hloop
  cases hloop with
  | done hended => exact hended
  | again hlast =>
    exact forwardPooledLive_sameFor hlive ⟨{ hlast.1 with upstreamAttempts := rfl }, hlast.2⟩

end Forwards

theorem pinnedKey?_sameFor {req : ForwardRequest} {w w' : World}
    (h : w.SameFor req.clientId req.provider w') (id : Nat) :
    pinnedKey? req w id = pinnedKey? req w' id := by
  apply Option.ext
  intro key
  simp only [pinnedKey?, Option.filter_eq_some_iff, Bool.and_eq_true, beq_iff_eq]
  constructor
  · rintro ⟨hkey, ⟨howner, henabled⟩, hprovider⟩
    exact ⟨(h.keys id key howner).mp hkey, ⟨howner, henabled⟩, hprovider⟩
  · rintro ⟨hkey, ⟨howner, henabled⟩, hprovider⟩
    exact ⟨(h.keys id key howner).mpr hkey, ⟨howner, henabled⟩, hprovider⟩

theorem forwardLive_sameFor (fwd : Forwarder) (req : ForwardRequest) {live live' : Nat → LiveTurn}
    {w w' : World} {stores stores' : Stores} (hworld : w.SameFor req.clientId req.provider w')
    (hstores : stores.SameFor (Owned req.clientId w) stores')
    (hlive : ∀ i, (live i).SameFor (Owned req.clientId w) (live' i)) :
    WithStores (Forwarded.SameFor req.clientId req.provider (Owned req.clientId w))
      (Owned req.clientId w)
      (forwardLive fwd req live w stores) (forwardLive fwd req live' w' stores') := by
  have hstart :
      Progress.SameFor req.clientId req.provider (Owned req.clientId w) { world := w }
        { world := w' } :=
    ⟨hworld, fun _ => Iff.rfl, rfl, rfl, rfl, rfl, rfl, rfl, fun _ hmem => (nomatch hmem)⟩
  simp only [forwardLive, ← pinnedKey?_sameFor hworld]
  cases fwd.masterKey with
  | none => exact ⟨hstart.raise rfl, hstores⟩
  | some masterKey =>
  cases fwd.providerBaseUrl req.provider with
  | error error => exact ⟨hstart.raise rfl, hstores⟩
  | ok baseUrl =>
  simp only
  cases haccepted : req.pinnedApiKeyId.bind fun id => (pinnedKey? req w id).map fun _ => id with
  | none => exact forwardPooledLive_sameFor hlive ⟨hstart, hstores⟩
  | some id =>
    have howned : Owned req.clientId w id := by
      obtain ⟨pin, _, haccepted⟩ := Option.bind_eq_some_iff.mp haccepted
      obtain ⟨key, hkey, rfl⟩ := Option.map_eq_some_iff.mp haccepted
      simp only [pinnedKey?, Option.filter_eq_some_iff, Bool.and_eq_true, beq_iff_eq] at hkey
      exact ⟨key, hkey.1, hkey.2.1.1⟩
    exact forwardPinnedLive_sameFor hlive howned ⟨hstart, hstores⟩

/-! ### Bindings -/

/-- A lookup for the client finds the same key, and deletes the same binding. -/
theorem lookupBoundKeyId_sameFor {clientId : Nat} {provider : Provider} {w w' : World}
    (h : w.SameFor clientId provider w') (now : Instant) (resourceType : String)
    (resourceId : PyStr) :
    (lookupBoundKeyId now clientId resourceType resourceId w.db.bindings).1 =
        (lookupBoundKeyId now clientId resourceType resourceId w'.db.bindings).1 ∧
      ((lookupBoundKeyId now clientId resourceType resourceId w.db.bindings).2.select fun row =>
        row.clientId == clientId) =
        (lookupBoundKeyId now clientId resourceType resourceId w'.db.bindings).2.select fun row =>
          row.clientId == clientId := by
  have hfound : ∀ (t : Table UpstreamResourceBinding) (p : UpstreamResourceBinding → Bool),
      (t.select fun row => row.clientId == clientId && p row) =
        (t.select fun row => row.clientId == clientId).filter fun row => p row.2 := by
    intro t p
    simp only [Table.select, List.filter_filter]
    exact List.filter_congr fun row _ => Bool.and_comm _ _
  have hdeleted : ∀ (t : Table UpstreamResourceBinding) (id : Nat),
      ((t.deleteWhere fun row _ => row == id).select fun row => row.clientId == clientId) =
        (t.select fun row => row.clientId == clientId).filter fun row => !(row.1 == id) := by
    intro t id
    simp only [Table.select, Table.deleteWhere, List.filter_filter]
    exact List.filter_congr fun row _ => Bool.and_comm _ _
  simp only [lookupBoundKeyId, Bool.and_assoc, hfound, h.bindings]
  split
  · exact ⟨rfl, h.bindings⟩
  split
  · split
    · exact ⟨rfl, by rw [hdeleted, hdeleted, h.bindings]⟩
    · exact ⟨rfl, h.bindings⟩
  · exact ⟨rfl, h.bindings⟩

/-- In two states that agree on what belongs to a client, a forward for it returns the same, makes
the same calls, all with keys of the client, and leaves them in agreement; and a resource of the
client is pinned to the same key. -/
theorem forward_same_for_client (fwd : Forwarder) (req : ForwardRequest)
    {live live' : Nat → LiveTurn} {w w' : World} {stores stores' : Stores}
    (hworld : w.SameFor req.clientId req.provider w')
    (hstores : stores.SameFor (Owned req.clientId w) stores')
    (hlive : ∀ i, (live i).SameFor (Owned req.clientId w) (live' i)) :
    let ended := forwardLive fwd req live w stores
    let ended' := forwardLive fwd req live' w' stores'
    (ended.1.result = ended'.1.result ∧
      (exchangesOf ended.1.events).map Exchange.seen = (exchangesOf ended'.1.events).map
        Exchange.seen ∧
      (∀ e ∈ exchangesOf ended.1.events, ∃ key, w.key? e.keyId = some key ∧
       key.clientId = some req.clientId) ∧
      ended.1.world.SameFor req.clientId req.provider ended'.1.world ∧
      ended.2.SameFor (Owned req.clientId w) ended'.2) ∧
    ∀ now resourceType resourceId,
      (lookupBoundKeyId now req.clientId resourceType resourceId w.db.bindings).1 =
        (lookupBoundKeyId now req.clientId resourceType resourceId w'.db.bindings).1 ∧
      ((lookupBoundKeyId now req.clientId resourceType resourceId w.db.bindings).2.select
          fun row => row.clientId == req.clientId) =
        (lookupBoundKeyId now req.clientId resourceType resourceId w'.db.bindings).2.select
          fun row => row.clientId == req.clientId := by
  intro ended ended'
  obtain ⟨hended, hleft⟩ := forwardLive_sameFor fwd req hworld hstores hlive
  refine ⟨⟨hended.result, ?_, hended.calls, hended.world, hleft⟩, lookupBoundKeyId_sameFor hworld⟩
  rw [← exchangesOf_seen, ← exchangesOf_seen, hended.events]

/-- The key of another client beside those of a state. -/
def withForeignKey (w : World) : World :=
  w.withKeys (w.db.keys.insert { clientId := some 2, apiKeyCiphertext := [102] })

theorem sameFor_withForeignKey :
    (servedWorld 5).SameFor 1 .firecrawl (withForeignKey (servedWorld 5)) := by
  refine ⟨rfl, fun id key howner => ?_, rfl, rfl, fun _ _ => rfl⟩
  rw [withForeignKey, World.key?_withKeys, Table.get?_insert]
  by_cases hid : id = (servedWorld 5).db.keys.nextId
  · have hnone : (servedWorld 5).key? (servedWorld 5).db.keys.nextId = none := by decide
    rw [if_pos hid, hid, hnone]
    refine iff_of_false nofun fun hforeign => ?_
    rw [← Option.some.inj hforeign] at howner
    exact absurd howner (by decide)
  · rw [if_neg hid]
    rfl

/-- A pin that names the key of another client, where that key exists and where it does not. -/
theorem forward_same_for_client_pinned :
    let req : ForwardRequest :=
      { clientId := 1, method := "GET", upstreamPath := "/v2/crawl/1", pinnedApiKeyId := some 2 }
    let live : Nat → LiveTurn := fun _ =>
      { pool := (Turn.unhindered 0 0 .timeout).pool, monotonic := 0,
        outcome := .response { statusCode := 200 }, settledAt := 0 }
    (forwardLive defaultForwarder req live (servedWorld 5) {}).1.result =
      (forwardLive defaultForwarder req live (withForeignKey (servedWorld 5)) {}).1.result := by
  intro req live
  have hstores : Stores.SameFor (Owned req.clientId (servedWorld 5)) {} {} :=
    ⟨fun _ _ => rfl, fun _ _ => rfl⟩
  have hlive : ∀ i, (live i).SameFor (Owned req.clientId (servedWorld 5)) (live i) :=
    fun _ => ⟨rfl, rfl, fun _ _ => rfl, rfl, rfl, rfl⟩
  exact (forward_same_for_client defaultForwarder req sameFor_withForeignKey hstores hlive).1.1

end Fcam

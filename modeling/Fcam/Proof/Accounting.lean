import Fcam.Model.DataPlane
import Fcam.Model.LoadedRow
import Fcam.Proof.CallReached

/-!
# What a forward counts

`Grown` relates the counters of two states: what every client and key has gained, with the lazy
resets of the log between them. Selections, disabled keys and outcomes each have their growth,
`Grown.trans` adds them up, and `forward_ended` says for every forward how it ended, with the
counters it left. The counters are right in success mode unless a 2xx answer that cannot be passed
on was already counted, and in attempt mode only if nothing was called.
-/

namespace Fcam

/-! ### Growth of the counters -/

/-- A selection that was committed has brought the counter of a key to another day. -/
def ResetIn (events : List Event) (id : Nat) (before : ApiKey) : Prop :=
  ∃ today keys, .examined today keys ∈ events ∧ (∃ e ∈ keys, e.verdict = .eligible) ∧
    before.quotaResetAt ≠ some today ∧ ∃ e ∈ keys, e.id = id ∧ e.verdict ≠ .disabled

/-- The daily usage of a key has grown by `n`, from zero where it was reset. -/
structure UsageGrown (events : List Event) (id n : Nat) (before after : ApiKey) : Prop where
  kept : ¬ResetIn events id before → after.dailyUsage = before.dailyUsage + n
  reset : ResetIn events id before → after.dailyUsage = n

/-- The daily usage of every key has grown by what is given for it, and that of the client, if it
has a quota, by the total. -/
structure UsageCounted (events : List Event) (clientId total : Nat) (keyGain : Nat → Nat)
    (w w' : World) : Prop where
  clients : ∀ id, Option.Rel (fun before after : Client => after.dailyUsage =
    before.dailyUsage + if id = clientId ∧ before.dailyQuota.isSome = true then total
      else 0) (w.client? id) (w'.client? id)
  keys : ∀ id, Option.Rel (UsageGrown events id (keyGain id)) (w.key? id) (w'.key? id)

/-- The total requests of every key have grown by what is given for it. -/
def TotalsCounted (keyGain : Nat → Nat) (w w' : World) : Prop :=
  ∀ id, Option.Rel (fun before after : ApiKey =>
    after.totalRequests = before.totalRequests + keyGain id) (w.key? id) (w'.key? id)

/-- The counters of a key have grown by `n`, and its day has changed only where it was reset. -/
structure CounterGrown (events : List Event) (id n : Nat) (before after : ApiKey) : Prop where
  totalRequests : after.totalRequests = before.totalRequests + n
  kept : ¬ResetIn events id before →
    after.dailyUsage = before.dailyUsage + n ∧ after.quotaResetAt = before.quotaResetAt
  reset : ResetIn events id before → after.dailyUsage = n

/-- Every counter has grown by what is given for it. -/
structure Grown (events : List Event) (clientId total : Nat) (keyGain : Nat → Nat)
    (w w' : World) : Prop where
  clients : ∀ id,
    Option.Rel
      (fun before after : Client =>
        after.dailyQuota = before.dailyQuota ∧
        after.dailyUsage =
          before.dailyUsage + if id = clientId ∧ before.dailyQuota.isSome = true then total else 0)
      (w.client? id) (w'.client? id)
  keys : ∀ id, Option.Rel (CounterGrown events id (keyGain id)) (w.key? id) (w'.key? id)

/-- No counter has grown. -/
def Uncounted (events : List Event) (clientId : Nat) (w w' : World) : Prop :=
  Grown events clientId 0 (fun _ => 0) w w'

theorem resetIn_append {events more : List Event} {id : Nat} {before : ApiKey} :
    ResetIn (events ++ more) id before ↔ ResetIn events id before ∨ ResetIn more id before := by
  constructor
  · rintro ⟨today, keys, hmem, hrest⟩
    rcases List.mem_append.mp hmem with hold | hnew
    · exact .inl ⟨today, keys, hold, hrest⟩
    · exact .inr ⟨today, keys, hnew, hrest⟩
  · rintro (⟨today, keys, hmem, hrest⟩ | ⟨today, keys, hmem, hrest⟩)
    · exact ⟨today, keys, List.mem_append_left _ hmem, hrest⟩
    · exact ⟨today, keys, List.mem_append_right _ hmem, hrest⟩

theorem not_resetIn_of_silent {events : List Event} (hsilent : events.countP Event.isSelection = 0)
    (id : Nat) (before : ApiKey) : ¬ResetIn events id before := by
  rintro ⟨today, keys, hmem, _⟩
  exact List.countP_eq_zero.mp hsilent _ hmem rfl

theorem ResetIn.congr {events : List Event} {id : Nat} {before row : ApiKey}
    (hday : row.quotaResetAt = before.quotaResetAt) (h : ResetIn events id row) :
    ResetIn events id before := by
  obtain ⟨today, keys, hmem, heligible, hother, hexamined⟩ := h
  exact ⟨today, keys, hmem, heligible, hday ▸ hother, hexamined⟩

theorem CounterGrown.usage {events : List Event} {id n : Nat} {before after : ApiKey}
    (h : CounterGrown events id n before after) : UsageGrown events id n before after :=
  ⟨fun hkept => (h.kept hkept).1, h.reset⟩

theorem CounterGrown.trans {events more : List Event} {id n : Nat} {before row after : ApiKey}
    (h : CounterGrown events id 0 before row) (h' : CounterGrown more id n row after) :
    CounterGrown (events ++ more) id n before after where
  totalRequests := by rw [h'.totalRequests, h.totalRequests, Nat.add_zero]
  kept hnot := by
    rw [resetIn_append, not_or] at hnot
    obtain ⟨husage, hday⟩ := h.kept hnot.1
    obtain ⟨husage', hday'⟩ := h'.kept fun hreset => hnot.2 (hreset.congr hday)
    exact ⟨by rw [husage', husage, Nat.add_zero], hday'.trans hday⟩
  reset hreset := by
    rw [resetIn_append] at hreset
    by_cases hnew : ResetIn more id row
    · exact h'.reset hnew
    · by_cases hold : ResetIn events id before
      · rw [(h'.kept hnew).1, h.reset hold, Nat.zero_add]
      · exact absurd ((hreset.resolve_left hold).congr (h.kept hold).2.symm) hnew

namespace Grown

variable {events : List Event} {clientId total : Nat} {keyGain : Nat → Nat} {w w' : World}

theorem usageCounted (h : Grown events clientId total keyGain w w') :
    UsageCounted events clientId total keyGain w w' where
  clients id := (h.clients id).imp fun _ _ hgrown => hgrown.2
  keys id := (h.keys id).imp fun _ _ hgrown => hgrown.usage

theorem totalsCounted (h : Grown events clientId total keyGain w w') : TotalsCounted keyGain w w' :=
  fun id => (h.keys id).imp fun _ _ hgrown => hgrown.totalRequests

end Grown

theorem Uncounted.trans {events more : List Event} {clientId total : Nat} {keyGain : Nat → Nat}
    {w w' w'' : World} (h : Uncounted events clientId w w')
    (h' : Grown more clientId total keyGain w' w'') :
    Grown (events ++ more) clientId total keyGain w w'' where
  clients id := by
    refine (h.clients id).comp (h'.clients id) ?_
    intro before row after ⟨hquota, husage⟩ ⟨hquota', husage'⟩
    rw [ite_self, Nat.add_zero] at husage
    rw [hquota, husage] at husage'
    exact ⟨hquota'.trans hquota, husage'⟩
  keys id := (h.keys id).comp (h'.keys id) fun _ _ _ hgrown hgrown' => hgrown.trans hgrown'

theorem uncounted_silent {events : List Event} (hsilent : events.countP Event.isSelection = 0)
    (clientId : Nat) (w : World) : Uncounted events clientId w w where
  clients id := .of_eq _ fun client => ⟨rfl, by rw [ite_self, Nat.add_zero]⟩
  keys id := .of_eq _ fun key =>
    ⟨rfl, fun _ => ⟨rfl, rfl⟩, fun hreset => absurd hreset (not_resetIn_of_silent hsilent id key)⟩

theorem uncounted_modifyKey (clientId : Nat) (w : World) (id : Nat) {f : ApiKey → ApiKey}
    (hsame : ∀ key, (f key).totalRequests = key.totalRequests ∧
      (f key).dailyUsage = key.dailyUsage ∧ (f key).quotaResetAt = key.quotaResetAt) :
    Uncounted [] clientId w (w.modifyKey id f) where
  clients id := .of_eq _ fun client => ⟨rfl, by rw [ite_self, Nat.add_zero]⟩
  keys other := by
    rw [World.key?_modifyKey]
    have hnone := not_resetIn_of_silent (List.countP_nil) other
    by_cases heq : other = id
    · rw [if_pos heq]
      exact .map _ f fun key =>
        ⟨(hsame key).1, fun _ => (hsame key).2, fun hreset => absurd hreset (hnone key)⟩
    · rw [if_neg heq]
      exact .of_eq _ fun key => ⟨rfl, fun _ => ⟨rfl, rfl⟩, fun hreset => absurd hreset (hnone key)⟩

/-! ### Selections -/

theorem resetIn_examined {today : Day} {examined : List Examined} {id : Nat} {key : ApiKey} :
    ResetIn [.examined today examined] id key ↔
      (∃ e ∈ examined, e.verdict = .eligible) ∧ key.quotaResetAt ≠ some today ∧
      ∃ e ∈ examined, e.id = id ∧ e.verdict ≠ .disabled := by
  constructor
  · rintro ⟨today', keys, hmem, hrest⟩
    cases List.mem_singleton.mp hmem
    exact hrest
  · exact fun hrest => ⟨today, examined, List.mem_singleton_self _, hrest⟩

/-- What a committed selection does to the counters of a key it examined. -/
theorem counterGrown_of_examined {env : PoolEnv} {examined : List Examined} {key : ApiKey}
    {e : Examined} (hchosen : ∃ e ∈ examined, e.verdict = .eligible) (hmem : e ∈ examined)
    (hexamines :
      ∀ other ∈ examined, other.id = e.id → Examines env e.id key other.verdict other.row) :
    CounterGrown [.examined env.reading.today examined] e.id 0 key e.row := by
  have htotal : e.row.totalRequests = key.totalRequests := by
    rw [(hexamines e hmem rfl).frame]
    rfl
  rcases (hexamines e hmem rfl).counter with ⟨hdisabled, _, hsame⟩ | ⟨_, henabled, hday, husage⟩
  · rw [hsame]
    refine ⟨rfl, fun _ => ⟨rfl, rfl⟩, fun hreset => ?_⟩
    obtain ⟨_, _, other, hother, hid, hverdict⟩ := resetIn_examined.mp hreset
    rcases (hexamines other hother hid).counter with ⟨_, hdisabled', _⟩ | ⟨henabled', _⟩
    · exact absurd hdisabled' hverdict
    · rw [hdisabled] at henabled'
      cases henabled'
  · by_cases htoday : key.quotaResetAt = some env.reading.today
    · rw [if_pos htoday] at husage
      refine ⟨htotal, fun _ => ⟨husage, hday.trans htoday.symm⟩, fun hreset => ?_⟩
      exact absurd htoday (resetIn_examined.mp hreset).2.1
    · rw [if_neg htoday] at husage
      refine ⟨htotal, fun hkept => absurd ?_ hkept, fun _ => husage⟩
      exact resetIn_examined.mpr ⟨hchosen, htoday, e, hmem, rfl, henabled⟩

theorem select_uncounted (env : PoolEnv) (w : World) (clientId : Nat) (scope : Option Nat)
    (provider : Provider) :
    Uncounted [.examined env.reading.today (select env w scope provider).examined] clientId w
      (select env w scope provider).world where
  clients id := by
    have hclient : (select env w scope provider).world.client? id = w.client? id := by
      rcases select_world env w scope provider with hsame | ⟨_, hrows⟩
      · rw [hsame]
      · rw [hrows]
        rfl
    rw [hclient]
    exact .of_eq _ fun client => ⟨rfl, by rw [ite_self, Nat.add_zero]⟩
  keys id := by
    cases hresult : (select env w scope provider).result with
    | error error =>
      obtain ⟨hsame, hnone⟩ := select_refused hresult
      rw [hsame]
      refine .of_eq _ fun key => ⟨rfl, fun _ => ⟨rfl, rfl⟩, fun hreset => ?_⟩
      obtain ⟨⟨e, hmem, heligible⟩, _⟩ := resetIn_examined.mp hreset
      exact absurd heligible (hnone e hmem)
    | ok selected =>
    cases hkey : w.key? id with
    | none =>
      have hnone : (select env w scope provider).world.key? id = none := by
        rw [Option.eq_none_iff_forall_ne_some]
        intro row hrow
        obtain ⟨key, hsome, _⟩ := select_key? hrow
        rw [hkey] at hsome
        cases hsome
      rw [hnone]
      exact .none
    | some key =>
      obtain ⟨row, hrow, hcommitted⟩ := select_committed hresult hkey
      rw [hrow]
      apply Option.Rel.some
      rcases hcommitted with ⟨rfl, hnot⟩ | ⟨e, hmem, rfl, rfl⟩
      · refine ⟨rfl, fun _ => ⟨rfl, rfl⟩, fun hreset => ?_⟩
        obtain ⟨_, _, e, hmem, hid, _⟩ := resetIn_examined.mp hreset
        exact absurd hid (hnot e hmem)
      · refine counterGrown_of_examined ⟨_, (select_selected hresult).1, rfl⟩ hmem ?_
        intro other hother hid
        obtain ⟨key', hkey', _, hcases⟩ := select_examined hother
        rw [hid, hkey, Option.some.injEq] at hkey'
        rw [hkey', ← hid]
        exact hcases

/-! ### Outcomes -/

/-- What an outcome counts, for the key it was obtained with and for the client. -/
theorem settle_grown (config : AppConfig) (method upstreamPath : String) (outcome : Outcome)
    (now : Instant) (clientId id : Nat) (w : World) :
    Grown [] clientId (gain config outcome) (fun other => if other = id then gain config outcome
      else 0) w
      (settle config method upstreamPath outcome now clientId id w) where
  clients other := by
    rw [settle_client?]
    by_cases hcounted : other = clientId ∧ gain config outcome = 1
    · obtain ⟨heq, hone⟩ := hcounted
      rw [if_pos ⟨heq, hone⟩]
      refine .map _ _ fun client => ⟨rfl, ?_⟩
      show (if client.dailyQuota.isSome then client.dailyUsage + 1 else client.dailyUsage) = _
      by_cases hquota : client.dailyQuota.isSome = true
      · rw [if_pos hquota, if_pos ⟨heq, hquota⟩, hone]
      · rw [if_neg hquota, if_neg fun hboth => hquota hboth.2, Nat.add_zero]
    · rw [if_neg hcounted]
      refine .of_eq _ fun client => ⟨rfl, ?_⟩
      have hzero : (if other = clientId ∧ client.dailyQuota.isSome = true then gain config outcome
          else 0) = 0 := by
        split
        · next hclient =>
          have hbound : gain config outcome ≤ 1 := by
            rw [gain]
            split <;> omega
          have hnot : gain config outcome ≠ 1 := fun hone => hcounted ⟨hclient.1, hone⟩
          omega
        · rfl
      rw [hzero, Nat.add_zero]
  keys other := by
    rw [settle_row config method upstreamPath outcome now clientId id w other]
    have hnone := not_resetIn_of_silent (List.countP_nil) other
    by_cases heq : other = id
    · rw [if_pos heq, if_pos heq]
      refine .map _ _ fun key => ?_
      have hcounters :=
        settleRow_counters config method upstreamPath outcome now (reachesThreshold config now id w)
          key
      refine ⟨hcounters.2, fun _ => ⟨hcounters.1, ?_⟩, fun hreset => absurd hreset (hnone key)⟩
      exact settleRow_quotaResetAt config method upstreamPath outcome now _ key
    · rw [if_neg heq, if_neg heq]
      exact .of_eq _ fun key => ⟨rfl, fun _ => ⟨rfl, rfl⟩, fun hreset => absurd hreset (hnone key)⟩

/-! ### How a forward ends -/

/-- The calls of a log were sent with keys of the state. -/
def Known (w : World) (events : List Event) : Prop :=
  ∀ e ∈ exchangesOf events, e.outcome.sent = true ∧ (w.key? e.keyId).isSome = true

/-- Between two passes nothing has been counted and every call was one that is tried again. -/
structure Going (clientId : Nat) (w : World) (p : Progress) : Prop where
  uncounted : Uncounted p.events clientId w p.world
  known : Known w p.events
  retried : ∀ e ∈ exchangesOf p.events, e.outcome.retried = true

/-- A forward raises with nothing counted, or it ends with an answer that is counted and then passed
on, if it can be. Every other answer is one that is passed over. -/
inductive Ended (config : AppConfig) (passed : Outcome → Prop) (clientId : Nat) (w : World)
    (forwarded : Forwarded) :
    Prop where
  | raised (error : Raised) (hresult : forwarded.result = .error error)
      (huncounted : Uncounted forwarded.events clientId w forwarded.world)
      (hknown : Known w forwarded.events)
      (hpassed : ∀ e ∈ exchangesOf forwarded.events, ∀ r, e.outcome = .response r →
       passed e.outcome)
  | answered (before : List Exchange) (e : Exchange) (r : UpstreamResponse)
      (upstreamStatusCode apiKeyId : Option Nat) (retryCount : Nat)
      (hexchanges : exchangesOf forwarded.events = before ++ [e])
      (houtcome : e.outcome = .response r) (hresult : forwarded.result =
        (toFastapiResponse r).map fun response =>
          { response, upstreamStatusCode, apiKeyId, retryCount })
      (hgrown : Grown forwarded.events clientId (gain config e.outcome)
        (fun id => if id = e.keyId then gain config e.outcome else 0) w forwarded.world)
      (hknown : Known w forwarded.events) (hpassed : ∀ e ∈ before, passed e.outcome)

theorem Known.append {w : World} {events more : List Event} (h : Known w events)
    (hmore : Known w more) :
    Known w (events ++ more) := by
  intro e hmem
  rw [exchangesOf_append, List.mem_append] at hmem
  exact hmem.elim (h e) (hmore e)

theorem Known.of_uncounted {w w' : World} {events more : List Event} {clientId : Nat}
    (h : Known w' more) (hsame : Uncounted events clientId w w') : Known w more := by
  intro e hmem
  obtain ⟨hsent, hkey⟩ := h e hmem
  exact ⟨hsent, (hsame.keys e.keyId).isSome_eq.trans hkey⟩

theorem Grown.of_gain_eq_zero {events : List Event} {clientId n id : Nat} {w w' : World}
    (h : Grown events clientId n (fun other => if other = id then n else 0) w w') (hzero : n = 0) :
    Uncounted events clientId w w' := by
  subst hzero
  simpa only [Uncounted, ite_self] using h

theorem gain_of_lost (config : AppConfig) {outcome : Outcome} (hlost : outcome.won = false) :
    gain config outcome = 0 := by
  rw [gain, if_neg]
  rintro ⟨_, hwon⟩
  rw [hlost] at hwon
  cases hwon

namespace Going

variable {clientId : Nat} {w : World} {p : Progress}

theorem log (h : Going clientId w p) {more : List Event} (hexchanges : exchangesOf more = [])
    (hselections : more.countP Event.isSelection = 0) : Going clientId w (p.log more) where
  uncounted := h.uncounted.trans (uncounted_silent hselections clientId p.world)
  known := h.known.append fun e hmem => by rw [hexchanges] at hmem; cases hmem
  retried e hmem := by
    apply h.retried
    simpa only [Progress.log, exchangesOf_append, hexchanges, List.append_nil] using hmem

theorem raise (h : Going clientId w p) (config : AppConfig) (error : FcamError) :
    Ended config (·.retried = true) clientId w (p.raise error) :=
  .raised (.fcam error) rfl h.uncounted h.known fun e hmem _ _ => h.retried e hmem

theorem fail (h : Going clientId w p) (config : AppConfig) (text : String) :
    Ended config (·.retried = true) clientId w (p.fail text) :=
  .raised (.other text) rfl h.uncounted h.known fun e hmem _ _ => h.retried e hmem

theorem undecrypted (h : Going clientId w p) (id : Nat) : Going clientId w (p.undecrypted id) := by
  have hlogged : Going clientId w (p.log [.tokenTaken id, .leased id, .released id]) :=
    h.log rfl rfl
  have hdisabled : Uncounted [] clientId p.world (p.world.modifyKey id disableKeyDecryptFailed) :=
    uncounted_modifyKey clientId p.world id fun _ => ⟨rfl, rfl, rfl⟩
  refine ⟨?_, hlogged.known, hlogged.retried⟩
  have hboth := hlogged.uncounted.trans hdisabled
  rw [List.append_nil] at hboth
  exact hboth

theorem selected (req : ForwardRequest) (turn : Turn) (h : Going req.clientId w p) :
    Going req.clientId w (p.selected req turn) where
  uncounted :=
    h.uncounted.trans
      (select_uncounted turn.pool p.world req.clientId (some req.clientId) req.provider)
  known := h.known.append fun e hmem => by cases hmem
  retried e hmem := by
    apply h.retried
    simpa [Progress.selected, Progress.log, exchangesOf] using hmem

section Called

variable (fwd : Forwarder) (baseUrl : String) (req : ForwardRequest) (turn : Turn) (id : Nat)
  (plaintextKey : String)

theorem called_grown (h : Going req.clientId w p) :
    Grown (p.called fwd baseUrl req turn id plaintextKey).events req.clientId
      (gain fwd.config turn.outcome)
      (fun other => if other = id then gain fwd.config turn.outcome else 0) w
      (p.called fwd baseUrl req turn id plaintextKey).world := by
  have hsilent :
      ([Event.tokenTaken id, Event.leased id] ++
       (exchanges fwd baseUrl req turn.outcome id plaintextKey p.world
        (p.called fwd baseUrl req turn id plaintextKey).world ++ [Event.released id])).countP
          Event.isSelection = 0 := by
    cases turn.outcome <;> rfl
  have hsettled :=
    settle_grown fwd.config req.method req.upstreamPath turn.outcome turn.settledAt req.clientId id
      p.world
  have hcalled := h.uncounted.trans ((uncounted_silent hsilent req.clientId p.world).trans hsettled)
  rw [List.append_nil, ← List.append_assoc] at hcalled
  exact hcalled

theorem called_known (h : Going req.clientId w p) (hkey : (p.world.key? id).isSome = true) :
    Known w (p.called fwd baseUrl req turn id plaintextKey).events := by
  have hknown : (w.key? id).isSome = true := (h.uncounted.keys id).isSome_eq.trans hkey
  intro e hmem
  rcases called_exchanges fwd baseUrl req turn id p plaintextKey with
    ⟨hsame, _⟩ | ⟨last, hmore, rfl, houtcome, hsent⟩
  · rw [hsame] at hmem
    exact h.known e hmem
  · rw [hmore, List.mem_append, List.mem_singleton] at hmem
    rcases hmem with hold | rfl
    · exact h.known e hold
    · exact ⟨houtcome ▸ hsent, hknown⟩

theorem called_outcome (h : Going req.clientId w p) :
    ∀ e ∈ exchangesOf (p.called fwd baseUrl req turn id plaintextKey).events,
      e.outcome.retried = true ∨ e.outcome = turn.outcome := by
  intro e hmem
  rcases called_exchanges fwd baseUrl req turn id p plaintextKey with
    ⟨hsame, _⟩ | ⟨last, hmore, _, houtcome, _⟩
  · rw [hsame] at hmem
    exact .inl (h.retried e hmem)
  · rw [hmore, List.mem_append, List.mem_singleton] at hmem
    rcases hmem with hold | rfl
    · exact .inl (h.retried e hold)
    · exact .inr houtcome

end Called

end Going

section Passes

variable {fwd : Forwarder} {masterKey : Bytes} {baseUrl : String} {req : ForwardRequest}
  {turns : Nat → Turn} {w : World}

theorem Tried.ended {turn : Turn} {id : Nat} {key : ApiKey} {p : Progress}
    {pass : Pass Progress Forwarded} (htried : Tried fwd masterKey baseUrl req turn id key p pass)
    (hgoing : Going req.clientId w p) (hkey : (p.world.key? id).isSome = true) :
    pass.Satisfies (Going req.clientId w) (Ended fwd.config (·.retried = true) req.clientId w) := by
  have hlost :
      ∀ plaintextKey, turn.outcome.won = false →
        Uncounted (p.called fwd baseUrl req turn id plaintextKey).events req.clientId w
          (p.called fwd baseUrl req turn id plaintextKey).world := fun plaintextKey hlost =>
    (hgoing.called_grown fwd baseUrl req turn id plaintextKey).of_gain_eq_zero
      (gain_of_lost fwd.config hlost)
  have hunanswered : ∀ plaintextKey (f : Forwarded), (∃ error, f.result = .error error) →
      f.events = (p.called fwd baseUrl req turn id plaintextKey).events →
      f.world = (p.called fwd baseUrl req turn id plaintextKey).world →
        (∀ r, turn.outcome ≠ .response r) →
      Ended fwd.config (·.retried = true) req.clientId w f := by
    intro plaintextKey f ⟨error, hresult⟩ hevents hworld hnone
    have hnotWon : turn.outcome.won = false := by
      cases hcase : turn.outcome with
      | response r => exact absurd hcase (hnone r)
      | _ => rfl
    refine .raised error hresult ?_ ?_ ?_
    · rw [hevents, hworld]
      exact hlost plaintextKey hnotWon
    · rw [hevents]
      exact hgoing.called_known fwd baseUrl req turn id plaintextKey hkey
    · rw [hevents]
      intro e hmem r hresponse
      rcases hgoing.called_outcome fwd baseUrl req turn id plaintextKey e hmem with hretried | hlast
      · exact hretried
      · exact absurd (hlast.symm.trans hresponse) (hnone r)
  cases htried with
  | refused more error hmore hnot =>
    exact (hgoing.log hmore.exchangesOf hmore.countP).raise fwd.config error
  | passedOver more retryCount hpassed hnot =>
    have hmore : Unleased id more := hpassed.unleased
    have hlogged := hgoing.log hmore.exchangesOf hmore.countP
    exact ⟨hlogged.uncounted, hlogged.known, hlogged.retried⟩
  | undecryptable error hsecret => exact (hgoing.undecrypted id).raise fwd.config error
  | disabled retryCount hsecret =>
    have hundecrypted := hgoing.undecrypted id
    exact ⟨hundecrypted.uncounted, hundecrypted.known, hundecrypted.retried⟩
  | failed plaintextKey text hadmits hsecret houtcome =>
    refine hunanswered plaintextKey _ ⟨_, rfl⟩ rfl rfl fun r hresponse => ?_
    rcases houtcome with hexception | hunsent
    · rw [hexception] at hresponse
      cases hresponse
    · rw [hunsent] at hresponse
      cases hresponse
  | gaveUp plaintextKey retryCount error hadmits hsecret houtcome =>
    refine hunanswered plaintextKey _ ⟨_, rfl⟩ rfl rfl fun r hresponse => ?_
    rcases houtcome with htimeout | ⟨text, hfailed⟩
    · rw [htimeout] at hresponse
      cases hresponse
    · rw [hfailed] at hresponse
      cases hresponse
  | again plaintextKey retryCount hadmits hsecret houtcome =>
    refine ⟨hlost plaintextKey (Outcome.not_won_of_retried houtcome), ?_, ?_⟩
    · exact hgoing.called_known fwd baseUrl req turn id plaintextKey hkey
    · intro e hmem
      rcases hgoing.called_outcome fwd baseUrl req turn id plaintextKey e hmem with hretried | hlast
      · exact hretried
      · rw [hlast, houtcome]
  | answered plaintextKey retryCount r hadmits hsecret houtcome =>
    have hgrown := hgoing.called_grown fwd baseUrl req turn id plaintextKey
    rcases called_exchanges fwd baseUrl req turn id p plaintextKey with ⟨_, text, hunsent⟩ |
      ⟨e, hmore, rfl, hsame, _⟩
    · rw [houtcome] at hunsent
      cases hunsent
    · rw [← hsame] at hgrown
      exact .answered (exchangesOf p.events) e r _ _ _ hmore (hsame.trans houtcome) rfl hgrown
        (hgoing.called_known fwd baseUrl req turn e.keyId plaintextKey hkey) hgoing.retried

theorem pinnedPass_ended (id i : Nat) {p : Progress} (hgoing : Going req.clientId w p) :
    (pinnedPass fwd masterKey baseUrl req turns id i p).Satisfies (Going req.clientId w)
      (Ended fwd.config (·.retried = true) req.clientId w) := by
  have hcases := pinnedPass_cases fwd masterKey baseUrl req turns id i p
  generalize pinnedPass fwd masterKey baseUrl req turns id i p = pass at hcases ⊢
  cases hcases with
  | deleted text hkey => exact hgoing.fail fwd.config text
  | tried key hkey htried => exact htried.ended hgoing (by rw [hkey]; rfl)

theorem pooledPass_ended (i : Nat) {p : Progress} (hgoing : Going req.clientId w p) :
    (pooledPass fwd masterKey baseUrl req turns i p).Satisfies (Going req.clientId w)
      (Ended fwd.config (·.retried = true) req.clientId w) := by
  have hselected := hgoing.selected req (turns i)
  have hcases := pooledPass_cases fwd masterKey baseUrl req turns i p
  generalize pooledPass fwd masterKey baseUrl req turns i p = pass at hcases ⊢
  cases hcases with
  | refused error raised hresult => exact hselected.raise fwd.config raised
  | tried id key hresult htried =>
    refine htried.ended ⟨hselected.uncounted, hselected.known, hselected.retried⟩ ?_
    have hkey : (p.selected req (turns i)).world.key? id = some key := (select_ok hresult).1
    exact Option.isSome_of_eq_some hkey

end Passes

theorem forward_ended (fwd : Forwarder) (turns : Nat → Turn) (req : ForwardRequest) (w : World) :
    Ended fwd.config (·.retried = true) req.clientId w (forward fwd turns req w) := by
  have hstart : ∀ lastApiKeyId, Going req.clientId w { world := w, lastApiKeyId } := fun _ =>
    ⟨uncounted_silent List.countP_nil req.clientId w, fun _ hmem => (nomatch hmem),
     fun _ hmem => (nomatch hmem)⟩
  apply forward_passes
  · exact fun error => (hstart none).raise fwd.config error
  · intro masterKey baseUrl _ _ id key _ _
    exact forwardPinned_passes fwd masterKey baseUrl req turns id
      (fun i _ _ hgoing => pinnedPass_ended id i hgoing) _ (hstart (some id))
  · intro masterKey baseUrl _ _ _
    refine forwardPooled_passes fwd masterKey baseUrl req turns
      (fun i _ _ hgoing _ => pooledPass_ended i hgoing) (fun _ _ p hgoing => ?_) _ (hstart none)
    exact Going.raise hgoing fwd.config _

/-! ### Success mode -/

/-- The header texts that are kept can be sent. -/
def UpstreamResponse.encodable (r : UpstreamResponse) : Bool :=
  (r.headers.filter fun h => !dropResponseHeaders.contains h.1).all fun h =>
    latin1 h.1 && latin1 h.2

/-- A 2xx answer that cannot be passed on. -/
def Outcome.unencodable : Outcome → Bool
  | response r => is2xx r.statusCode && !r.encodable
  | _ => false

/-- An answer that says the path is not served, and can be passed on. -/
def Outcome.unserved : Outcome → Bool
  | response r => (r.statusCode == 404 || r.statusCode == 405) && r.encodable
  | _ => false

/-- The key whose call produced the 2xx answer a forward returns. -/
def Forwarded.wonWith (forwarded : Forwarded) : Option Nat :=
  match forwarded.result with
  | .ok result =>
    if is2xx result.response.statusCode then
      (exchangesOf forwarded.events).getLast?.map Exchange.keyId
    else none
  | .error _ => none

/-- A 2xx answer that is returned is counted once, for its key and for the client, and nothing else
is. -/
structure SuccessCounted (clientId : Nat) (w : World) (forwarded : Forwarded) : Prop where
  usage : UsageCounted forwarded.events clientId (if forwarded.wonWith.isSome then 1 else 0)
    (fun id => if forwarded.wonWith = some id then 1 else 0) w forwarded.world
  totals : TotalsCounted (fun id => if forwarded.wonWith = some id then 1 else 0) w forwarded.world

theorem toFastapiResponse_of_encodable {r : UpstreamResponse} (h : r.encodable = true) :
    ∃ response, toFastapiResponse r = .ok response ∧ response.statusCode = r.statusCode := by
  rw [UpstreamResponse.encodable] at h
  rw [toFastapiResponse, mkResponse, if_pos h]
  exact ⟨_, rfl, rfl⟩

theorem toFastapiResponse_of_not_encodable {r : UpstreamResponse} (h : ¬r.encodable = true) :
    toFastapiResponse r = .error .unicodeEncodeError := by
  rw [UpstreamResponse.encodable] at h
  rw [toFastapiResponse, mkResponse, if_neg h]

theorem Outcome.not_unencodable_of_lost {outcome : Outcome} (h : outcome.won = false) :
    ¬outcome.unencodable = true := by
  cases outcome with
  | response r =>
    rw [won] at h
    simp [unencodable, h]
  | _ => simp [unencodable]

theorem successCounted_of_uncounted {clientId : Nat} {w : World} {forwarded : Forwarded}
    (huncounted : Uncounted forwarded.events clientId w forwarded.world)
    (hlost : forwarded.wonWith = none) :
    SuccessCounted clientId w forwarded := by
  constructor
  · simpa [hlost] using huncounted.usageCounted
  · simpa [hlost] using huncounted.totalsCounted

theorem wonWith_answered {forwarded : Forwarded} {before : List Exchange} {e : Exchange}
    {r : UpstreamResponse} {upstreamStatusCode apiKeyId : Option Nat} {retryCount : Nat}
    (hexchanges : exchangesOf forwarded.events = before ++ [e]) (hresult : forwarded.result =
      (toFastapiResponse r).map fun response =>
      { response, upstreamStatusCode, apiKeyId, retryCount }) :
    forwarded.wonWith = if is2xx r.statusCode = true ∧ r.encodable = true then some e.keyId
    else none := by
  by_cases hencodable : r.encodable = true
  · obtain ⟨response, hresponse, hstatus⟩ := toFastapiResponse_of_encodable hencodable
    simp [Forwarded.wonWith, hresult, hresponse, Except.map, hexchanges, hencodable, hstatus]
  · rw [toFastapiResponse_of_not_encodable hencodable] at hresult
    rw [Forwarded.wonWith, hresult, if_neg fun hboth => hencodable hboth.2]
    rfl

/-- What was counted is counted for no other key, and for its own key not at all if the forward
raised. -/
theorem not_successCounted_of_grown {clientId id : Nat} {w : World} {forwarded : Forwarded}
    (hgrown : Grown forwarded.events clientId 1 (fun other => if other = id then 1
      else 0) w forwarded.world)
    (hknown : (w.key? id).isSome = true) (hlost : forwarded.wonWith = none) :
    ¬SuccessCounted clientId w forwarded := by
  intro hcounted
  obtain ⟨key, hkey⟩ := Option.isSome_iff_exists.mp hknown
  obtain ⟨row, hrow, hactual⟩ := (hgrown.totalsCounted id).exists_of_eq_some hkey
  obtain ⟨row', hrow', hclaimed⟩ := (hcounted.totals id).exists_of_eq_some hkey
  rw [hrow, Option.some.injEq] at hrow'
  subst hrow'
  simp only [hlost, reduceCtorEq, ↓reduceIte] at hactual hclaimed
  omega

theorem Ended.successCounted_iff {config : AppConfig} {passed : Outcome → Prop} {clientId : Nat}
    {w : World} {forwarded : Forwarded} (h : Ended config passed clientId w forwarded)
    (hmode : config.quota.countMode = .success)
    (hlost : ∀ outcome, passed outcome → outcome.won = false) :
    SuccessCounted clientId w forwarded ↔
      ¬Exchanged (fun outcome => outcome.unencodable = true) forwarded.events := by
  cases h with
  | raised error hresult huncounted hknown hpassed =>
    refine iff_of_true (successCounted_of_uncounted huncounted (by rw [Forwarded.wonWith, hresult]))
      ?_
    rintro ⟨e, hmem, hunencodable⟩
    cases houtcome : e.outcome with
    | response r =>
      exact Outcome.not_unencodable_of_lost (hlost _ (hpassed e hmem r houtcome)) hunencodable
    | _ =>
      rw [houtcome] at hunencodable
      cases hunencodable
  | answered before e r upstreamStatusCode apiKeyId retryCount hexchanges houtcome hresult
      hgrown hknown hpassed =>
    have hlast : Exchanged (fun outcome => outcome.unencodable = true) forwarded.events ↔
        e.outcome.unencodable = true := by
      rw [Exchanged, hexchanges]
      constructor
      · rintro ⟨other, hmem, hunencodable⟩
        rw [List.mem_append, List.mem_singleton] at hmem
        rcases hmem with hbefore | rfl
        · exact absurd hunencodable
            (Outcome.not_unencodable_of_lost (hlost _ (hpassed other hbefore)))
        · exact hunencodable
      · exact fun hunencodable =>
          ⟨e, List.mem_append_right _ (List.mem_singleton_self e), hunencodable⟩
    have hwonWith := wonWith_answered hexchanges hresult
    rw [hlast]
    by_cases hwon : e.outcome.won = true
    · have hgain : gain config e.outcome = 1 := if_pos ⟨hmode, hwon⟩
      rw [hgain] at hgrown
      rw [houtcome, Outcome.won] at hwon
      rw [houtcome]
      by_cases hencodable : r.encodable = true
      · rw [if_pos ⟨hwon, hencodable⟩] at hwonWith
        refine iff_of_true ⟨?_, ?_⟩ (by simp [Outcome.unencodable, hencodable])
        · simpa [hwonWith, eq_comm] using hgrown.usageCounted
        · simpa [hwonWith, eq_comm] using hgrown.totalsCounted
      · rw [if_neg fun hboth => hencodable hboth.2] at hwonWith
        have hsent :=
          hknown e (by rw [hexchanges]; exact List.mem_append_right _ (List.mem_singleton_self e))
        exact iff_of_false (not_successCounted_of_grown hgrown hsent.2 hwonWith)
          (by simp [Outcome.unencodable, hencodable, hwon])
    · rw [Bool.not_eq_true] at hwon
      have huncounted := hgrown.of_gain_eq_zero (gain_of_lost config hwon)
      refine iff_of_true (successCounted_of_uncounted huncounted ?_)
        (Outcome.not_unencodable_of_lost hwon)
      rw [houtcome, Outcome.won] at hwon
      rw [hwonWith, if_neg]
      rintro ⟨htwo, _⟩
      rw [hwon] at htwo
      cases htwo

/-! ### A second path -/

theorem Outcome.lost_of_unserved {outcome : Outcome} (h : outcome.unserved = true) :
    outcome.won = false ∧ outcome.retried = false := by
  cases outcome with
  | response r =>
    simp only [unserved, Bool.and_eq_true, Bool.or_eq_true, beq_iff_eq] at h
    obtain ⟨hstatus | hstatus, _⟩ := h
    · exact ⟨by simp [won, is2xx, hstatus], by simp [retried, retriedStatus, hstatus]⟩
    · exact ⟨by simp [won, is2xx, hstatus], by simp [retried, retriedStatus, hstatus]⟩
  | _ => cases h

/-- A forward that returns 404 or 405 ended with a call that was answered so, and counted
nothing. -/
theorem Ended.unserved_iff {config : AppConfig} {clientId : Nat} {w : World} {forwarded : Forwarded}
    (h : Ended config (·.retried = true) clientId w forwarded) :
    Exchanged (fun outcome => outcome.unserved = true) forwarded.events ↔
      ∃ result, forwarded.result = .ok result ∧
        (result.response.statusCode = 404 ∨ result.response.statusCode = 405) := by
  have hnotRetried : ∀ {outcome : Outcome}, outcome.unserved = true → ¬outcome.retried = true := by
    intro outcome hunserved hretried
    rw [(Outcome.lost_of_unserved hunserved).2] at hretried
    cases hretried
  cases h with
  | raised error hresult huncounted hknown hpassed =>
    refine iff_of_false ?_ ?_
    · rintro ⟨e, hmem, hunserved⟩
      cases houtcome : e.outcome with
      | response r => exact hnotRetried hunserved (hpassed e hmem r houtcome)
      | _ =>
        rw [houtcome] at hunserved
        cases hunserved
    · rintro ⟨result, hok, _⟩
      rw [hresult] at hok
      cases hok
  | answered before e r upstreamStatusCode apiKeyId retryCount hexchanges houtcome hresult
      hgrown hknown hpassed =>
    have hlast : Exchanged (fun outcome => outcome.unserved = true) forwarded.events ↔
        (r.statusCode = 404 ∨ r.statusCode = 405) ∧ r.encodable = true := by
      rw [Exchanged, hexchanges]
      constructor
      · rintro ⟨other, hmem, hunserved⟩
        rw [List.mem_append, List.mem_singleton] at hmem
        rcases hmem with hbefore | rfl
        · exact absurd (hpassed other hbefore) (hnotRetried hunserved)
        · rw [houtcome] at hunserved
          simpa [Outcome.unserved] using hunserved
      · intro hunserved
        refine ⟨e, List.mem_append_right _ (List.mem_singleton_self e), ?_⟩
        rw [houtcome]
        simpa [Outcome.unserved] using hunserved
    rw [hlast]
    by_cases hencodable : r.encodable = true
    · obtain ⟨response, hresponse, hstatus⟩ := toFastapiResponse_of_encodable hencodable
      simp [hresult, hresponse, Except.map, hencodable, hstatus]
    · rw [toFastapiResponse_of_not_encodable hencodable] at hresult
      simp [hresult, Except.map, hencodable]

theorem Ended.uncounted_of_unserved {config : AppConfig} {clientId : Nat} {w : World}
    {forwarded : Forwarded} (h : Ended config (·.retried = true) clientId w forwarded)
    (hunserved : Exchanged (fun outcome => outcome.unserved = true) forwarded.events) :
    Uncounted forwarded.events clientId w forwarded.world ∧ Known w forwarded.events ∧
      ∀ e ∈ exchangesOf forwarded.events, e.outcome.won = false := by
  obtain ⟨last, hmem, hlast⟩ := hunserved
  have hnotRetried := (Outcome.lost_of_unserved hlast).2
  cases h with
  | raised error hresult huncounted hknown hpassed =>
    cases houtcome : last.outcome with
    | response r =>
      rw [hpassed last hmem r houtcome] at hnotRetried
      cases hnotRetried
    | _ =>
      rw [houtcome] at hlast
      cases hlast
  | answered before e r upstreamStatusCode apiKeyId retryCount hexchanges houtcome hresult
      hgrown hknown hpassed =>
    have hsame : e = last := by
      rw [hexchanges, List.mem_append, List.mem_singleton] at hmem
      rcases hmem with hbefore | rfl
      · rw [hpassed last hbefore] at hnotRetried
        cases hnotRetried
      · rfl
    subst hsame
    have hlost := (Outcome.lost_of_unserved hlast).1
    refine ⟨hgrown.of_gain_eq_zero (gain_of_lost config hlost), hknown, fun other hother => ?_⟩
    rw [hexchanges, List.mem_append, List.mem_singleton] at hother
    rcases hother with hbefore | rfl
    · exact Outcome.not_won_of_retried (hpassed other hbefore)
    · exact hlost

/-- A forward that follows calls nothing was counted for. -/
theorem Ended.after {config : AppConfig} {clientId : Nat} {w w' : World} {events : List Event}
    {forwarded : Forwarded} (h : Ended config (·.won = false) clientId w' forwarded)
    (huncounted : Uncounted events clientId w w') (hknown : Known w events)
    (hlost : ∀ e ∈ exchangesOf events, e.outcome.won = false) :
    Ended config (·.won = false) clientId w
      { forwarded with events := events ++ forwarded.events } := by
  cases h with
  | raised error hresult huncounted' hknown' hpassed =>
    refine .raised error hresult (huncounted.trans huncounted')
      (hknown.append (hknown'.of_uncounted huncounted)) ?_
    intro e hmem r houtcome
    rw [exchangesOf_append, List.mem_append] at hmem
    rcases hmem with hbefore | hafter
    · exact hlost e hbefore
    · exact hpassed e hafter r houtcome
  | answered before e r upstreamStatusCode apiKeyId retryCount hexchanges houtcome hresult
      hgrown hknown' hpassed =>
    refine .answered (exchangesOf events ++ before) e r upstreamStatusCode apiKeyId retryCount ?_
      houtcome hresult (huncounted.trans hgrown) (hknown.append (hknown'.of_uncounted huncounted))
        ?_
    · rw [exchangesOf_append, hexchanges, List.append_assoc]
    · intro other hmem
      rcases List.mem_append.mp hmem with hbefore | hafter
      · exact hlost other hbefore
      · exact hpassed other hafter

theorem Ended.mono {config : AppConfig} {passed weaker : Outcome → Prop} {clientId : Nat}
    {w : World} {forwarded : Forwarded} (h : Ended config passed clientId w forwarded)
    (himp : ∀ outcome, passed outcome → weaker outcome) :
    Ended config weaker clientId w forwarded := by
  cases h with
  | raised error hresult huncounted hknown hpassed =>
    exact .raised error hresult huncounted hknown fun e hmem r houtcome =>
      himp _ (hpassed e hmem r houtcome)
  | answered before e r upstreamStatusCode apiKeyId retryCount hexchanges houtcome hresult
      hgrown hknown hpassed =>
    exact .answered before e r upstreamStatusCode apiKeyId retryCount hexchanges houtcome hresult
      hgrown hknown fun other hmem => himp _ (hpassed other hmem)

section

variable (fwd : Forwarder) (primary fallback : Nat → Turn) (req : ForwardRequest)
  (fallbackPath : Option String) (w : World)

/-- A forward with a fallback gets to a call with an outcome of a kind, the second path being tried
where the first is answered 404 or 405. -/
def FallbackCallReached (kind : Outcome → Prop) : Prop :=
  CallReached fwd req primary w kind ∨
    ∃ path, fallbackPath = some path ∧ CallReached fwd req primary w (fun outcome =>
      outcome.unserved = true) ∧ CallReached fwd { req with upstreamPath := path } fallback
        (forward fwd primary req w).world kind

/-- The first forward is the only one, or the second follows one that was answered 404 or 405. -/
theorem forwardOrFallback_cases :
    (forwardOrFallback fwd primary fallback req fallbackPath w = forward fwd primary req w ∧
        (fallbackPath = none ∨
          ¬CallReached fwd req primary w (fun outcome => outcome.unserved = true))) ∨
      ∃ path, fallbackPath = some path ∧ CallReached fwd req primary w (fun outcome =>
        outcome.unserved = true) ∧
        forwardOrFallback fwd primary fallback req fallbackPath w =
          let second :=
            forward fwd fallback { req with upstreamPath := path } (forward fwd primary req w).world
          { second with events := (forward fwd primary req w).events ++ second.events } := by
  have hunserved :=
    (exchanged_iff fwd primary req w fun _ => nofun).symm.trans
      (forward_ended fwd primary req w).unserved_iff
  cases fallbackPath with
  | none =>
    refine .inl ⟨?_, .inl rfl⟩
    cases hresult : (forward fwd primary req w).result with
    | error error => simp only [forwardOrFallback, hresult]
    | ok result => simp only [forwardOrFallback, hresult]
  | some path =>
    cases hresult : (forward fwd primary req w).result with
    | error error =>
      refine .inl ⟨by simp only [forwardOrFallback, hresult], .inr ?_⟩
      rw [hunserved]
      rintro ⟨result, hok, _⟩
      rw [hresult] at hok
      cases hok
    | ok result =>
      by_cases hstatus : result.response.statusCode = 404 ∨ result.response.statusCode = 405
      · exact .inr ⟨path, rfl,
          hunserved.mpr ⟨result, hresult,
            hstatus⟩, by simp only [forwardOrFallback, hresult, if_pos hstatus]⟩
      · refine .inl ⟨by simp only [forwardOrFallback, hresult, if_neg hstatus], .inr ?_⟩
        rw [hunserved]
        rintro ⟨result', hok, hstatus'⟩
        rw [hresult] at hok
        cases hok
        exact hstatus hstatus'

theorem forwardOrFallback_ended :
    Ended fwd.config (·.won = false) req.clientId w
      (forwardOrFallback fwd primary fallback req fallbackPath w) := by
  have hfirst := forward_ended fwd primary req w
  rcases forwardOrFallback_cases fwd primary fallback req fallbackPath w with
    ⟨hsame, _⟩ | ⟨path, _, hreached, hsecond⟩
  · rw [hsame]
    exact hfirst.mono fun _ => Outcome.not_won_of_retried
  · rw [hsecond]
    have hunserved := (exchanged_iff fwd primary req w fun _ => nofun).mpr hreached
    obtain ⟨huncounted, hknown, hlost⟩ := hfirst.uncounted_of_unserved hunserved
    have hnext :=
      forward_ended fwd fallback { req with upstreamPath := path } (forward fwd primary req w).world
    exact (hnext.mono fun _ => Outcome.not_won_of_retried).after huncounted hknown hlost

theorem fallback_exchanged_iff {kind : Outcome → Prop} (hsent : ∀ text, ¬kind (.unsent text)) :
    Exchanged kind (forwardOrFallback fwd primary fallback req fallbackPath w).events ↔
      FallbackCallReached fwd primary fallback req fallbackPath w kind := by
  have hfirst := exchanged_iff fwd primary req w hsent
  rw [FallbackCallReached, ← hfirst]
  rcases forwardOrFallback_cases fwd primary fallback req fallbackPath w with
    ⟨hsame, hnone⟩ | ⟨path, rfl, hreached, hsecond⟩
  · rw [hsame]
    refine ⟨.inl, fun h => h.resolve_right ?_⟩
    rintro ⟨path, hpath, hreached, _⟩
    rcases hnone with hnone | hnot
    · rw [hnone] at hpath
      cases hpath
    · exact hnot hreached
  · have hnext :=
      exchanged_iff fwd fallback { req with upstreamPath := path } (forward fwd primary req w).world
        hsent
    rw [hsecond, Exchanged, exchangesOf_append]
    simp only [List.mem_append, or_and_right, exists_or, Option.some.injEq, exists_eq_left',
      hreached, true_and]
    rw [← hnext]
    rfl

end

/-- In success mode exactly the 2xx answer that is returned is counted, unless a 2xx answer that
cannot be passed on was reached: that one is counted before the forward raises. -/
theorem success_counted_once (fwd : Forwarder) (req : ForwardRequest) (w : World)
    (hmode : fwd.config.quota.countMode = .success) :
    (∀ turns, SuccessCounted req.clientId w (forward fwd turns req w) ↔
        ¬CallReached fwd req turns w fun outcome => outcome.unencodable = true) ∧
      ∀ primary fallback fallbackPath,
        SuccessCounted req.clientId w (forwardOrFallback fwd primary fallback req fallbackPath w) ↔
          ¬FallbackCallReached fwd primary fallback req fallbackPath w fun outcome =>
            outcome.unencodable = true := by
  constructor
  · intro turns
    rw [← exchanged_iff fwd turns req w fun _ => nofun]
    exact (forward_ended fwd turns req w).successCounted_iff hmode fun _ =>
      Outcome.not_won_of_retried
  · intro primary fallback fallbackPath
    rw [← fallback_exchanged_iff fwd primary fallback req fallbackPath w fun _ => nofun]
    exact (forwardOrFallback_ended fwd primary fallback req fallbackPath w).successCounted_iff hmode
      fun _ => id

/-- One scrape of client 1. -/
def countedScrape : ForwardRequest :=
  { clientId := 1, method := "POST", upstreamPath := "/v1/scrape" }

/-- The surroundings of a call that is answered 200 with a header. -/
def answeredWith (value : String) : Nat → Turn :=
  fun _ => .unhindered 0 0 (.response { statusCode := 200, headers := [("x-note", value)] })

theorem success_counted_once_answered :
    SuccessCounted 1 (servedWorld 5)
      (forward defaultForwarder (answeredWith "ok") countedScrape (servedWorld 5)) := by
  refine ((success_counted_once defaultForwarder countedScrape (servedWorld 5) rfl).1
    (answeredWith "ok")).mpr ?_
  intro hreached
  obtain ⟨i, hunencodable⟩ := hreached.outcome
  have hencodable : (answeredWith "ok" 0).outcome.unencodable = false := by decide
  exact Bool.false_ne_true (hencodable.symm.trans hunencodable)

/-- A 2xx answer with a header outside Latin-1 raises in the gateway and is counted. -/
theorem unencodable_success_counted :
    ¬∀ fwd turns req w, fwd.config.quota.countMode = .success →
      SuccessCounted req.clientId w (forward fwd turns req w) := by
  intro h
  have hcounted := h defaultForwarder (answeredWith "日") countedScrape (servedWorld 5) rfl
  obtain ⟨row, hrow, htotal⟩ := (hcounted.totals 1).exists_of_eq_some rfl
  cases hrow
  exact absurd htotal (by decide)

/-! ### Attempt mode -/

/-- Every call is counted, for its key and for the client. -/
def AttemptsCounted (clientId : Nat) (w : World) (forwarded : Forwarded) : Prop :=
  UsageCounted forwarded.events clientId (exchangesOf forwarded.events).length
    (fun id => (exchangesOf forwarded.events).countP fun e => e.keyId = id) w forwarded.world

theorem Ended.uncounted {config : AppConfig} {passed : Outcome → Prop} {clientId : Nat} {w : World}
    {forwarded : Forwarded} (h : Ended config passed clientId w forwarded)
    (hmode : config.quota.countMode = .attempt) :
    Uncounted forwarded.events clientId w forwarded.world ∧ Known w forwarded.events := by
  cases h with
  | raised error hresult huncounted hknown hpassed => exact ⟨huncounted, hknown⟩
  | answered before e r upstreamStatusCode apiKeyId retryCount hexchanges houtcome hresult
      hgrown hknown hpassed =>
    refine ⟨hgrown.of_gain_eq_zero ?_, hknown⟩
    rw [gain, if_neg]
    rintro ⟨hsuccess, _⟩
    rw [hmode] at hsuccess
    cases hsuccess

/-- Attempt mode counts nothing: it is right where nothing is called. -/
theorem attempts_counted_iff (fwd : Forwarder) (turns : Nat → Turn) (req : ForwardRequest)
    (w : World) (hmode : fwd.config.quota.countMode = .attempt) :
    AttemptsCounted req.clientId w (forward fwd turns req w) ↔
      ¬CallReached fwd req turns w fun outcome => outcome.sent = true := by
  obtain ⟨huncounted, hknown⟩ := (forward_ended fwd turns req w).uncounted hmode
  rw [← exchanged_iff fwd turns req w fun _ => nofun]
  constructor
  · rintro hcounted ⟨e, hmem, _⟩
    obtain ⟨key, hkey⟩ := Option.isSome_iff_exists.mp (hknown e hmem).2
    obtain ⟨row, hrow, hactual⟩ := (huncounted.usageCounted.keys e.keyId).exists_of_eq_some hkey
    obtain ⟨row', hrow', hclaimed⟩ := (hcounted.keys e.keyId).exists_of_eq_some hkey
    rw [hrow, Option.some.injEq] at hrow'
    subst hrow'
    have hcalls : 0 < (exchangesOf (forward fwd turns req w).events).countP fun other =>
        other.keyId = e.keyId :=
      List.countP_pos_iff.mpr ⟨e, hmem, decide_eq_true rfl⟩
    by_cases hreset : ResetIn (forward fwd turns req w).events e.keyId key
    · have hzero := hactual.reset hreset
      rw [hclaimed.reset hreset] at hzero
      omega
    · have hkept := hactual.kept hreset
      rw [hclaimed.kept hreset] at hkept
      omega
  · intro hnone
    have hempty : exchangesOf (forward fwd turns req w).events = [] := by
      apply List.eq_nil_iff_forall_not_mem.mpr
      intro e hmem
      exact hnone ⟨e, hmem, (hknown e hmem).1⟩
    rw [AttemptsCounted, hempty]
    exact huncounted.usageCounted

/-- The default gateway in attempt mode. -/
def attemptForwarder : Forwarder :=
  { defaultForwarder with config := { quota := { countMode := .attempt } } }

theorem attempts_counted_iff_answered :
    ¬AttemptsCounted 1 (servedWorld 5)
      (forward attemptForwarder (answeredWith "ok") countedScrape (servedWorld 5)) := by
  have hcounted :=
    attempts_counted_iff attemptForwarder (answeredWith "ok") countedScrape (servedWorld 5) rfl
  have hcalled : Exchanged (fun outcome => outcome.sent = true)
      (forward attemptForwarder (answeredWith "ok") countedScrape (servedWorld 5)).events :=
    ⟨_, List.mem_singleton_self _, rfl⟩
  rw [exchanged_iff attemptForwarder (answeredWith "ok") countedScrape (servedWorld 5) fun _ =>
    nofun] at hcalled
  exact fun h => hcounted.mp h hcalled

/-- One answered call is not counted. -/
theorem attempt_not_counted :
    ¬∀ fwd turns req w, fwd.config.quota.countMode = .attempt →
      AttemptsCounted req.clientId w (forward fwd turns req w) := by
  intro h
  have hcounted := h attemptForwarder (answeredWith "ok") countedScrape (servedWorld 5) rfl
  obtain ⟨client, hclient, husage⟩ := (hcounted.clients 1).exists_of_eq_some rfl
  cases hclient
  exact absurd husage (by decide)

end Fcam

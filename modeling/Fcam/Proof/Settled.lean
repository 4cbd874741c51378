import Fcam.Proof.Dispatch
import Fcam.Proof.Replay

/-!
# What a finished creation leaves in its record

The record is inserted before the forward and completed after it, so what matters is which exits of
the forward come without an answer. `dispatches` says, without looking at any answer, whether a pass
over the pool gets as far as sending a request; `forward_called` and `forward_uncalled` tie it to
what the forward does. A handler whose forward ends before that raises and leaves its record in
progress, where it stays in the way of the same request until it expires.
-/

namespace Fcam

/-- A request has been sent upstream. -/
def Called (events : List Event) : Prop := ∃ e, Event.exchanged e ∈ events

theorem Called.append {events : List Event} (h : Called events) (more : List Event) :
    Called (events ++ more) := by
  obtain ⟨e, hmem⟩ := h
  exact ⟨e, List.mem_append_left _ hmem⟩

theorem not_called_append {events more : List Event} (h : ¬Called events)
    (hmore : ∀ event ∈ more, event.quiet = true ∨ ∃ today keys, event = .examined today keys) :
    ¬Called (events ++ more) := by
  rintro ⟨e, hmem⟩
  rcases List.mem_append.mp hmem with hold | hnew
  · exact h ⟨e, hold⟩
  · rcases hmore _ hnew with hquiet | ⟨today, keys, heq⟩
    · cases hquiet
    · cases heq

/-! ### The passes before the first call -/

/-- How a pass over the pool ends when no request has been sent before. -/
inductive Attempt where
  | refused
  | passedOver (w : World)
  | sent

section

variable (fwd : Forwarder) (masterKey : Bytes) (baseUrl : String) (req : ForwardRequest)
  (turns : Nat → Turn)

/-- A pass is refused by the pool, the limiter or the leases, passes over a key that is limited,
busy or cannot be decrypted, or sends a request unless the request cannot be built. -/
def attempt (turn : Turn) (w : World) : Attempt :=
  let selection := select turn.pool w (some req.clientId) req.provider
  match selection.result with
  | .error _ => .refused
  | .ok (id, key) =>
    match turn.allow id key.rateLimitPerMin with
    | .error _ => .refused
    | .ok (false, _) => .passedOver selection.world
    | .ok (true, _) =>
      match turn.tryAcquire id key.maxConcurrent with
      | .error _ => .refused
      | .ok false => .passedOver selection.world
      | .ok true =>
        match fwd.decrypt masterKey key, turn.outcome with
        | none, _ => .passedOver (selection.world.modifyKey id disableKeyDecryptFailed)
        | some _, .unsent _ => .refused
        | some _, _ => .sent

/-- Some pass sends a request before one is refused. -/
def reachesCall : Nat → Nat → World → Bool
  | 0, _, _ => false
  | fuel + 1, i, w =>
    match attempt fwd masterKey req (turns i) w with
    | .refused => false
    | .passedOver w => reachesCall fuel (i + 1) w
    | .sent => true

/-- The forward of a request without a pin sends a request upstream. -/
def dispatches (w : World) : Bool :=
  match fwd.masterKey, fwd.providerBaseUrl req.provider with
  | some masterKey, .ok _ =>
    reachesCall fwd masterKey req turns (maxSelectionTries (fwd.totalAttempts req.provider)) 0 w
  | _, _ => false

theorem select_withRecords (env : PoolEnv) (w : World) (records : Records) (clientId : Option Nat)
    (provider : Provider) :
    select env (w.withRecords records) clientId provider =
      { select env w clientId provider with
        world := (select env w clientId provider).world.withRecords records } := by
  cases hempty : (w.db.keys.select (inScope clientId provider)).isEmpty with
  | true => simp only [select, World.withRecords, hempty, if_true]
  | false =>
  cases hactive : (w.db.keys.select (inScope clientId provider)).any fun row => row.2.isActive with
  | false =>
    simp only [select, World.withRecords, hempty, hactive, Bool.false_eq_true, Bool.not_false,
      if_true, if_false]
  | true =>
    simp only [select, World.withRecords, hempty, hactive, Bool.false_eq_true, Bool.not_true,
      if_false]
    generalize scan env _ = scanned
    obtain ⟨scanEnd, examined⟩ := scanned
    cases scanEnd <;> rfl

def Attempt.withRecords (records : Records) : Attempt → Attempt
  | refused => refused
  | passedOver w => passedOver (w.withRecords records)
  | sent => sent

theorem attempt_withRecords (turn : Turn) (w : World) (records : Records) :
    attempt fwd masterKey req turn (w.withRecords records) =
      (attempt fwd masterKey req turn w).withRecords records := by
  rw [attempt, attempt, select_withRecords]
  simp only
  split
  · rfl
  split
  · rfl
  · rfl
  split
  · rfl
  · rfl
  split <;> rfl

theorem reachesCall_withRecords (fuel i : Nat) (w : World) (records : Records) :
    reachesCall fwd masterKey req turns fuel i (w.withRecords records) =
      reachesCall fwd masterKey req turns fuel i w := by
  induction fuel generalizing i w with
  | zero => rfl
  | succ fuel ih =>
    rw [reachesCall, reachesCall, attempt_withRecords]
    cases attempt fwd masterKey req (turns i) w with
    | refused => rfl
    | passedOver w => exact ih (i + 1) w
    | sent => rfl

theorem dispatches_withRecords (w : World) (records : Records) :
    dispatches fwd req turns (w.withRecords records) = dispatches fwd req turns w := by
  simp only [dispatches, reachesCall_withRecords]

theorem called_callEvents {events : List Event} {i id : Nat} {plaintextKey : String} {w : World}
    (hsent : ∀ text, (turns i).outcome ≠ .unsent text) :
    Called (events ++ callEvents fwd baseUrl req turns i id plaintextKey w) := by
  have hexchange :
      ∃ e, Event.exchanged e ∈ callEvents fwd baseUrl req turns i id plaintextKey w := by
    rw [callEvents, exchanges]
    · exact ⟨_, List.mem_cons_self⟩
    · exact hsent
  obtain ⟨e, hmem⟩ := hexchange
  exact ⟨e, List.mem_append_right _ hmem⟩

/-- What a pass does, by how its attempt ends. -/
def PassOf (p : Progress) (pass : Pass Progress Forwarded) : Attempt → Prop
  | .refused =>
    pass.Satisfies (fun _ => False) fun forwarded =>
      (∃ error, forwarded.result = .error error) ∧ ¬Called forwarded.events
  | .passedOver w =>
    pass.Satisfies (fun p' => p'.world = w ∧ p'.upstreamAttempts = p.upstreamAttempts ∧
      ¬Called p'.events)
      fun _ => False
  | .sent => pass.Satisfies (fun p' => Called p'.events) fun forwarded => Called forwarded.events

theorem passOf_attempt (i : Nat) {p : Progress} (huncalled : ¬Called p.events) :
    PassOf p (pooledPass fwd masterKey baseUrl req turns i p)
      (attempt fwd masterKey req (turns i) p.world) := by
  have hexamined : ¬Called (p.events ++
      [.examined (turns i).pool.reading.today
        (select (turns i).pool p.world (some req.clientId) req.provider).examined]) :=
    not_called_append huncalled (by simp)
  have hquiet : ∀ more : List Event, (∀ event ∈ more, event.quiet = true) → ¬Called (p.events ++
      [.examined (turns i).pool.reading.today
        (select (turns i).pool p.world (some req.clientId) req.provider).examined] ++ more) :=
    fun more hmore => not_called_append hexamined fun event hmem => .inl (hmore event hmem)
  simp only [attempt, pooledPass]
  cases hresult : (select (turns i).pool p.world (some req.clientId) req.provider).result with
  | error error => exact ⟨⟨_, rfl⟩, hexamined⟩
  | ok selected =>
  obtain ⟨id, key⟩ := selected
  simp only
  cases hallow : (turns i).allow id key.rateLimitPerMin with
  | error error => exact ⟨⟨_, rfl⟩, hexamined⟩
  | ok allowed =>
  obtain ⟨allowed, retryAfter⟩ := allowed
  cases allowed with
  | false => exact ⟨rfl, rfl, hquiet _ (by simp [Event.quiet])⟩
  | true =>
  simp only
  cases hlease : (turns i).tryAcquire id key.maxConcurrent with
  | error error => exact ⟨⟨_, rfl⟩, hquiet _ (by simp [Event.quiet])⟩
  | ok leased =>
  cases leased with
  | false => exact ⟨rfl, rfl, hquiet _ (by simp [Event.quiet])⟩
  | true =>
  simp only
  cases hsecret : fwd.decrypt masterKey key with
  | none => exact ⟨rfl, rfl, hquiet _ (by simp [Event.quiet])⟩
  | some plaintextKey =>
  simp only
  generalize hsent : call fwd baseUrl req (turns i) id plaintextKey _ = sent
  have hevents := congrArg Progress.events hsent
  have hcalled : (∀ text, (turns i).outcome ≠ .unsent text) → Called sent.events := by
    intro hnot
    rw [← hevents, (call_eq fwd baseUrl req turns i id plaintextKey _).2]
    exact called_callEvents fwd baseUrl req turns hnot
  cases houtcome : (turns i).outcome with
  | unsent text =>
    have huncalled : ¬Called sent.events := by
      rw [← hevents]
      simp only [call, Progress.log, houtcome, exchanges, List.nil_append]
      exact not_called_append (hquiet _ (by simp [Event.quiet])) (by simp [Event.quiet])
    exact ⟨⟨_, rfl⟩, huncalled⟩
  | exception text => exact hcalled (by simp [houtcome])
  | timeout =>
    simp only [PassOf]
    split <;> exact hcalled (by simp [houtcome])
  | httpError text =>
    simp only [PassOf]
    split <;> exact hcalled (by simp [houtcome])
  | response r =>
    simp only [PassOf]
    split <;> exact hcalled (by simp [houtcome])

/-! ### The forward -/

theorem callRule_called (bound : Nat) :
    CallRule fwd baseUrl req turns bound (fun _ events => Called events)
      (fun _ events => Called events)
      (fun _ _ => True) where
  ended_of_waiting h := h
  quiet more h _ := h.append more
  undecryptable _ h := h
  call _ _ _ h _ := h.append _
  callAgain _ _ _ h _ _ := h.append _
  stillReady _ _ _ _ _ := trivial

theorem selectRule_called : SelectRule req turns (fun _ events => Called events)
    (fun _ _ => True) where
  select _ h := h.append _
  ready _ _ _ _ := fun _ => trivial

theorem loop_called (fuel i : Nat) (p : Progress) (hattempts : p.upstreamAttempts = 0)
    (huncalled : ¬Called p.events) :
    let loop := loopWhile (fun p => decide (p.upstreamAttempts < fwd.totalAttempts req.provider))
      (pooledPass fwd masterKey baseUrl req turns) fuel i p
    if reachesCall fwd masterKey req turns fuel i p.world then
      loop.Satisfies (fun p => Called p.events) (fun forwarded => Called forwarded.events)
    else
      loop.Satisfies (fun p => ¬Called p.events) fun forwarded =>
        (∃ error, forwarded.result = .error error) ∧ ¬Called forwarded.events := by
  induction fuel generalizing i p with
  | zero => exact huncalled
  | succ fuel ih =>
    have hguard : p.upstreamAttempts < fwd.totalAttempts req.provider := by
      rw [hattempts]
      exact Nat.succ_pos _
    have hpass := passOf_attempt fwd masterKey baseUrl req turns i huncalled
    simp only [loopWhile, hguard, decide_true, if_true, reachesCall]
    cases hattempt : attempt fwd masterKey req (turns i) p.world with
    | refused =>
      rw [hattempt] at hpass
      cases hcase : pooledPass fwd masterKey baseUrl req turns i p with
      | again p' =>
        rw [hcase] at hpass
        exact hpass.elim
      | done forwarded =>
        rw [hcase] at hpass
        exact hpass
    | passedOver w =>
      rw [hattempt] at hpass
      cases hcase : pooledPass fwd masterKey baseUrl req turns i p with
      | again p' =>
        rw [hcase] at hpass
        obtain ⟨rfl, hsame, hstill⟩ := hpass
        exact ih (i + 1) p' (hsame.trans hattempts) hstill
      | done forwarded =>
        rw [hcase] at hpass
        exact hpass.elim
    | sent =>
      rw [hattempt] at hpass
      cases hcase : pooledPass fwd masterKey baseUrl req turns i p with
      | again p' =>
        rw [hcase] at hpass
        refine loopWhile_satisfies _ _ fuel (i + 1) (fun j hj p hcalled _ => ?_) p' hpass
        exact pooledPass_rule fwd masterKey baseUrl req turns
          (callRule_called fwd baseUrl req turns _) (selectRule_called req turns) hj p hcalled
      | done forwarded =>
        rw [hcase] at hpass
        exact hpass

theorem forward_called_iff (hpin : req.pinnedApiKeyId = none) (w : World) :
    if dispatches fwd req turns w then Called (forward fwd turns req w).events
    else (∃ error, (forward fwd turns req w).result = .error error) ∧
      ¬Called (forward fwd turns req w).events := by
  have hempty : ¬Called [] := by simp [Called]
  rw [dispatches, forward]
  cases fwd.masterKey with
  | none => exact ⟨⟨_, rfl⟩, hempty⟩
  | some masterKey =>
  cases hbase : fwd.providerBaseUrl req.provider with
  | error error => exact ⟨⟨_, rfl⟩, hempty⟩
  | ok baseUrl =>
  have hloop :=
    loop_called fwd masterKey baseUrl req turns (maxSelectionTries (fwd.totalAttempts req.provider))
      0
    { world := w } rfl hempty
  simp only [hpin, Option.bind_none, forwardPooled]
  split
  · next hdispatches =>
    rw [if_pos hdispatches] at hloop
    split
    · next forwarded heq =>
      rw [heq] at hloop
      exact hloop
    · next p heq =>
      rw [heq] at hloop
      exact hloop
  · next hdispatches =>
    rw [if_neg hdispatches] at hloop
    split
    · next forwarded heq =>
      rw [heq] at hloop
      exact hloop
    · next p heq =>
      rw [heq] at hloop
      exact ⟨⟨_, rfl⟩, hloop⟩

/-- What a forward returns was built from an answer. -/
def Forwarded.Built (forwarded : Forwarded) : Prop :=
  ∀ result, forwarded.result = .ok result → ∃ r, toFastapiResponse r = .ok result.response

theorem raise_built (p : Progress) (error : FcamError) : (p.raise error).Built := by
  intro result h
  cases h

theorem fail_built (p : Progress) (text : String) : (p.fail text).Built := by
  intro result h
  cases h

theorem respond_built (p : Progress) (r : UpstreamResponse) : (p.respond r).Built := by
  intro result h
  rw [Progress.respond] at h
  cases hresponse : toFastapiResponse r with
  | error error =>
    rw [hresponse] at h
    cases h
  | ok response =>
    rw [hresponse] at h
    cases h
    exact ⟨r, hresponse⟩

theorem pooledPass_built (i : Nat) (p : Progress) :
    (pooledPass fwd masterKey baseUrl req turns i p).Satisfies (fun _ => True) Forwarded.Built := by
  rw [pooledPass]
  simp only
  split
  · exact raise_built _ _
  split
  · exact raise_built _ _
  · trivial
  split
  · exact raise_built _ _
  · trivial
  split
  · trivial
  split
  · exact fail_built _ _
  · exact fail_built _ _
  · split
    · exact raise_built _ _
    · trivial
  · split
    · exact raise_built _ _
    · trivial
  · split
    · trivial
    · exact respond_built _ _

theorem forward_built (hpin : req.pinnedApiKeyId = none) (w : World) :
    (forward fwd turns req w).Built := by
  rw [forward]
  simp only [hpin, Option.bind_none]
  split
  · exact raise_built _ _
  next masterKey _ =>
  split
  · exact raise_built _ _
  next baseUrl _ =>
  have hloop :=
    loopWhile_satisfies (fun p => decide (p.upstreamAttempts < fwd.totalAttempts req.provider))
    (pooledPass fwd masterKey baseUrl req turns)
      (maxSelectionTries (fwd.totalAttempts req.provider)) 0
    (fun i _ p _ _ => pooledPass_built fwd masterKey baseUrl req turns i p) { world := w } trivial
  rw [forwardPooled]
  split
  · next forwarded heq =>
    rw [heq] at hloop
    exact hloop
  · exact raise_built _ _

theorem settle_records (i id : Nat) (w : World) :
    (settled fwd req turns i id w).db.idempotencyRecords = w.db.idempotencyRecords := by
  have hfailure : (recordFailure fwd.config (turns i).settledAt id w).db.idempotencyRecords =
      w.db.idempotencyRecords := by
    rw [recordFailure]
    split
    · rfl
    split
    · rfl
    simp only
    split <;> rfl
  rw [settled]
  cases (turns i).outcome with
  | timeout => exact hfailure
  | httpError text => exact hfailure
  | exception text => rfl
  | unsent text => rfl
  | response r =>
    simp only [settle]
    split
    · rfl
    split
    · rfl
    split
    · exact hfailure
    split
    · rw [accountSuccess]
      split <;> rfl
    · rfl

theorem callRule_records (records : Records) (bound : Nat) :
    CallRule fwd baseUrl req turns bound (fun w _ => w.db.idempotencyRecords = records)
      (fun w _ => w.db.idempotencyRecords = records) (fun _ _ => True) where
  ended_of_waiting h := h
  quiet _ h _ := h
  undecryptable _ h := h
  call _ _ _ h _ := (settle_records _ _ _ _ _ _).trans h
  callAgain _ _ _ h _ _ := (settle_records _ _ _ _ _ _).trans h
  stillReady _ _ _ _ _ := trivial

theorem forward_records (w : World) :
    (forward fwd turns req w).world.db.idempotencyRecords = w.db.idempotencyRecords := by
  refine forward_rule (fun w' _ => w'.db.idempotencyRecords = w.db.idempotencyRecords)
    (fun w' _ => w'.db.idempotencyRecords = w.db.idempotencyRecords) rfl rfl ?_ ?_
  · intro baseUrl _ id key _ _
    exact ⟨_, callRule_records fwd baseUrl req turns _ _, trivial⟩
  · intro baseUrl _ _
    refine ⟨_, callRule_records fwd baseUrl req turns _ _, ?_⟩
    constructor
    · intro w' events i h selection
      rcases select_world (turns i).pool w' (some req.clientId) req.provider with
        hsame | ⟨rr, hrows⟩
      · rw [show selection.world = w' from hsame]
        exact h
      · rw [show selection.world = _ from hrows]
        exact h
    · intros
      trivial

end

/-! ### The record of a creation -/

theorem recordOfKey?_insert {base : Records} {record : IdempotencyRecord}
    (hfree : recordOfKey? record.clientId record.idempotencyKey base = none) :
    recordOfKey? record.clientId record.idempotencyKey (base.insert record) =
      some (base.nextId, record) := by
  rw [recordOfKey?] at hfree ⊢
  rw [Table.insert, List.find?_append, hfree]
  simp [ofKey]

/-- The record of a key after a change of one record that keeps the columns of the key. -/
theorem recordOfKey?_modify {clientId id : Nat} {key : String} {records : Records}
    {existing : IdempotencyRecord} {f : IdempotencyRecord → IdempotencyRecord}
    (hkeeps : ∀ record, ofKey clientId key (f record) = ofKey clientId key record)
    (hfound : recordOfKey? clientId key records = some (id, existing)) :
    recordOfKey? clientId key (records.modify id f) = some (id, f existing) := by
  rw [recordOfKey?] at hfound ⊢
  have hsame : ∀ row : Nat × IdempotencyRecord,
      ofKey clientId key (if row.1 = id then f row.2 else row.2) = ofKey clientId key row.2 := by
    intro row
    split
    · exact hkeeps row.2
    · rfl
  simp only [Table.modify, Table.mapRows, List.find?_map, Function.comp_def, hsame, hfound]
  simp

section

variable {fwd : Forwarder} {sha256 : Bytes → String} {env : CreateEnv} {route : CreateRoute}
  {req : CreateRequest}

theorem forwardWithFallback_records (w : World) :
    (forwardWithFallback fwd env route req w).world.db.idempotencyRecords =
      w.db.idempotencyRecords := by
  have hforward := fun turns op w => forward_records fwd (forwardRequest req op) turns w
  simp only [forwardWithFallback]
  split
  · split
    · exact (hforward _ _ _).trans (hforward _ _ _)
    · exact hforward _ _ _
  · exact hforward _ _ _

theorem forwardWithFallback_built (w : World) :
    (forwardWithFallback fwd env route req w).Built := by
  have hforward := fun turns op w => forward_built fwd (forwardRequest req op) turns rfl w
  simp only [forwardWithFallback]
  split
  · split
    · exact hforward _ _ _
    · exact hforward _ _ _
  · exact hforward _ _ _

/-- The forwards of a handler send a request exactly when the first of them does, and fail where it
does not. -/
theorem forwardWithFallback_called_iff (w : World) :
    if dispatches fwd (forwardRequest req (route.primary req.query)) env.primary w then
      Called (forwardWithFallback fwd env route req w).events
    else
      (∃ error, (forwardWithFallback fwd env route req w).result = .error error) ∧
        ¬Called (forwardWithFallback fwd env route req w).events := by
  have hfirst :=
    forward_called_iff fwd (forwardRequest req (route.primary req.query)) env.primary rfl w
  simp only [forwardWithFallback]
  split
  · next hdispatches =>
    rw [if_pos hdispatches] at hfirst
    split
    · split
      · exact hfirst.append _
      · exact hfirst
    · exact hfirst
  · next hdispatches =>
    rw [if_neg hdispatches] at hfirst
    obtain ⟨⟨error, herror⟩, huncalled⟩ := hfirst
    rw [herror]
    exact ⟨⟨error, herror⟩, huncalled⟩

theorem maybeBindCreatedResource_records (loads : Bytes → Option Json) (now : Instant)
    (clientId : Nat) (apiKeyId : Option Nat) (resourceType : String) (response : Response)
    (w : World) :
    (maybeBindCreatedResource loads now clientId apiKeyId resourceType response
      w).db.idempotencyRecords =
      w.db.idempotencyRecords := by
  simp only [maybeBindCreatedResource]
  split
  · split <;> rfl
  · rfl

theorem answerOf_ne_letThrough (hash : String) (record : IdempotencyRecord) (ctx : Option Nat) :
    answerOf hash record ≠ .letThrough ctx := by
  rw [answerOf]
  split
  · simp
  split
  · rw [deserializeResponse]
    split <;> simp
  · simp

/-- A new record that is completed with a response that can be stored holds it. -/
theorem complete_holds {config : AppConfig} {base : Records} {record : IdempotencyRecord}
    {response : Response} (henabled : config.idempotency.enabled = true)
    (hrecord : record.status = .inProgress) (hcode : record.responseStatusCode = none)
    (hbody : record.responseBody = none)
    (hfree : recordOfKey? record.clientId record.idempotencyKey base = none)
    (hwell : response.WellFormed) (hsmall : response.body.length ≤ maxResponseBytes config) :
    ∃ completed : IdempotencyRecord,
      recordOfKey? record.clientId record.idempotencyKey
        (complete config (some base.nextId) response (base.insert record)) =
          some (base.nextId, completed) ∧
      completed.expiresAt = record.expiresAt ∧ completed.requestHash = record.requestHash ∧
      completed.Holds response := by
  have hserialized : serializeResponse response (maxResponseBytes config) =
      .ok (response.statusCode, response.headers, response.body) := if_neg (Int.not_lt.mpr hsmall)
  have hcompleted : complete config (some base.nextId) response (base.insert record) =
      storeResponse base.nextId record response (base.insert record) := by
    simp only [complete, Option.filter, henabled, if_true, Table.get?_insert_self, hserialized]
  rw [hcompleted, storeResponse]
  refine ⟨_, recordOfKey?_modify (fun _ => rfl) (recordOfKey?_insert hfree), rfl, rfl, ?_⟩
  constructor
  · simp only [hrecord]
    rfl
  · simp only [hcode]
    rfl
  · simp only [hbody]
    rfl
  · exact hwell

/-! ### The same request again -/

/-- The request is replayed where the handler returned an answer that can be stored, and let through
where the handler failed before any request was sent. -/
structure SettlesRecord (config : AppConfig) (created : Created) (begun : Begun) : Prop where
  replayed : ∀ response, created.result = .ok response →
    response.body.length ≤ maxResponseBytes config → begun = .replay response
  letThrough : ∀ error, created.result = .error error → ¬Called created.events →
    ∃ ctx, begun = .letThrough ctx

/-- A handler that is let through settles its record if it sends a request and the fingerprint and
the expiry of the same request can be computed again; it does not where it sends none. -/
theorem createResource_settles {clock : Nat → Instant} {w : World} {key : String}
    {fields : String × Instant} (henabled : fwd.config.idempotency.enabled = true)
    (hkey : req.idempotencyKey = some key) (hne : key ≠ "")
    (hfree : recordOfKey? req.clientId key
      (cleanupExpired req.clientId (env.clock 0) w.db.idempotencyRecords) = none)
    (hfields : recordFields fwd.config sha256 (idempotentRequest route req) (env.clock 0) =
      .ok fields) (hwithin : clock 0 ≤ fields.2) :
    let created := createResource fwd sha256 env route req w
    let begun := (startOrReplay fwd.config sha256 (idempotentRequest route req) clock
      created.world.db.idempotencyRecords).1
    let sends := dispatches fwd (forwardRequest req (route.primary req.query)) env.primary w
    (sends = true →
     (∃ again, recordFields fwd.config sha256 (idempotentRequest route req) (clock 0) = .ok again) →
      SettlesRecord fwd.config created begun) ∧
      (SettlesRecord fwd.config created begun → sends = true) := by
  intro created begun sends
  have hgiven : givenKey fwd.config (idempotentRequest route req) = .ok key :=
    givenKey_of_some henabled hkey hne
  set base := cleanupExpired req.clientId (env.clock 0) w.db.idempotencyRecords with hbase
  set record := newRecord (idempotentRequest route req) key fields.1 fields.2 with hrecord
  have hstart :
      startOrReplay fwd.config sha256 (idempotentRequest route req) env.clock
        w.db.idempotencyRecords = (.letThrough (some base.nextId), base.insert record) :=
          startOrReplay_fresh hgiven hfree hfields
  set forwarded :=
    forwardWithFallback fwd env route req (w.withRecords (base.insert record)) with hforwarded
  have hinserted : forwarded.world.db.idempotencyRecords = base.insert record :=
    forwardWithFallback_records _
  have hfreeRecord : recordOfKey? record.clientId record.idempotencyKey base = none := hfree
  have hlive : expiredAt (clock 0) record = false := by
    simpa [expiredAt, newRecord, hrecord] using hwithin
  have hsends : if sends = true then Called forwarded.events
      else (∃ error, forwarded.result = .error error) ∧ ¬Called forwarded.events := by
    simp only [sends, ← dispatches_withRecords _ _ _ w (base.insert record)]
    exact forwardWithFallback_called_iff _
  cases hresult : forwarded.result with
  | error error =>
    have hcreated :
        created =
          { result := .error error
            world := forwarded.world
            events := forwarded.events } := by
      simp only [created, createResource, hstart, ← hforwarded, hresult]
    -- The record is still in progress, whatever stopped the forward.
    have hrefused : ∀ ctx, begun ≠ .letThrough ctx := by
      intro ctx
      simp only [begun, hcreated, hinserted]
      rw [startOrReplay_found hgiven (recordOfKey?_insert hfreeRecord) hlive]
      split
      · simp
      · exact answerOf_ne_letThrough _ _ _
    constructor
    · intro hsent _
      rw [if_pos hsent] at hsends
      constructor
      · intro response hok
        rw [hcreated] at hok
        cases hok
      · intro error' _ huncalled
        rw [hcreated] at huncalled
        exact absurd hsends huncalled
    · intro hsettles
      by_contra hunsent
      rw [if_neg hunsent] at hsends
      obtain ⟨ctx, hctx⟩ :=
        hsettles.letThrough error (by rw [hcreated]) (by rw [hcreated]; exact hsends.2)
      exact hrefused ctx hctx
  | ok result =>
    have hsent : sends = true := by
      by_contra hunsent
      rw [if_neg hunsent, hresult] at hsends
      obtain ⟨⟨error, herror⟩, _⟩ := hsends
      cases herror
    refine ⟨fun _ hagain => ?_, fun _ => hsent⟩
    obtain ⟨again, hagain⟩ := hagain
    constructor
    · intro response hok hsmall
      have hresponse : response = result.response := by
        simp only [created, createResource, hstart, ← hforwarded, hresult] at hok
        exact (Except.ok.inj hok).symm
      have hrecords : created.world.db.idempotencyRecords =
          complete fwd.config (some base.nextId) response (base.insert record) := by
        simp only [created, createResource, hstart, ← hforwarded, hresult, ← hresponse]
        split
        · rw [hinserted]
          rfl
        · rw [maybeBindCreatedResource_records, hinserted]
          rfl
      obtain ⟨r, hbuilt⟩ :=
        forwardWithFallback_built (w.withRecords (base.insert record)) result hresult
      have hwell : response.WellFormed := by
        rw [hresponse]
        exact wellFormed_of_mkResponse hbuilt
      obtain ⟨completed, hcompleted, hexpires, hhash, hholds⟩ :=
        complete_holds henabled rfl rfl rfl hfreeRecord hwell hsmall
      have hstillLive : expiredAt (clock 0) completed = false := by
        rw [expiredAt, hexpires, ← expiredAt, hlive]
      simp only [begun, hrecords]
      rw [startOrReplay_found hgiven hcompleted hstillLive, hagain]
      have hsameHash : completed.requestHash = again.1 := by
        rw [hhash]
        exact Option.some.inj
          ((hashRequest_of_recordFields hfields).symm.trans (hashRequest_of_recordFields hagain))
      simp only [answerOf_holds hholds, hsameHash, if_true]
    · intro error hfailed
      simp only [created, createResource, hstart, ← hforwarded, hresult] at hfailed
      cases hfailed

end

/-! ### A crawl with a key and one without -/

theorem createResource_settles_answered :
    SettlesRecord {}
      (createResource defaultForwarder plainHash answeredEnv .v1Crawl crawlRequest clientWorld)
      (startOrReplay {} plainHash (idempotentRequest .v1Crawl crawlRequest) (fun _ => 1)
        crawledWorld.db.idempotencyRecords).1 := by
  have henabled : defaultForwarder.config.idempotency.enabled = true := rfl
  have hwithin : (1 : Instant) ≤ 86400000000 := by decide
  exact (createResource_settles henabled rfl (by decide) rfl rfl hwithin).1 rfl ⟨_, rfl⟩

/-- A client without a key is refused the crawl, and refused it again as one in progress. -/
theorem refused_crawl_stays_in_progress :
    ¬∀ (fwd : Forwarder) (sha256 : Bytes → String) (env : CreateEnv) (route : CreateRoute)
      (req : CreateRequest)
      (clock : Nat → Instant) (w : World) (key : String) (fields : String × Instant),
      fwd.config.idempotency.enabled = true → req.idempotencyKey = some key → key ≠ "" →
      recordOfKey? req.clientId key
        (cleanupExpired req.clientId (env.clock 0) w.db.idempotencyRecords) = none →
      recordFields fwd.config sha256 (idempotentRequest route req) (env.clock 0) = .ok fields →
        clock 0 ≤ fields.2 →
      let created := createResource fwd sha256 env route req w
      SettlesRecord fwd.config created
        (startOrReplay fwd.config sha256 (idempotentRequest route req) clock
         created.world.db.idempotencyRecords).1 := by
  intro h
  have hwithin : (1 : Instant) ≤ 86400000000 := by decide
  have hsettles :=
    h defaultForwarder plainHash answeredEnv .v1Crawl crawlRequest (fun _ => 1) {} "k" _ rfl rfl
    (by decide) rfl rfl hwithin
  have huncalled : ¬Called [.examined 0 []] := by simp [Called]
  obtain ⟨ctx, hctx⟩ := hsettles.letThrough _ rfl huncalled
  have hrefused : Begun.raised (.fcam idempotencyInProgress) = .letThrough ctx := hctx
  cases hrefused

end Fcam

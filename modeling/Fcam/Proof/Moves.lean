import Fcam.Model.GatewayRun

/-!
# What one step of a request can do

`Dispatch.Moves` lists the transitions of a request, each with what decides it, where the request is
then and what it writes. `step_moves` says that there are no others; what is preserved by every step
is read off the list.
-/

namespace Fcam

/-- The request has no call under way and no answer. -/
def DispatchPhase.idle : DispatchPhase → Bool
  | calling _ _ => false
  | settling _ _ _ => false
  | accounting _ _ _ _ => false
  | finished answered => answered.isNone
  | _ => true

/-- The request has selected a key and is about to commit the selection. -/
def DispatchPhase.isPicked : DispatchPhase → Bool
  | picked _ _ _ _ => true
  | _ => false

/-- The key a request attempts, as it has loaded it. -/
def DispatchPhase.attempt? : DispatchPhase → Option (Nat × ApiKey)
  | gating id key => some (id, key)
  | calling id key => some (id, key)
  | settling id key _ => some (id, key)
  | _ => none

/-- The request is about to look for a key, or has ended without an answer. -/
inductive DispatchPhase.Waits : DispatchPhase → Prop where
  | lookingUp : Waits lookingUp
  | choosing (held : Option (Nat × ApiKey)) : Waits (choosing held)
  | finished : Waits (finished none)

namespace DispatchPhase.Waits

variable {phase : DispatchPhase}

theorem idle (h : phase.Waits) : phase.idle = true := by
  cases h <;> rfl

theorem isPicked (h : phase.Waits) : phase.isPicked = false := by
  cases h <;> rfl

theorem attempt? (h : phase.Waits) : phase.attempt? = none := by
  cases h <;> rfl

end DispatchPhase.Waits

section

variable (fwd : Forwarder) (d : Dispatch)

theorem tryAnother_waits (held : Option (Nat × ApiKey)) : (d.tryAnother held).phase.Waits := by
  simp only [Dispatch.tryAnother, Dispatch.moveTo]
  split
  · exact .finished
  · exact .choosing held

theorem begin_waits (client : Client) : (d.begin fwd client).phase.Waits := by
  simp only [Dispatch.begin]
  split
  · split
    · exact .lookingUp
    · exact .choosing none
  · exact .finished

theorem testClient_waits (client : Client) : (d.testClient fwd client).phase.Waits := by
  rw [Dispatch.testClient]
  split
  · exact begin_waits fwd d client
  · exact .finished

theorem retry_idle (expired : Bool) (id : Nat) (key : ApiKey) :
    (d.retry expired id key).phase.idle = true := by
  rw [Dispatch.retry]
  cases expired <;> cases d.pinned <;> rfl

theorem retry_isPicked (expired : Bool) (id : Nat) (key : ApiKey) :
    (d.retry expired id key).phase.isPicked = false := by
  rw [Dispatch.retry]
  cases expired <;> cases d.pinned <;> rfl

theorem choose_idle (turn : Turn) (w : World) (held : Option (Nat × ApiKey)) :
    (d.choose fwd turn w held).phase.idle = true := by
  simp only [Dispatch.choose]
  split
  · split
    · rfl
    · split <;> rfl
  · rfl

theorem choose_attempt? (turn : Turn) (w : World) (held : Option (Nat × ApiKey)) :
    (d.choose fwd turn w held).phase.attempt? = none := by
  simp only [Dispatch.choose]
  split
  · split
    · rfl
    · split <;> rfl
  · rfl

end

/-- The transitions of a request. -/
inductive Dispatch.Moves (fwd : Forwarder) (turn : Turn) (w : World) (d : Dispatch) :
    Dispatch → List Write → Prop where
  | begun (client : Client) (hphase : d.phase = .governing client) :
      Moves fwd turn w d (d.begin fwd client) []
  | tested (client : Client)
      (hphase : d.phase = .governing client ∨
       (d.phase = .checking ∧ w.client? d.req.clientId = some client)) :
      Moves fwd turn w d (d.testClient fwd client) []
  | unclaimed (hphase : d.phase = .checking) : Moves fwd turn w d (d.moveTo (.finished none)) []
  | reset (client : Client) (hphase : d.phase = .governing client)
      (hchecked : fwd.config.quota.enableQuotaCheck = true) (hquota : client.dailyQuota.isSome)
      (hday : client.quotaResetAt ≠ some turn.pool.reading.today) :
      Moves fwd turn w d (d.expire.moveTo .checking)
        [.client d.req.clientId client (resetClient turn.pool.reading.today client)]
  | pinAccepted (id : Nat) (key : ApiKey) (hphase : d.phase = .lookingUp)
      (hkey : w.key? id = some key) (henabled : isDisabled key = false) :
      Moves fwd turn w d { d with pinned := true, phase := .gating id key } []
  | pinRejected (held : Option (Nat × ApiKey)) (hphase : d.phase = .lookingUp)
      (hheld : ∀ row, held = some row → w.key? row.1 = some row.2) :
      Moves fwd turn w d (d.moveTo (.choosing held)) []
  | chosen (held : Option (Nat × ApiKey)) (hphase : d.phase = .choosing held) :
      Moves fwd turn w d (d.choose fwd turn w held) []
  | selected (idx id : Nat) (loaded : List (Nat × ApiKey)) (examined : List Examined)
      (hphase : d.phase = .picked idx id loaded examined) :
      Moves fwd turn w d
        { d.expire with selectionTries := d.selectionTries + 1, phase := .selected id }
          (examinedWrites loaded examined ++
           [.roundRobin { clientId := some d.req.clientId, provider := d.req.provider } (idx + 1)])
  | vanished (id : Nat) (hphase : d.phase = .selected id) :
      Moves fwd turn w d (d.moveTo (.finished none)) []
  | loaded (id : Nat) (key : ApiKey) (hphase : d.phase = .selected id)
      (hkey : w.key? id = some key) :
      Moves fwd turn w d (d.moveTo (.gating id key)) []
  | refused (id : Nat) (key : ApiKey) (d' : Dispatch) (hphase : d.phase = .gating id key)
      (hnext : d' = d.tryAnother (some (id, key)) ∨ d' = d.moveTo (.finished none))
      (hrefused : ∀ retryAfter, turn.allow id key.rateLimitPerMin = .ok (true, retryAfter) →
        turn.tryAcquire id key.maxConcurrent ≠ .ok true) :
      Moves fwd turn w d d' []
  | undecryptable (id : Nat) (key : ApiKey) (retryAfter : Option Int)
      (hphase : d.phase = .gating id key)
      (hallow : turn.allow id key.rateLimitPerMin = .ok (true, retryAfter))
      (hlease : turn.tryAcquire id key.maxConcurrent = .ok true)
      (hsecret : undecryptable fwd key = true) :
      Moves fwd turn w d (d.expire.tryAnother none) [.key id key (disableKeyDecryptFailed key)]
  | sent (id : Nat) (key : ApiKey) (retryAfter : Option Int) (hphase : d.phase = .gating id key)
      (hallow : turn.allow id key.rateLimitPerMin = .ok (true, retryAfter))
      (hlease : turn.tryAcquire id key.maxConcurrent = .ok true)
      (hsecret : undecryptable fwd key = false) :
      Moves fwd turn w d (d.moveTo (.calling id key)) []
  | broke (id : Nat) (key : ApiKey) (hphase : d.phase = .calling id key)
      (houtcome : (∃ text, turn.outcome = .exception text) ∨ ∃ text, turn.outcome = .unsent text) :
      Moves fwd turn w d
        { d with upstreamAttempts := d.upstreamAttempts + 1, phase := .finished none } []
  | returned (id : Nat) (key : ApiKey) (hphase : d.phase = .calling id key)
      (houtcome : turn.outcome = .timeout ∨ (∃ text, turn.outcome = .httpError text) ∨
       ∃ r, turn.outcome = .response r) :
      Moves fwd turn w d
        { d with
          upstreamAttempts := d.upstreamAttempts + 1
          phase := .settling id key turn.outcome } []
  | lost (id : Nat) (key : ApiKey) (outcome : Outcome) (d' : Dispatch)
      (hphase : d.phase = .settling id key outcome) (hlost : outcome.won = false)
      (hnext : (∃ expired, d' = d.retry expired id key) ∨ d' = d.moveTo (.finished none)) :
      Moves fwd turn w d d' (Dispatch.outcomeWrites fwd turn.settledAt id key outcome w).1
  | won (id : Nat) (key : ApiKey) (r : UpstreamResponse) (client : Client)
      (hphase : d.phase = .settling id key (.response r)) (hwon : is2xx r.statusCode = true)
      (hmode : fwd.config.quota.countMode = .success)
      (hclient : d.client.or (w.client? d.req.clientId) = some client) :
      Moves fwd turn w d (d.moveTo (.accounting id key client r)) []
  | wonUnclaimed (id : Nat) (key : ApiKey) (r : UpstreamResponse)
      (hphase : d.phase = .settling id key (.response r)) (hwon : is2xx r.statusCode = true)
      (hmode : fwd.config.quota.countMode = .success)
      (hclient : d.client.or (w.client? d.req.clientId) = none) :
      Moves fwd turn w d (d.moveTo (.finished (some (id, r)))) []
  | wonUncounted (id : Nat) (key : ApiKey) (r : UpstreamResponse)
      (hphase : d.phase = .settling id key (.response r)) (hwon : is2xx r.statusCode = true)
      (hmode : fwd.config.quota.countMode ≠ .success) :
      Moves fwd turn w d (d.moveTo (.finished (some (id, r))))
        [.key id key (deductCredits (d.cost fwd r) key)]
  | accounted (id : Nat) (key : ApiKey) (client : Client) (r : UpstreamResponse)
      (hphase : d.phase = .accounting id key client r) :
      Moves fwd turn w d (d.expire.moveTo (.finished (some (id, r))))
        (d.accountWrites fwd turn.settledAt id key client r)

section

variable {fwd : Forwarder} {turn : Turn} {w : World} {d d' : Dispatch}

theorem gate_moves {id : Nat} {key : ApiKey} (hphase : d.phase = .gating id key) :
    Dispatch.Moves fwd turn w d (d.gate fwd turn id key).1 (d.gate fwd turn id key).2 := by
  rw [Dispatch.gate]
  split
  · next error _ hallow =>
      exact .refused id key _ hphase (.inr rfl) fun _ hother => by simp [hallow] at hother
  · next retryAfter _ hallow =>
      exact .refused id key _ hphase (.inl rfl) fun _ hother => by simp [hallow] at hother
  · next error hallow hlease =>
      exact .refused id key _ hphase (.inr rfl) fun _ _ => by simp [hlease]
  · next hallow hlease => exact .refused id key _ hphase (.inl rfl) fun _ _ => by simp [hlease]
  · next retryAfter hallow hlease =>
    split
    · next hsecret =>
        exact .undecryptable id key _ hphase hallow hlease (by rw [undecryptable, hsecret]; rfl)
    · next plaintextKey hsecret =>
        exact .sent id key _ hphase hallow hlease (by rw [undecryptable, hsecret]; rfl)

theorem settle_moves {id : Nat} {key : ApiKey} {outcome : Outcome}
    (hphase : d.phase = .settling id key outcome) :
    Dispatch.Moves fwd turn w d (d.settle fwd turn w id key outcome).1
      (d.settle fwd turn w id key outcome).2 := by
  have hlost : outcome.won = false → ∀ result : Dispatch × List Write,
      result = (if d.retried outcome ∧ d.upstreamAttempts < fwd.totalAttempts d.req.provider then
        (d.retry (Dispatch.outcomeWrites fwd turn.settledAt id key outcome w).2 id key,
          (Dispatch.outcomeWrites fwd turn.settledAt id key outcome w).1)
      else (d.moveTo (.finished none),
        (Dispatch.outcomeWrites fwd turn.settledAt id key outcome w).1)) →
      Dispatch.Moves fwd turn w d result.1 result.2 := by
    rintro hlost result rfl
    split
    · exact .lost id key outcome _ hphase hlost (.inl ⟨_, rfl⟩)
    · exact .lost id key outcome _ hphase hlost (.inr rfl)
  cases outcome with
  | response r =>
    simp only [Dispatch.settle]
    by_cases hwon : is2xx r.statusCode = true
    · rw [if_pos hwon]
      split
      · next hmode =>
        split
        · next hclient => exact .wonUnclaimed id key r hphase hwon hmode hclient
        · next client hclient => exact .won id key r client hphase hwon hmode hclient
      · next hmode => exact .wonUncounted id key r hphase hwon hmode
    · rw [if_neg hwon]
      exact hlost (Bool.not_eq_true _ ▸ hwon) _ rfl
  | timeout => exact hlost rfl _ rfl
  | httpError text => exact hlost rfl _ rfl
  | exception text => exact hlost rfl _ rfl
  | unsent text => exact hlost rfl _ rfl

theorem step_moves {writes : List Write} (hstep : d.step fwd turn w = some (d', writes)) :
    d.Moves fwd turn w d' writes := by
  rw [Dispatch.step] at hstep
  split at hstep
  · next client hphase =>
    split at hstep
    · cases hstep
      exact .begun client hphase
    next hchecked =>
    split at hstep <;> cases hstep
    · exact .tested client (.inl hphase)
    · next hday =>
      rw [Bool.not_eq_true, Bool.or_eq_false_iff, Bool.not_eq_false'] at hchecked
      have hquota : client.dailyQuota.isSome := by
        rw [← Option.not_isNone, hchecked.2]
        rfl
      exact .reset client hphase hchecked.1 hquota hday
  · next hphase =>
    split at hstep <;> cases hstep
    · exact .unclaimed hphase
    · next client hclient => exact .tested client (.inr ⟨hphase, hclient⟩)
  · next hphase =>
    simp only at hstep
    split at hstep
    · cases hstep
      exact .pinRejected none hphase fun row hnone => absurd hnone (Option.some_ne_none row).symm
    · next pin hpin =>
      obtain ⟨pinned, _, hmap⟩ := Option.bind_eq_some_iff.mp hpin
      obtain ⟨row, hfilter, hsame⟩ := Option.map_eq_some_iff.mp hmap
      cases hsame
      have hkey := (Option.filter_eq_some_iff.mp hfilter).1
      split at hstep <;> cases hstep
      · next haccepted =>
        rw [Bool.and_eq_true, Bool.not_eq_true'] at haccepted
        exact .pinAccepted _ _ hphase hkey haccepted.1
      · exact .pinRejected _ hphase fun held hheld => Option.some.inj hheld ▸ hkey
  · next held hphase =>
    cases hstep
    exact .chosen held hphase
  · next idx id loaded examined hphase =>
    cases hstep
    exact .selected idx id loaded examined hphase
  · next id hphase =>
    split at hstep <;> cases hstep
    · exact .vanished id hphase
    · next key hkey => exact .loaded id key hphase hkey
  · next id key hphase =>
    rw [Option.some.injEq] at hstep
    have hmoves : d.Moves fwd turn w _ _ := gate_moves hphase
    rw [hstep] at hmoves
    exact hmoves
  · next id key hphase =>
    cases houtcome : turn.outcome with
    | exception text =>
      simp only [houtcome] at hstep
      cases hstep
      exact .broke id key hphase (.inl ⟨text, houtcome⟩)
    | unsent text =>
      simp only [houtcome] at hstep
      cases hstep
      exact .broke id key hphase (.inr ⟨text, houtcome⟩)
    | timeout =>
      simp only [houtcome] at hstep
      cases hstep
      exact houtcome ▸ .returned id key hphase (.inl houtcome)
    | httpError text =>
      simp only [houtcome] at hstep
      cases hstep
      exact houtcome ▸ .returned id key hphase (.inr (.inl ⟨text, houtcome⟩))
    | response r =>
      simp only [houtcome] at hstep
      cases hstep
      exact houtcome ▸ .returned id key hphase (.inr (.inr ⟨r, houtcome⟩))
  · next id key outcome hphase =>
    rw [Option.some.injEq] at hstep
    have hmoves : d.Moves fwd turn w _ _ := settle_moves hphase
    rw [hstep] at hmoves
    exact hmoves
  · next id key client r hphase =>
    cases hstep
    exact .accounted id key client r hphase
  · cases hstep

end

end Fcam

import Fcam.Proof.CallReached
import Fcam.Proof.Busy

/-!
# What a forward pays with the rate tokens of a key

An attempt takes a token of its key where the limiter grants it, and only then asks for a lease,
decrypts the key and builds the request. A token is paid for a call unless one of these fails.
-/

namespace Fcam

def Event.isToken (id : Nat) : Event → Bool
  | tokenTaken other => other == id
  | _ => false

/-- The key has a rate bucket. -/
def rated (w : World) (id : Nat) : Bool := (w.key? id).any fun key => 0 < key.rateLimitPerMin

/-- The tokens taken from the bucket of a key. -/
def tokensTaken (w : World) (id : Nat) (events : List Event) : Nat :=
  if rated w id then events.countP (Event.isToken id) else 0

/-- The upstream calls made with a key. -/
def callsWith (id : Nat) (events : List Event) : Nat :=
  (exchangesOf events).countP fun e => e.keyId == id

section

variable (fwd : Forwarder) (masterKey : Bytes) (req : ForwardRequest) (turns : Nat → Turn)
  (w : World)

/-- The attempt makes its call once the limiter has granted it: a lease is granted, the key can be
decrypted and the request can be built. -/
def CallsOnGrant (turn : Turn) (id : Nat) (key : ApiKey) : Prop :=
  turn.tryAcquire id key.maxConcurrent = .ok true ∧ (fwd.decrypt masterKey key).isSome = true ∧
    turn.outcome.sent = true

/-- The attempt takes a token of a key's bucket and makes no call. -/
def WastesToken (turn : Turn) (id : Nat) (key : ApiKey) : Prop :=
  rated w id = true ∧ turn.Grants id key ∧ ¬CallsOnGrant fwd masterKey turn id key

/-- A pass over the pool that wastes a token. -/
def PooledWastes (i : Nat) (p : Progress) : Prop :=
  ∃ id key, (select (turns i).pool p.world (some req.clientId) req.provider).result =
    .ok (id, key) ∧ WastesToken fwd masterKey w (turns i) id key

/-- An attempt with the pinned key that wastes a token. -/
def PinnedWastes (id i : Nat) (p : Progress) : Prop :=
  ∃ key, p.world.key? id = some key ∧ WastesToken fwd masterKey w (turns i) id key

/-- The forward gets to an attempt that wastes a token. -/
def WasteReached : Prop :=
  ∃ masterKey baseUrl, fwd.masterKey = some masterKey ∧ fwd.providerBaseUrl req.provider =
    .ok baseUrl ∧
    match req.pinnedApiKeyId.bind fun id => (pinnedKey? req w id).map fun _ => id with
    | some id =>
      ReachesHit (fun _ => true) (pinnedPass fwd masterKey baseUrl req turns id)
        (PinnedWastes fwd masterKey turns w id) (fwd.totalAttempts req.provider) 0
          { world := w, lastApiKeyId := some id }
    | none =>
      ReachesHit (fun p => decide (p.upstreamAttempts < fwd.totalAttempts req.provider))
        (pooledPass fwd masterKey baseUrl req turns) (PooledWastes fwd masterKey req turns w)
        (maxSelectionTries (fwd.totalAttempts req.provider)) 0 { world := w }

end

/-! ### One attempt -/

/-- What an attempt adds to the tokens and to the calls of every key. -/
structure Adds (id tokens calls : Nat) (before after : List Event) : Prop where
  tokens : ∀ x, after.countP (Event.isToken x) = before.countP (Event.isToken x) + if x = id then
    tokens else 0
  calls : ∀ x, callsWith x after = callsWith x before + if x = id then calls else 0

/-- An attempt keeps the token of its key, wastes it, or spends it on a call. -/
inductive Paid (granted called : Prop) (id : Nat) (before after : List Event) : Prop where
  | kept (hadds : Adds id 0 0 before after) (hnot : ¬granted)
  | wasted (hadds : Adds id 1 0 before after) (hgranted : granted) (hnot : ¬called)
  | spent (hadds : Adds id 1 1 before after) (hcalled : called)

theorem callsWith_append (x : Nat) (events more : List Event) :
    callsWith x (events ++ more) = callsWith x events + callsWith x more := by
  rw [callsWith, exchangesOf_append, List.countP_append]
  rfl

theorem Adds.of_append {id tokens calls : Nat} {before more : List Event}
    (htokens : ∀ x, more.countP (Event.isToken x) = if x = id then tokens else 0)
    (hcalls : ∀ x, callsWith x more = if x = id then calls else 0) :
    Adds id tokens calls before (before ++ more) where
  tokens x := by rw [List.countP_append, htokens]
  calls x := by rw [callsWith_append, hcalls]

theorem callsWith_of_exchangesOf {more : List Event} (h : exchangesOf more = []) (x : Nat) :
    callsWith x more = 0 := by
  rw [callsWith, h]
  rfl

theorem countP_isToken_cons (x id : Nat) (more : List Event)
    (hmore : more.countP (Event.isToken x) = 0) :
    (Event.tokenTaken id :: more).countP (Event.isToken x) = if x = id then 1 else 0 := by
  by_cases hx : x = id
  · rw [if_pos hx, List.countP_cons_of_pos (by simp [Event.isToken, hx]), hmore]
  · rw [if_neg hx, List.countP_cons_of_neg (by simp [Event.isToken, Ne.symm hx]), hmore]

/-- An attempt without a lease takes a token where the limiter grants one, and calls nobody. -/
theorem Unleased.paid {granted called : Prop} {id : Nat} {before more : List Event}
    (h : Unleased id more) (htoken : .tokenTaken id ∈ more ↔ granted) (hnot : ¬(granted ∧ called)) :
    Paid granted called id before (before ++ more) := by
  have hcalls : ∀ x, callsWith x more = if x = id then 0 else 0 := by
    intro x
    rw [ite_self]
    exact callsWith_of_exchangesOf h.exchangesOf x
  have hkept : (∀ x, more.countP (Event.isToken x) = 0) → .tokenTaken id ∉ more →
      Paid granted called id before (before ++ more) := by
    intro hnone hmem
    exact .kept (.of_append (by simpa using hnone) hcalls) fun hgranted =>
      hmem (htoken.mpr hgranted)
  have hwasted : (∀ x, more.countP (Event.isToken x) = if x = id then 1 else 0) →
      .tokenTaken id ∈ more → Paid granted called id before (before ++ more) := by
    intro hone hmem
    have hgranted := htoken.mp hmem
    exact .wasted (.of_append hone hcalls) hgranted fun hcalled => hnot ⟨hgranted, hcalled⟩
  obtain rfl | rfl | rfl | rfl := h
  · exact hkept (fun x => rfl) (by simp)
  · exact hkept (fun x => by simp [Event.isToken]) (by simp)
  · exact hwasted (fun x => countP_isToken_cons x id [] rfl) (by simp)
  · exact hwasted (fun x => countP_isToken_cons x id [.busy id] (by simp [Event.isToken])) (by simp)

section

variable {fwd : Forwarder} {masterKey : Bytes} {baseUrl : String} {req : ForwardRequest}
  {turn : Turn} {id : Nat} {key : ApiKey} {p : Progress}

variable (fwd baseUrl req turn id p) in
theorem called_adds (plaintextKey : String) :
    Adds id 1 (if turn.outcome.sent then 1
      else 0) p.events (p.called fwd baseUrl req turn id plaintextKey).events := by
  simp only [Progress.called, call, Progress.log, List.append_assoc, List.cons_append,
    List.nil_append]
  generalize settle fwd.config req.method req.upstreamPath turn.outcome turn.settledAt req.clientId
      id p.world = after
  refine .of_append (fun x => countP_isToken_cons x id _ ?_) fun x => ?_
  · cases turn.outcome <;> rfl
  · by_cases hx : x = id
    · subst hx
      cases turn.outcome <;> simp [exchanges, callsWith, exchangesOf, Outcome.sent]
    · have hne : id ≠ x := fun heq => hx heq.symm
      cases turn.outcome <;> simp [exchanges, callsWith, exchangesOf, hx, hne]

theorem called_paid {plaintextKey : String} (hadmits : turn.Admits id key)
    (hsecret : fwd.decrypt masterKey key = some plaintextKey) :
    Paid (turn.Grants id key) (CallsOnGrant fwd masterKey turn id key) id p.events
      (p.called fwd baseUrl req turn id plaintextKey).events := by
  have hadds := called_adds fwd baseUrl req turn id p plaintextKey
  by_cases hsent : turn.outcome.sent = true
  · rw [if_pos hsent] at hadds
    exact .spent hadds ⟨hadmits.2, by rw [hsecret]; rfl, hsent⟩
  · rw [if_neg hsent] at hadds
    exact .wasted hadds hadmits.1 fun hcalls => hsent hcalls.2.2

variable (id p) in
theorem undecrypted_paid (hadmits : turn.Admits id key)
    (hsecret : fwd.decrypt masterKey key = none) :
    Paid (turn.Grants id key)
      (CallsOnGrant fwd masterKey turn id key) id p.events (p.undecrypted id).events := by
  refine .wasted (.of_append (fun x => countP_isToken_cons x id _ ?_) fun x => ?_) hadmits.1 ?_
  · rfl
  · rw [ite_self]
    exact callsWith_of_exchangesOf rfl x
  · intro hcalls
    simp [CallsOnGrant, hsecret] at hcalls

theorem tried_paid {pass : Pass Progress Forwarded}
    (htried : Tried fwd masterKey baseUrl req turn id key p pass) :
    pass.Satisfies
      (fun p' => Paid (turn.Grants id key) (CallsOnGrant fwd masterKey turn id key) id p.events
        p'.events)
      fun forwarded => Paid (turn.Grants id key)
        (CallsOnGrant fwd masterKey turn id key) id p.events forwarded.events := by
  have hunleased :
      ¬turn.Admits id key → ¬(turn.Grants id key ∧ CallsOnGrant fwd masterKey turn id key) :=
    fun hnot hboth => hnot ⟨hboth.1, hboth.2.1⟩
  cases htried with
  | refused more error hmore hnot htoken => exact hmore.paid htoken (hunleased hnot)
  | passedOver more retryCount hmore hnot htoken =>
    exact hmore.unleased.paid htoken (hunleased hnot)
  | undecryptable error hsecret hadmits => exact undecrypted_paid id p hadmits hsecret
  | disabled retryCount hsecret hadmits => exact undecrypted_paid id p hadmits hsecret
  | failed plaintextKey text hadmits hsecret houtcome => exact called_paid hadmits hsecret
  | gaveUp plaintextKey retryCount error hadmits hsecret houtcome =>
    exact called_paid hadmits hsecret
  | again plaintextKey retryCount hadmits hsecret houtcome => exact called_paid hadmits hsecret
  | answered plaintextKey retryCount r hadmits hsecret houtcome => exact called_paid hadmits hsecret

end

/-! ### A whole forward -/

/-- Every call has taken its token. -/
def CallsPaid (events : List Event) : Prop :=
  ∀ x, callsWith x events ≤ events.countP (Event.isToken x)

/-- More tokens of some rated key have been taken than calls made with it. -/
def Wasted (w : World) (events : List Event) : Prop :=
  ∃ x, callsWith x events < tokensTaken w x events

theorem wasted_iff (w : World) (events : List Event) :
    Wasted w events ↔
      ∃ x, rated w x = true ∧ callsWith x events < events.countP (Event.isToken x) := by
  refine exists_congr fun x => ?_
  by_cases hrated : rated w x = true
  · simp [tokensTaken, hrated]
  · simp [tokensTaken, hrated]

/-- After an attempt there is a wasted token if there was one before or the attempt wastes one. -/
theorem Paid.step {granted called : Prop} {id : Nat} {before after : List Event}
    (h : Paid granted called id before after) (w : World) (hpaid : CallsPaid before) :
    CallsPaid after ∧
      (Wasted w after ↔ Wasted w before ∨ (rated w id = true ∧ granted ∧ ¬called)) := by
  rw [wasted_iff, wasted_iff]
  cases h with
  | kept hadds hnot =>
    have htokens : ∀ x, after.countP (Event.isToken x) = before.countP (Event.isToken x) := by
      simpa using hadds.tokens
    have hcalls : ∀ x, callsWith x after = callsWith x before := by simpa using hadds.calls
    constructor
    · intro x
      rw [htokens, hcalls]
      exact hpaid x
    · simp only [htokens, hcalls]
      exact (or_iff_left fun hwaste => hnot hwaste.2.1).symm
  | wasted hadds hgranted hnot =>
    have hcalls : ∀ x, callsWith x after = callsWith x before := by simpa using hadds.calls
    have hother :
        ∀ x, x ≠ id → after.countP (Event.isToken x) = before.countP (Event.isToken x) := by
      intro x hx
      rw [hadds.tokens, if_neg hx, Nat.add_zero]
    have hown : after.countP (Event.isToken id) = before.countP (Event.isToken id) + 1 := by
      rw [hadds.tokens, if_pos rfl]
    constructor
    · intro x
      rw [hcalls, hadds.tokens]
      exact (hpaid x).trans (Nat.le_add_right _ _)
    · constructor
      · rintro ⟨x, hrated, hlt⟩
        by_cases hx : x = id
        · exact .inr ⟨hx ▸ hrated, hgranted, hnot⟩
        · exact .inl ⟨x, hrated, by rwa [hcalls, hother x hx] at hlt⟩
      · rintro (⟨x, hrated, hlt⟩ | ⟨hrated, _⟩)
        · refine ⟨x, hrated, ?_⟩
          rw [hcalls, hadds.tokens]
          omega
        · refine ⟨id, hrated, ?_⟩
          rw [hcalls, hown]
          exact Nat.lt_succ_of_le (hpaid id)
  | spent hadds hcalled =>
    have hboth : ∀ x, callsWith x after ≤ after.countP (Event.isToken x) ↔
        callsWith x before ≤ before.countP (Event.isToken x) := by
      intro x
      rw [hadds.tokens, hadds.calls]
      omega
    constructor
    · intro x
      exact (hboth x).mpr (hpaid x)
    · have hlt : ∀ x, callsWith x after < after.countP (Event.isToken x) ↔
          callsWith x before < before.countP (Event.isToken x) := by
        intro x
        rw [hadds.tokens, hadds.calls]
        omega
      simp only [hlt]
      exact (or_iff_left fun hwaste => hwaste.2.2 hcalled).symm

/-- What a pass leaves where it wastes a token if it is of a kind. -/
def WastePass (w : World) (pass : Nat → Progress → Pass Progress Forwarded)
    (wastes : Nat → Progress → Prop) : Prop :=
  ∀ i p, CallsPaid p.events → (pass i p).Satisfies
    (fun p' => CallsPaid p'.events ∧ (Wasted w p'.events ↔ Wasted w p.events ∨ wastes i p))
    fun forwarded => Wasted w forwarded.events ↔ Wasted w p.events ∨ wastes i p

section

variable {fwd : Forwarder} {masterKey : Bytes} {baseUrl : String} {req : ForwardRequest}
  {turns : Nat → Turn} {w : World}

theorem tried_wastes {turn : Turn} {id : Nat} {key : ApiKey} {p : Progress}
    {pass : Pass Progress Forwarded} (htried : Tried fwd masterKey baseUrl req turn id key p pass)
    (hpaid : CallsPaid p.events) :
    pass.Satisfies
      (fun p' => CallsPaid p'.events ∧
        (Wasted w p'.events ↔ Wasted w p.events ∨ WastesToken fwd masterKey w turn id key))
      fun forwarded => Wasted w forwarded.events ↔
        Wasted w p.events ∨ WastesToken fwd masterKey w turn id key := by
  have hattempt := tried_paid htried
  cases pass with
  | again p' => exact Paid.step hattempt w hpaid
  | done forwarded => exact (Paid.step hattempt w hpaid).2

theorem not_wasted_nil : ¬Wasted w [] := by
  rw [wasted_iff]
  rintro ⟨x, _, hlt⟩
  exact absurd hlt (Nat.lt_irrefl 0)

variable (fwd masterKey baseUrl req turns w) in
theorem pinnedPass_wastes (id : Nat) :
    WastePass w (pinnedPass fwd masterKey baseUrl req turns id)
      (PinnedWastes fwd masterKey turns w id) := by
  intro i p hpaid
  have hcases := pinnedPass_cases fwd masterKey baseUrl req turns id i p
  generalize pinnedPass fwd masterKey baseUrl req turns id i p = pass at hcases ⊢
  cases hcases with
  | deleted text hkey =>
    refine (or_iff_left ?_).symm
    rintro ⟨key, hsome, _⟩
    rw [hkey] at hsome
    cases hsome
  | tried key hkey htried =>
    have hiff : PinnedWastes fwd masterKey turns w id i p ↔
        WastesToken fwd masterKey w (turns i) id key := by
      simp only [PinnedWastes, hkey, Option.some.injEq, exists_eq_left']
    rw [hiff]
    exact tried_wastes htried hpaid

variable (fwd masterKey baseUrl req turns w) in
theorem pooledPass_wastes :
    WastePass w (pooledPass fwd masterKey baseUrl req turns)
      (PooledWastes fwd masterKey req turns w) := by
  intro i p hpaid
  have htokens :
      ∀ x, (p.selected req (turns i)).events.countP (Event.isToken x) =
        p.events.countP (Event.isToken x) := by
    intro x
    simp [Progress.selected, Progress.log, Event.isToken]
  have hcalls : ∀ x, callsWith x (p.selected req (turns i)).events = callsWith x p.events := by
    intro x
    simp only [Progress.selected, Progress.log, callsWith_append]
    rfl
  have hsame : Wasted w (p.selected req (turns i)).events ↔ Wasted w p.events := by
    simp only [wasted_iff, htokens, hcalls]
  have hcases := pooledPass_cases fwd masterKey baseUrl req turns i p
  generalize pooledPass fwd masterKey baseUrl req turns i p = pass at hcases ⊢
  cases hcases with
  | refused error raised hresult =>
    refine hsame.trans (or_iff_left ?_).symm
    rintro ⟨id, key, hok, _⟩
    rw [hresult] at hok
    cases hok
  | tried id key hresult htried =>
    have hiff : PooledWastes fwd masterKey req turns w i p ↔
        WastesToken fwd masterKey w (turns i) id key := by
      constructor
      · rintro ⟨otherId, other, hother, hwastes⟩
        rw [hresult] at hother
        cases hother
        exact hwastes
      · intro hwastes
        exact ⟨id, key, hresult, hwastes⟩
    have hselected : CallsPaid (p.selected req (turns i)).events := by
      intro x
      rw [hcalls, htokens]
      exact hpaid x
    have hattempt := tried_wastes (w := w) htried hselected
    simp only [hsame] at hattempt
    rw [hiff]
    exact hattempt

/-- A loop from a clean log wastes a token if and only if it gets to a pass that does. -/
theorem WastePass.loop {pass : Nat → Progress → Pass Progress Forwarded}
    {wastes : Nat → Progress → Prop} (h : WastePass w pass wastes) (guard : Progress → Bool)
    (passes : Nat) (start : Progress) (hstart : start.events = []) :
    (loopWhile guard pass passes 0 start).Satisfies
      (fun p => Wasted w p.events ↔ ReachesHit guard pass wastes passes 0 start)
      fun forwarded => Wasted w forwarded.events ↔ ReachesHit guard pass wastes passes 0 start := by
  have hpaid : CallsPaid start.events := by
    rw [hstart]
    exact fun x => Nat.le_refl 0
  have hclean : ¬Wasted w start.events := by
    rw [hstart]
    exact not_wasted_nil
  have hloop := loopWhile_iff_reachesHit guard h passes 0 start hpaid
  simpa only [hclean, false_or] using hloop

end

theorem wasted_iff_wasteReached (fwd : Forwarder) (turns : Nat → Turn) (req : ForwardRequest)
    (w : World) :
    Wasted w (forward fwd turns req w).events ↔ WasteReached fwd req turns w := by
  rw [forward, WasteReached]
  cases hmaster : fwd.masterKey with
  | none =>
    refine iff_of_false not_wasted_nil ?_
    rintro ⟨masterKey, _, hsome, _⟩
    cases hsome
  | some masterKey =>
  cases hbase : fwd.providerBaseUrl req.provider with
  | error error =>
    refine iff_of_false not_wasted_nil ?_
    rintro ⟨_, _, _, hok, _⟩
    cases hok
  | ok baseUrl =>
  simp only [Option.some.injEq, Except.ok.injEq, exists_eq_left', exists_and_left]
  cases req.pinnedApiKeyId.bind fun id => (pinnedKey? req w id).map fun _ => id with
  | some id =>
    have hloop := (pinnedPass_wastes fwd masterKey baseUrl req turns w id).loop (fun _ => true)
      (fwd.totalAttempts req.provider) { world := w, lastApiKeyId := some id } rfl
    obtain ⟨forwarded, hdone⟩ :=
      pinnedLoop_done fwd masterKey baseUrl req turns id { world := w, lastApiKeyId := some id }
    simp only [forwardPinned]
    rw [hdone] at hloop ⊢
    exact hloop
  | none =>
    have hloop := (pooledPass_wastes fwd masterKey baseUrl req turns w).loop
      (fun p => decide (p.upstreamAttempts < fwd.totalAttempts req.provider))
      (maxSelectionTries (fwd.totalAttempts req.provider)) { world := w } rfl
    simp only [forwardPooled]
    split
    · next forwarded heq =>
      rw [heq] at hloop
      exact hloop
    · next p heq =>
      rw [heq] at hloop
      exact hloop

/-- The tokens a forward takes from the bucket of a key pay for calls with it, unless the forward
gets to an attempt that wastes one. -/
theorem tokens_pay_for_calls (fwd : Forwarder) (turns : Nat → Turn) (req : ForwardRequest)
    (w : World) :
    (∀ id, tokensTaken w id (forward fwd turns req w).events ≤
      callsWith id (forward fwd turns req w).events) ↔
      ¬WasteReached fwd req turns w := by
  rw [← wasted_iff_wasteReached, Wasted, not_exists]
  exact forall_congr' fun id => Nat.not_lt.symm

/-- A key that is busy once and then answers. -/
def busyOnceTurns (i : Nat) : Turn :=
  { Turn.unhindered 0 0 (.response { statusCode := 200 }) with
    tryAcquire := fun _ _ => .ok (decide (0 < i)) }

/-- Two tokens are paid for one call where the first lease is refused. -/
theorem refused_lease_costs_token :
    ¬∀ id, tokensTaken (servedWorld 5) id
      (forward defaultForwarder busyOnceTurns scrapeRequest (servedWorld 5)).events ≤
      callsWith id
        (forward defaultForwarder busyOnceTurns scrapeRequest (servedWorld 5)).events := by
  intro h
  have htokens : tokensTaken (servedWorld 5) 1
      (forward defaultForwarder busyOnceTurns scrapeRequest (servedWorld 5)).events =
        2 := by decide
  have hcalls :
      callsWith 1 (forward defaultForwarder busyOnceTurns scrapeRequest (servedWorld 5)).events =
        1 := by
    decide
  have hle := h 1
  rw [htokens, hcalls] at hle
  omega

end Fcam

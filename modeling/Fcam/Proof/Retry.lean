import Fcam.Model.LiveForward
import Fcam.Proof.RateLimit
import Fcam.Proof.Busy
import Fcam.Proof.Rotation

/-!
# Retries of a forward over the pool

Behind a call the called key is the last in the order, so a key that can be called stays before it
until a pass comes to it. What can be called at one pass can be called at the next ones, as long as
time goes forward and nobody else puts the key off.
-/

namespace Fcam

/-! ### What can be called later -/

/-- Between two passes no clock has gone back, no day has begun for which the key already has a
counter, and nobody has put the key off in the cooldown store. -/
structure LiveTurn.Later (id : Nat) (key : ApiKey) (earlier later : LiveTurn) : Prop where
  monotonic : earlier.monotonic ≤ later.monotonic
  now : earlier.pool.reading.now ≤ later.pool.reading.now
  today : key.quotaResetAt = some later.pool.reading.today →
    key.quotaResetAt = some earlier.pool.reading.today
  remaining : ∀ seconds, later.pool.remainingSeconds id = .ok (some seconds) → 0 < seconds →
    ∃ before, earlier.pool.remainingSeconds id = .ok (some before) ∧ seconds ≤ before

theorem backsOff_lazyReset (today : Day) (key : ApiKey) :
    backsOff (lazyReset today key) = backsOff key := by
  rw [lazyReset]
  split
  · rfl
  by_cases heq : key.status = .quotaExceeded
  · simp only [backsOff, heq, if_true]
    rfl
  · simp only [backsOff, if_neg heq]

theorem lazyReset_status_of_backsOff {today : Day} {key : ApiKey} (h : backsOff key = true) :
    (lazyReset today key).status = key.status := by
  rw [lazyReset]
  split
  · rfl
  · have hne : key.status ≠ .quotaExceeded := by
      intro heq
      simp [backsOff, heq] at h
    simp [hne]

theorem cooldownRemainingSeconds_anti {key key' : ApiKey}
    (hsame : key'.cooldownUntil = key.cooldownUntil) {now later : Instant} (hle : now ≤ later) :
    cooldownRemainingSeconds key' later ≤ cooldownRemainingSeconds key now := by
  unfold cooldownRemainingSeconds
  rw [hsame]
  cases key.cooldownUntil with
  | none => exact Int.le_refl 0
  | some cooldownUntil =>
    have hseconds : wholeSeconds cooldownUntil later ≤ wholeSeconds cooldownUntil now :=
      Int.tdiv_le_tdiv (by decide) (Int.sub_le_sub_left hle _)
    simp only
    omega

theorem backOffSeconds_cases {env : PoolEnv} {id : Nat} {key : ApiKey} {remaining : Int}
    (h : backOffSeconds env id key = .ok remaining) :
    (key.status ≠ .cooling ∧ remaining = cooldownRemainingSeconds key env.reading.now) ∨
      (key.status = .cooling ∧ ∃ stored, env.remainingSeconds id = .ok stored ∧
        remaining = stored.elim (cooldownRemainingSeconds key env.reading.now)
          (max (cooldownRemainingSeconds key env.reading.now))) := by
  simp only [backOffSeconds, bind, Except.bind, pure, Except.pure] at h
  split at h
  · next hcooling =>
    cases hstore : env.remainingSeconds id with
    | error error =>
      rw [hstore] at h
      cases h
    | ok stored =>
      rw [hstore, Except.ok.injEq] at h
      refine .inr ⟨hcooling, stored, rfl, ?_⟩
      cases stored with
      | none => exact h.symm
      | some seconds => exact h.symm
  · next hother => exact .inl ⟨hother, (Except.ok.inj h).symm⟩

section

variable {id : Nat} {key : ApiKey} {earlier later : LiveTurn}

/-- A back-off that is over stays over. -/
theorem LiveTurn.Later.backOffSeconds (h : earlier.Later id key later)
    (hbacks : backsOff key = true) {remaining remaining' : Int} (hle : remaining ≤ 0)
    (hover : Fcam.backOffSeconds earlier.pool id (lazyReset earlier.pool.reading.today key) =
      .ok remaining)
    (hseconds : Fcam.backOffSeconds later.pool id (lazyReset later.pool.reading.today key) =
      .ok remaining') :
    remaining' ≤ 0 := by
  have hanti :
      cooldownRemainingSeconds (lazyReset later.pool.reading.today key) later.pool.reading.now ≤
        cooldownRemainingSeconds (lazyReset earlier.pool.reading.today key)
          earlier.pool.reading.now :=
    cooldownRemainingSeconds_anti (by simp) h.now
  have hover := backOffSeconds_cases hover
  have hseconds := backOffSeconds_cases hseconds
  rw [lazyReset_status_of_backsOff hbacks] at hover hseconds
  rcases hover with ⟨hother, heq⟩ | ⟨hcooling, stored, hstore, heq⟩
  · rcases hseconds with ⟨_, heq'⟩ | ⟨hcooling, _⟩
    · omega
    · exact absurd hcooling hother
  · rcases hseconds with ⟨hother, _⟩ | ⟨_, stored', hstore', heq'⟩
    · exact absurd hcooling hother
    have hown :
        cooldownRemainingSeconds (lazyReset earlier.pool.reading.today key)
          earlier.pool.reading.now ≤ 0 := by
      cases stored with
      | none => exact heq.ge.trans hle
      | some before => exact (le_max_left _ _).trans (heq.ge.trans hle)
    cases stored' with
    | none => exact heq'.le.trans (hanti.trans hown)
    | some seconds =>
      refine heq'.le.trans (max_le (hanti.trans hown) ?_)
      by_contra hpositive
      obtain ⟨before, hbefore, hgrown⟩ := h.remaining seconds hstore' (by omega)
      rw [hstore, Except.ok.injEq] at hbefore
      subst hbefore
      have hstored : before ≤ remaining := (le_max_right _ _).trans heq.ge
      omega

/-- A key that is eligible stays so, except that the store may fail. -/
theorem LiveTurn.Later.eligible (h : earlier.Later id key later) {row : ApiKey}
    (heligible : examine earlier.pool id key = .ok (.eligible, row)) {verdict : Verdict}
    {row' : ApiKey} (hexamine : examine later.pool id key = .ok (verdict, row')) :
    verdict = .eligible := by
  have hbefore := examine_cases heligible
  have hafter := examine_cases hexamine
  cases hbefore with
  | eligible tested henabled htested hquota =>
  cases hafter with
  | eligible => rfl
  | disabled hdisabled =>
    rw [henabled] at hdisabled
    cases hdisabled
  | cooling remaining _ hbacks hseconds hpositive =>
    rw [backsOff_lazyReset] at hbacks
    rcases htested with ⟨hnot, _⟩ | ⟨_, _, remaining', hover, hle⟩
    · rw [backsOff_lazyReset, hbacks] at hnot
      cases hnot
    · have hstill := h.backOffSeconds hbacks hle hover hseconds
      omega
  | quotaExceeded tested' _ htested' hquota' =>
    have husage := htested.dailyUsage.trans (lazyReset_dailyUsage _ key)
    have husage' := htested'.dailyUsage.trans (lazyReset_dailyUsage _ key)
    have hsame : tested'.dailyQuota = row.dailyQuota := by
      rw [htested.frame, htested'.frame]
      rfl
    have htoday := h.today
    split at husage'
    · next hday =>
      rw [if_pos (htoday hday)] at husage
      omega
    · omega

end

/-! ### Retries -/

section

variable (fwd : Forwarder) (masterKey : Bytes) (baseUrl : String) (req : ForwardRequest)
  (live : Nat → LiveTurn)

/-- The loop over the pool makes another pass. -/
def poolGuard (s : Progress × Stores) : Bool :=
  s.1.upstreamAttempts < fwd.totalAttempts req.provider

/-- One pass of the loop over the pool. -/
def poolPass : Nat → Progress × Stores → Pass (Progress × Stores) (Forwarded × Stores) :=
  livePass live (pooledPass fwd masterKey baseUrl req)

/-- The loop over the pool gets from the start of pass `i` to the start of pass `j`. -/
def PoolReaches (i : Nat) (s : Progress × Stores) (j : Nat) (t : Progress × Stores) : Prop :=
  Reaches (poolGuard fwd req) (poolPass fwd masterKey baseUrl req live) i s j t

/-- Pass `i` selects a key. -/
def Selects (i : Nat) (s : Progress × Stores) (id : Nat) (row : ApiKey) : Prop :=
  (select (live i).pool s.1.world (some req.clientId) req.provider).result = .ok (id, row)

/-- Pass `i` calls a key. -/
def CallsKey (i : Nat) (s : Progress × Stores) (id : Nat) : Prop :=
  ∃ row, Selects req live i s id row ∧ ((live i).turn s.2).Admits id row ∧
    (fwd.decrypt masterKey row).isSome = true

/-- A retry: pass `i` of a forward calls `a` and goes round, to `s`. -/
def Retries (w : World) (stores : Stores) (i a : Nat) (s : Progress × Stores) : Prop :=
  ∃ start, PoolReaches fwd masterKey baseUrl req live 0 ({ world := w }, stores) i start ∧
    CallsKey fwd masterKey req live i start a ∧
      poolPass fwd masterKey baseUrl req live i start = .again s

/-- From `s` on, pass `j` is the first to call a key, and calls `b`. -/
def NextCall (i : Nat) (s : Progress × Stores) (j b : Nat) : Prop :=
  ∃ t, PoolReaches fwd masterKey baseUrl req live i s j t ∧
    t.1.upstreamAttempts = s.1.upstreamAttempts ∧ CallsKey fwd masterKey req live j t b

/-- At the start of pass `i` a key is eligible, can be decrypted, and the limiter and the leases let
it through. -/
structure Available (i : Nat) (s : Progress × Stores) (id : Nat) (key : ApiKey) : Prop where
  row : s.1.world.key? id = some key
  scope : inScope (some req.clientId) req.provider key = true
  eligible : ∃ row, examine (live i).pool id key = .ok (.eligible, row)
  decrypts : (fwd.decrypt masterKey key).isSome = true
  allowed : (s.2.limiter.allow (live i).monotonic id key.rateLimitPerMin).1.1 = true
  free : (s.2.leases.tryAcquire id key.maxConcurrent).1.isSome = true

/-- Pass `i` of a forward goes round, to `s`, because the key was answered 401 or 403 or cannot be
decrypted. -/
def Rejects (w : World) (stores : Stores) (i a : Nat) (s : Progress × Stores) : Prop :=
  ∃ start row, PoolReaches fwd masterKey baseUrl req live 0 ({ world := w }, stores) i start ∧
    Selects req live i start a row ∧ ((live i).turn start.2).Admits a row ∧
    (fwd.decrypt masterKey row = none ∨
      ∃ r, (live i).outcome = .response r ∧ (r.statusCode = 401 ∨ r.statusCode = 403)) ∧
    poolPass fwd masterKey baseUrl req live i start = .again s

end

section

variable {fwd : Forwarder} {masterKey : Bytes} {baseUrl : String} {req : ForwardRequest}
  {live : Nat → LiveTurn}
variable {i j : Nat} {s s' t : Progress × Stores} {c : Nat} {key : ApiKey}

theorem poolPass_again (h : poolPass fwd masterKey baseUrl req live i s = .again s') :
    pooledPass fwd masterKey baseUrl req (fun _ => (live i).turn s.2) i s.1 = .again s'.1 ∧
      s'.2 = (s'.1.events.drop s.1.events.length).foldl (Stores.logged (live i).monotonic s.1.world)
        s.2 := by
  simp only [poolPass, livePass] at h
  split at h
  · next p' hpass =>
    obtain rfl := Pass.again.inj h
    exact ⟨hpass, rfl⟩
  · cases h

/-- The stores hold for a key what they held. -/
def SameEntries (c : Nat) (stores stores' : Stores) : Prop :=
  stores'.limiter.buckets c = stores.limiter.buckets c ∧
    stores'.leases.states c = stores.leases.states c

theorem sameEntries_logged {monotonic : ℚ} {w : World} {events : List Event}
    (hother : ∀ event ∈ events, event.key? ≠ some c) (stores : Stores) :
    SameEntries c stores (events.foldl (Stores.logged monotonic w) stores) := by
  induction events generalizing stores with
  | nil => exact ⟨rfl, rfl⟩
  | cons event events ih =>
    have hfirst := logged_of_ne monotonic w stores (hother event List.mem_cons_self)
    have hrest :=
      ih (fun e he => hother e (List.mem_cons_of_mem _ he)) (stores.logged monotonic w event)
    exact ⟨hrest.1.trans hfirst.1, hrest.2.trans hfirst.2⟩

/-- A pass changes the stores for the key it tries only. -/
theorem PooledStep.sameEntries {id : Nat} {stored row : ApiKey} {passed rest : List Nat}
    (hpass : poolPass fwd masterKey baseUrl req live i s = .again s')
    (hstep : PooledStep fwd masterKey baseUrl req ((live i).turn s.2) s.1 s'.1 id stored row passed
      rest) (hne : c ≠ id) :
    SameEntries c s.2 s'.2 := by
  obtain ⟨⟨more, hevents, hmore⟩, _⟩ := hstep.tried.grows
  rw [(poolPass_again hpass).2]
  apply sameEntries_logged
  intro event hmem heq
  rw [hevents] at hmem
  simp only [Progress.selected, Progress.log, List.append_assoc, List.drop_left] at hmem
  rcases List.mem_append.mp hmem with hexamined | hold
  · rw [List.mem_singleton] at hexamined
    subst hexamined
    cases heq
  · exact hne (hmore event hold c heq)

/-- What is available stays available while nothing touches its row and its entries. -/
theorem Available.later (h : Available fwd masterKey req live i s c key)
    (hlater : (live i).Later c key (live j)) (hentries : SameEntries c s.2 t.2) {row : ApiKey}
    (hrow : row = withScheduling key row) :
    ((live j).turn t.2).Admits c row ∧ (fwd.decrypt masterKey row).isSome = true := by
  have hallowed := TokenBucketRateLimiter.allow_later h.allowed hlater.monotonic
  rw [← (TokenBucketRateLimiter.allow_congr (live j).monotonic key.rateLimitPerMin
    hentries.1).1] at hallowed
  have hfree := h.free
  rw [← (ConcurrencyManager.tryAcquire_congr key.maxConcurrent hentries.2).1] at hfree
  rw [hrow]
  refine ⟨⟨⟨_, congrArg Except.ok (Prod.ext hallowed rfl)⟩, congrArg Except.ok hfree⟩, h.decrypts⟩

/-- A key that is let through and can be decrypted is called. -/
theorem Tried.calls {turn : Turn} {id : Nat} {row : ApiKey} {p p' : Progress}
    (h : Tried fwd masterKey baseUrl req turn id row p (.again p')) (hadmits : turn.Admits id row)
    (hdecrypts : (fwd.decrypt masterKey row).isSome = true) :
    p'.upstreamAttempts = p.upstreamAttempts + 1 := by
  generalize hpass : Pass.again p' = pass at h
  cases h with
  | passedOver more retryCount hmore hnot => exact absurd hadmits hnot
  | disabled retryCount hsecret =>
    rw [hsecret] at hdecrypts
    cases hdecrypts
  | again plaintextKey =>
    cases hpass
    rfl
  | refused => cases hpass
  | undecryptable => cases hpass
  | failed => cases hpass
  | gaveUp => cases hpass
  | answered => cases hpass

/-- From a retry on, until the next call: the available key is as it was, and is looked at before
the one called. -/
structure Between (fwd : Forwarder) (masterKey : Bytes) (req : ForwardRequest) (c a : Nat)
    (key : ApiKey) (s t : Progress × Stores) : Prop where
  row : t.1.world.key? c = some key
  before : [c, a].Sublist (keyOrder t.1.world (some req.clientId) req.provider)
  entries : SameEntries c s.2 t.2

/-- A selection that looks at an available key takes it. -/
theorem Between.not_passed {a : Nat} (h : Between fwd masterKey req c a key s t)
    (havailable : Available fwd masterKey req live i s c key)
    (hlater : (live i).Later c key (live j)) {passed : List Nat}
    (hskipped : ∀ other ∈ passed, ∃ before verdict after, t.1.world.key? other = some before ∧
      examine (live j).pool other before = .ok (verdict, after) ∧ verdict ≠ .eligible) :
    c ∉ passed := by
  intro hmem
  obtain ⟨before, verdict, after, hbefore, hexamine, hne⟩ := hskipped c hmem
  rw [h.row, Option.some.injEq] at hbefore
  subst hbefore
  obtain ⟨row, heligible⟩ := havailable.eligible
  exact hne (hlater.eligible heligible hexamine)

/-- A pass that calls no key leaves the available key where it is, before the one called. -/
theorem Between.again {a : Nat} (h : Between fwd masterKey req c a key s t)
    (havailable : Available fwd masterKey req live i s c key)
    (hlater : (live i).Later c key (live j)) {t' : Progress × Stores}
    (hpass : poolPass fwd masterKey baseUrl req live j t = .again t')
    (hnone : t'.1.upstreamAttempts = t.1.upstreamAttempts) :
    Between fwd masterKey req c a key s t' := by
  obtain ⟨x, stored, row, passed, rest, hstep⟩ := pooledPass_step (poolPass_again hpass).1
  have hpassed : c ∉ passed := h.not_passed havailable hlater hstep.skipped
  have hne : c ≠ x := by
    rintro rfl
    have hstored := hstep.stored
    rw [h.row, Option.some.injEq] at hstored
    subst hstored
    obtain ⟨hadmits, hdecrypts⟩ :=
      havailable.later hlater h.entries (examine_cases hstep.eligible).frame
    have hcalled : t'.1.upstreamAttempts = t.1.upstreamAttempts + 1 :=
      hstep.tried.calls hadmits hdecrypts
    omega
  have hbefore := h.before
  have hnodup := keyOrder_nodup t.1.world (some req.clientId) req.provider
  rw [hstep.before] at hbefore hnodup
  have hentries := hstep.sameEntries hpass hne
  refine ⟨hstep.kept c key h.row hne (.inl hpassed), ?_, hentries.1.trans h.entries.1,
    hentries.2.trans h.entries.2⟩
  rw [hstep.after]
  exact (sublist_nextOrder hnodup hbefore hpassed hne).2

theorem PooledStep.upstreamAttempts_le {turn : Turn} {p p' : Progress} {id : Nat}
    {stored row : ApiKey} {passed rest : List Nat}
    (h : PooledStep fwd masterKey baseUrl req turn p p' id stored row passed rest) :
    p.upstreamAttempts ≤ p'.upstreamAttempts :=
  h.tried.grows.2

theorem PooledStep.eq_of_selects {p' : Progress} {x a : Nat} {stored row row' : ApiKey}
    {passed rest : List Nat}
    (hstep : PooledStep fwd masterKey baseUrl req ((live i).turn s.2) s.1 p' x stored row passed
      rest) (hselects : Selects req live i s a row') : x = a ∧ row = row' := by
  have hsame := hstep.selected.symm.trans hselects
  rwa [Except.ok.injEq, Prod.mk.injEq] at hsame

/-- Until the next call the available key stays before the one called. -/
theorem between_of_reaches {a : Nat} (havailable : Available fwd masterKey req live i s c key)
    (hlater : ∀ k, i ≤ k → k ≤ j → (live i).Later c key (live k))
    (hstart : Between fwd masterKey req c a key s s)
    (hreaches : PoolReaches fwd masterKey baseUrl req live i s j t)
    (hnone : t.1.upstreamAttempts = s.1.upstreamAttempts) :
    Between fwd masterKey req c a key s t := by
  have hstep : ∀ k u u', k < j →
      (i ≤ k ∧ s.1.upstreamAttempts ≤ u.1.upstreamAttempts ∧
        (u.1.upstreamAttempts = s.1.upstreamAttempts → Between fwd masterKey req c a key s u)) →
      poolGuard fwd req u = true → poolPass fwd masterKey baseUrl req live k u = .again u' →
      i ≤ k + 1 ∧ s.1.upstreamAttempts ≤ u'.1.upstreamAttempts ∧
        (u'.1.upstreamAttempts = s.1.upstreamAttempts →
         Between fwd masterKey req c a key s u') := by
    rintro k u u' hk ⟨hik, hcount, hbetween⟩ _ hpass
    obtain ⟨_, _, _, _, _, hpooled⟩ := pooledPass_step (poolPass_again hpass).1
    have hmore := hpooled.upstreamAttempts_le
    refine ⟨by omega, by omega, fun hsame => ?_⟩
    exact (hbetween (by omega)).again havailable (hlater k hik (by omega)) hpass (by omega)
  have hend := hreaches.invariant hstep ⟨Nat.le_refl i, Nat.le_refl _, fun _ => hstart⟩
  exact hend.2.2 hnone

/-- Behind a call every other key of the scope is looked at before the called one. -/
theorem between_of_retries {w : World} {stores : Stores} {a : Nat} (hne : c ≠ a)
    (hretries : Retries fwd masterKey baseUrl req live w stores i a s)
    (hrow : s.1.world.key? c = some key)
    (hscope : inScope (some req.clientId) req.provider key = true) :
    Between fwd masterKey req c a key s s := by
  obtain ⟨start, _, ⟨row, hselects, _⟩, hpass⟩ := hretries
  obtain ⟨x, stored, row', passed, rest, hstep⟩ := pooledPass_step (poolPass_again hpass).1
  obtain ⟨rfl, _⟩ := hstep.eq_of_selects hselects
  refine ⟨hrow, ?_, rfl, rfl⟩
  have hmem : c ∈ keyOrder s.1.world (some req.clientId) req.provider :=
    mem_keyOrder.mpr ⟨key, hrow, hscope⟩
  rw [hstep.after] at hmem ⊢
  exact sublist_nextOrder_of_picked (perm_nextOrder.mem_iff.mp hmem) hne

/-! ### A key that was rejected -/

/-- The attempt with a key that is rejected disables it. -/
theorem Tried.disables {turn : Turn} {id : Nat} {row : ApiKey} {p p' : Progress}
    (h : Tried fwd masterKey baseUrl req turn id row p (.again p'))
    (hrow : p.world.key? id = some row) (hadmits : turn.Admits id row)
    (hrejected : fwd.decrypt masterKey row = none ∨
      ∃ r, turn.outcome = .response r ∧ (r.statusCode = 401 ∨ r.statusCode = 403)) :
    ∃ after, p'.world.key? id = some after ∧ isDisabled after = true := by
  generalize hpass : Pass.again p' = pass at h
  cases h with
  | passedOver more retryCount hmore hnot => exact absurd hadmits hnot
  | disabled retryCount hsecret =>
    cases hpass
    exact ⟨_, (rowUpdated_modifyKey p.world id disableKeyDecryptFailed).self hrow, rfl⟩
  | again plaintextKey retryCount _ hsecret houtcome =>
    cases hpass
    rcases hrejected with hnone | ⟨r, hresponse, hstatus⟩
    · rw [hsecret] at hnone
      cases hnone
    · have hsettled :=
        (settle_row fwd.config req.method req.upstreamPath turn.outcome turn.settledAt req.clientId
         id
        p.world).self hrow
      refine ⟨_, hsettled, ?_⟩
      rw [hresponse, settleRow, if_neg (by omega), if_pos hstatus]
      rfl
  | refused => cases hpass
  | undecryptable => cases hpass
  | failed => cases hpass
  | gaveUp => cases hpass
  | answered => cases hpass

theorem not_disabled_of_eligible {env : PoolEnv} {id : Nat} {row : ApiKey}
    (h : examine env id key = .ok (.eligible, row)) : isDisabled key = false := by
  rcases (examine_cases h).counter with ⟨_, hverdict, _⟩ | ⟨henabled, _⟩
  · cases hverdict
  · exact henabled

/-- A key that is disabled is not selected again. -/
theorem not_selects_of_disabled {a : Nat} {row : ApiKey} (hrow : s.1.world.key? a = some row)
    (hdisabled : isDisabled row = true)
    (hreaches : PoolReaches fwd masterKey baseUrl req live i s j t) (row' : ApiKey) :
    ¬Selects req live j t a row' := by
  have hstep : ∀ k u u', k < j → u.1.world.key? a = some row → poolGuard fwd req u = true →
      poolPass fwd masterKey baseUrl req live k u = .again u' → u'.1.world.key? a = some row := by
    intro k u u' _ hkept _ hpass
    obtain ⟨x, stored, _, passed, rest, hpooled⟩ := pooledPass_step (poolPass_again hpass).1
    refine hpooled.kept a row hkept ?_ (.inr hdisabled)
    rintro rfl
    have hstored := hpooled.stored
    have henabled := not_disabled_of_eligible hpooled.eligible
    rw [hkept, Option.some.injEq] at hstored
    rw [← hstored, hdisabled] at henabled
    cases henabled
  intro hselects
  obtain ⟨_, key, hkey, _, hexamines⟩ := select_ok hselects
  rw [hreaches.invariant hstep hrow, Option.some.injEq] at hkey
  subst hkey
  rcases hexamines.counter with ⟨_, hverdict, _⟩ | ⟨henabled, _⟩
  · cases hverdict
  · rw [hdisabled] at henabled
    cases henabled

end

/-- At every retry of a forward where another key is available, and as long as that holds by the
clock and the cooldown store, the next call uses another key; and a rejected key is not selected
again. -/
theorem retry_switches_key (fwd : Forwarder) (masterKey : Bytes) (baseUrl : String)
    (req : ForwardRequest) (live : Nat → LiveTurn) (w : World) (stores : Stores) :
    (∀ i a s j b c key, Retries fwd masterKey baseUrl req live w stores i a s →
      NextCall fwd masterKey baseUrl req live (i + 1) s j b → c ≠ a →
      Available fwd masterKey req live (i + 1) s c key →
      (∀ k, i + 1 ≤ k → k ≤ j → (live (i + 1)).Later c key (live k)) → b ≠ a) ∧
    ∀ i a s j t row, Rejects fwd masterKey baseUrl req live w stores i a s →
      PoolReaches fwd masterKey baseUrl req live (i + 1) s j t → ¬Selects req live j t a row := by
  constructor
  · intro i a s j b c key hretries hnext hne havailable hlater
    obtain ⟨t, hreaches, hnone, row, hselects, _⟩ := hnext
    have hstart := between_of_retries hne hretries havailable.row havailable.scope
    have hbetween := between_of_reaches havailable hlater hstart hreaches hnone
    obtain ⟨passed, rest, _, horder, _, _, _, _, hskipped⟩ := select_order hselects
    have hpassed : c ∉ passed :=
      hbetween.not_passed havailable (hlater j hreaches.le (Nat.le_refl j)) hskipped
    have hbefore := hbetween.before
    have hnodup := keyOrder_nodup t.1.world (some req.clientId) req.provider
    rw [horder] at hbefore hnodup
    by_cases hc : c = b
    · exact hc ▸ hne
    · exact (sublist_nextOrder hnodup hbefore hpassed hc).1.symm
  · rintro i a s j t row ⟨start, before, _, hselects, hadmits, hrejected, hpass⟩ hreaches
    obtain ⟨x, stored, row', passed, rest, hstep⟩ := pooledPass_step (poolPass_again hpass).1
    obtain ⟨rfl, rfl⟩ := hstep.eq_of_selects hselects
    obtain ⟨after, hafter, hdisabled⟩ :=
      hstep.tried.disables (select_ok hselects).1 hadmits hrejected
    exact not_selects_of_disabled hafter hdisabled hreaches row

/-- A key that backs off until the tenth second. -/
def coolingKey : ApiKey :=
  { clientId := some 1
    apiKeyCiphertext := [107]
    rateLimitPerMin := 0
    status := .cooling
    cooldownUntil := some 10000000 }

/-- Three keys of a client: one to call, one at its concurrency limit, and one that backs off. -/
def backingOffWorld : World :=
  { db :=
      { keys :=
          ((Table.empty.insert
            { clientId := some 1, apiKeyCiphertext := [107], rateLimitPerMin := 0 }).insert
              { clientId := some 1, apiKeyCiphertext := [107], rateLimitPerMin := 0 }).insert
                coolingKey } }

def backingOffStores : Stores :=
  { leases := { states := fun id => if id = 2 then some { current := 2, maximum := 2 } else none } }

/-- The wall clock shows the tenth second at the second pass only. -/
def steppedBack (i : Nat) : LiveTurn :=
  { pool :=
      { reading := { now := if i = 1 then 10000000 else 0, today := 0 }
        secondsUntilNextMidnight := 0
        remainingSeconds := fun _ => .ok none }
    monotonic := 0
    outcome := .response { statusCode := 500 }
    settledAt := 0 }

/-- The key whose back-off is over at the retry is passed over when the clock has gone back, and the
first key is called again. -/
theorem not_retry_switches_key :
    ¬∀ i a s j b c key, Retries defaultForwarder [] "" scrapeRequest steppedBack backingOffWorld
      backingOffStores i a s →
      NextCall defaultForwarder [] "" scrapeRequest steppedBack (i + 1) s j b → c ≠ a →
      Available defaultForwarder [] scrapeRequest steppedBack (i + 1) s c key → b ≠ a := by
  intro h
  refine h 0 1 _ 2 1 3 coolingKey ⟨_, .here _ _, ⟨_, rfl, ⟨⟨_, rfl⟩, rfl⟩, rfl⟩, rfl⟩ ?_ (by decide)
    ?_ rfl
  · exact ⟨_, .again rfl rfl (.here _ _), rfl, ⟨_, rfl, ⟨⟨_, rfl⟩, rfl⟩, rfl⟩⟩
  · exact ⟨rfl, rfl, ⟨_, rfl⟩, rfl, rfl, rfl⟩

end Fcam

import Fcam.Proof.Rotation

/-!
# When every key is busy

A forward over the pool ends with `ALL_KEYS_BUSY` where its passes run out before a call. By then it
has come to every key that was eligible throughout, if it has passes for all of them: each pass
moves the key it tries behind the others.
-/

namespace Fcam

/-- The state backends raise nothing but `DB_UNAVAILABLE`. -/
structure Turn.Backend (turn : Turn) : Prop where
  allow : ∀ id ratePerMin error, turn.allow id ratePerMin = .error error →
    error.code = .dbUnavailable
  tryAcquire :
    ∀ id maximum error, turn.tryAcquire id maximum = .error error → error.code = .dbUnavailable
  remainingSeconds :
    ∀ id error, turn.pool.remainingSeconds id = .error error → error.code = .dbUnavailable

/-- The forward raises `ALL_KEYS_BUSY`. -/
def Forwarded.endsBusy (forwarded : Forwarded) : Bool :=
  match forwarded.result with
  | .error (.fcam error) => error.code == .allKeysBusy
  | _ => false

/-- A selection of the forward has come to the key and picked it, and the key has been disabled
since. -/
structure FoundUndecryptable (events : List Event) (w : World) (id : Nat) : Prop where
  picked : ∃ today examined row, .examined today examined ∈ events ∧
    ⟨id, .eligible, row⟩ ∈ examined
  disabled : ∃ row, w.key? id = some row ∧ row.status = .decryptFailed ∧ row.isActive = false

/-- What a forward finds of a key it tries and cannot call. -/
def FoundUnusable (fwd : Forwarder) (forwarded : Forwarded) (id : Nat) (key : ApiKey) : Prop :=
  .rateLimited id ∈ forwarded.events ∨ .busy id ∈ forwarded.events ∨
    (∀ masterKey, fwd.masterKey = some masterKey → fwd.decrypt masterKey key = none) ∧
      FoundUndecryptable forwarded.events forwarded.world id

theorem Forwarded.not_endsBusy {p : Progress} {error : FcamError}
    (hcode : error.code ≠ .allKeysBusy) :
    ¬(p.raise error).endsBusy = true :=
  fun hends => hcode (beq_iff_eq.mp hends)

theorem Forwarded.respond_not_endsBusy (p : Progress) (r : UpstreamResponse) :
    ¬(p.respond r).endsBusy = true := by
  unfold Forwarded.endsBusy Progress.respond toFastapiResponse mkResponse
  split
  · next error hresult =>
    split at hresult
    · cases hresult
    · cases hresult
  · exact Bool.false_ne_true

theorem providerBaseUrl_code {fwd : Forwarder} {provider : Provider} {error : FcamError}
    (h : fwd.providerBaseUrl provider = .error error) : error.code ≠ .allKeysBusy := by
  cases provider with
  | firecrawl => cases h
  | exa =>
    simp only [Forwarder.providerBaseUrl] at h
    split at h
    · cases h
    · cases h
      simp

section Codes

variable {env : PoolEnv}

theorem exhaustedError_code (clientId : Option Nat) (examined : List Examined) :
    (exhaustedError env clientId examined).code ≠ .allKeysBusy := by
  intro h
  obtain hcode | ⟨hcode, -⟩ | ⟨hcode, -⟩ | hcode := exhaustedError_cases env clientId examined
  all_goals cases h.symm.trans hcode

theorem select_error_code (hstore :
    ∀ id error, env.remainingSeconds id = .error error → error.code = .dbUnavailable) {w : World}
      {clientId : Option Nat} {provider : Provider} {error : FcamError}
    (h : (select env w clientId provider).result = .error error) : error.code ≠ .allKeysBusy := by
  rw [select] at h
  simp only at h
  split at h
  · cases h
    simp [noKeyConfigured]
  split at h
  · cases h
    simp [allKeysDisabled]
  split at h
  · next hscan =>
    cases h
    obtain ⟨id, hraised⟩ := scan_raised (congrArg Prod.fst hscan)
    rw [hstore id _ hraised]
    simp
  · cases h
    exact exhaustedError_code _ _
  · cases h

end Codes

section

variable {fwd : Forwarder} {masterKey : Bytes} {baseUrl : String} {req : ForwardRequest}
  {turns : Nat → Turn}

theorem pooledPass_not_endsBusy {i : Nat} (hbackend : (turns i).Backend) {p : Progress}
    {forwarded : Forwarded} (h : pooledPass fwd masterKey baseUrl req turns i p = .done forwarded) :
    ¬forwarded.endsBusy = true := by
  have hraise :
      ∀ {p : Progress} {error}, error.code ≠ .allKeysBusy → ¬(p.raise error).endsBusy = true :=
        fun hcode =>
    Forwarded.not_endsBusy hcode
  rw [pooledPass] at h
  simp only at h
  split at h
  · next error hresult =>
    cases h
    apply hraise
    split
    · simp [keyDecryptFailed]
    · exact select_error_code hbackend.remainingSeconds hresult
  split at h
  · next error hallow =>
    cases h
    exact hraise (by rw [hbackend.allow _ _ _ hallow]; simp)
  · cases h
  split at h
  · next error hlease =>
    cases h
    exact hraise (by rw [hbackend.tryAcquire _ _ _ hlease]; simp)
  · cases h
  split at h
  · cases h
  split at h
  · cases h
    simp [Forwarded.endsBusy, Progress.fail]
  · cases h
    simp [Forwarded.endsBusy, Progress.fail]
  · split at h
    · cases h
      exact hraise (by simp [upstreamTimeout])
    · cases h
  · split at h
    · cases h
      exact hraise (by simp [upstreamUnavailable])
    · cases h
  · split at h
    · cases h
    · cases h
      exact Forwarded.respond_not_endsBusy _ _

/-- A key of the scope that is not disabled. -/
def enabledIn (w : World) (id : Nat) : Bool := (w.key? id).any fun key => !isDisabled key

/-- What a forward that has not come to a key yet keeps: the row, and how many passes the key has to
wait. -/
structure AwaitsPass (w : World) (req : ForwardRequest) (id : Nat) (key : ApiKey) (i : Nat)
    (p : Progress) : Prop where
  row : p.world.key? id = some key
  disabled : ∀ other before, w.key? other = some before → isDisabled before = true →
    p.world.key? other = some before
  order : List.Perm (keyOrder p.world (some req.clientId) req.provider)
    (keyIds w (some req.clientId) req.provider)
  wait : i + (ahead id (keyOrder p.world (some req.clientId) req.provider)).countP (enabledIn w) <
    (keyIds w (some req.clientId) req.provider).countP (enabledIn w)

/-- What a forward can have done with a key it has come to. -/
def CameTo (fwd : Forwarder) (masterKey : Bytes) (id : Nat) (key : ApiKey) (p : Progress) : Prop :=
  .rateLimited id ∈ p.events ∨ .busy id ∈ p.events ∨
    (fwd.decrypt masterKey key = none ∧ FoundUndecryptable p.events p.world id) ∨
    0 < p.upstreamAttempts

theorem CameTo.again {turn : Turn} {id other : Nat} {key stored row : ApiKey}
    {passed rest : List Nat} {p p' : Progress} (h : CameTo fwd masterKey id key p)
    (hstep : PooledStep fwd masterKey baseUrl req turn p p' other stored row passed rest) :
    CameTo fwd masterKey id key p' := by
  obtain ⟨⟨more, hevents, _⟩, hattempts⟩ := hstep.tried.grows
  have hkept : ∀ event ∈ p.events, event ∈ p'.events := by
    intro event hmem
    rw [hevents]
    exact List.mem_append_left _ (List.mem_append_left _ hmem)
  have hcounted : p.upstreamAttempts ≤ p'.upstreamAttempts := hattempts
  rcases h with hlimited | hbusy | ⟨hsecret, hpicked, row', hrow, hstatus, hactive⟩ | hcalled
  · exact .inl (hkept _ hlimited)
  · exact .inr (.inl (hkept _ hbusy))
  · obtain ⟨today, examined, picked, hexamined, hmem⟩ := hpicked
    have hdisabled : isDisabled row' = true := by simp [isDisabled, hactive]
    refine .inr (.inr (.inl ⟨hsecret, ⟨today, examined, picked, hkept _ hexamined, hmem⟩, row', ?_,
      hstatus, hactive⟩))
    refine hstep.kept id row' hrow ?_ (.inr hdisabled)
    -- A disabled key is not tried again.
    rintro rfl
    have hstored := hstep.stored
    rw [hrow, Option.some.injEq] at hstored
    subst hstored
    rcases (examine_cases hstep.eligible).counter with ⟨_, hverdict, _⟩ | ⟨henabled, _⟩
    · cases hverdict
    · rw [henabled] at hdisabled
      cases hdisabled
  · exact .inr (.inr (.inr (by omega)))

theorem PooledStep.cameTo {turn : Turn} {id : Nat} {key row : ApiKey} {passed rest : List Nat}
    {p p' : Progress}
    (hstep : PooledStep fwd masterKey baseUrl req turn p p' id key row passed rest) :
    CameTo fwd masterKey id key p' := by
  have hrow : row = withScheduling key row := (examine_cases hstep.eligible).frame
  have htried := hstep.tried
  generalize hpass : Pass.again p' = pass at htried
  cases htried with
  | passedOver more retryCount hmore =>
    cases hpass
    rcases hmore with rfl | rfl
    · exact .inl (List.mem_append_right _ (by simp))
    · exact .inr (.inl (List.mem_append_right _ (by simp)))
  | disabled retryCount hsecret =>
    cases hpass
    rw [hrow] at hsecret
    obtain ⟨hpicked, -⟩ := select_selected hstep.selected
    refine .inr (.inr (.inl ⟨hsecret, ⟨turn.pool.reading.today, _, row, ?_, hpicked⟩, ?_⟩))
    · exact List.mem_append_left _ (List.mem_append_right _ (List.mem_singleton_self _))
    · obtain ⟨hselected, -⟩ := select_ok hstep.selected
      refine ⟨disableKeyDecryptFailed row, ?_, rfl, rfl⟩
      simp [Progress.undecrypted, Progress.selected, Progress.log, hselected]
  | again plaintextKey =>
    cases hpass
    exact .inr (.inr (.inr (Nat.succ_pos _)))
  | refused => cases hpass
  | undecryptable => cases hpass
  | failed => cases hpass
  | gaveUp => cases hpass
  | answered => cases hpass

/-- A pass comes to the key, or tries another one and leaves the key one pass less to wait. -/
theorem AwaitsPass.again {w : World} {id i : Nat} {key : ApiKey} {p p' : Progress}
    (h : AwaitsPass w req id key i p) (hmem : id ∈ keyIds w (some req.clientId) req.provider)
    (heligible : ∃ row, examine (turns i).pool id key = .ok (.eligible, row))
    (hpass : pooledPass fwd masterKey baseUrl req turns i p = .again p') :
    AwaitsPass w req id key (i + 1) p' ∨ CameTo fwd masterKey id key p' := by
  obtain ⟨x, stored, row, passed, rest, hstep⟩ := pooledPass_step hpass
  by_cases heq : x = id
  · subst heq
    have hstored := hstep.stored
    rw [h.row, Option.some.injEq] at hstored
    subst hstored
    exact .inr hstep.cameTo
  have hpassed : id ∉ passed := by
    intro hin
    obtain ⟨before, verdict, after, hbefore, hexamine, hne⟩ := hstep.skipped id hin
    obtain ⟨row', hrow'⟩ := heligible
    rw [h.row, Option.some.injEq] at hbefore
    subst hbefore
    rw [hrow', Except.ok.injEq, Prod.mk.injEq] at hexamine
    exact hne hexamine.1.symm
  have hbefore := hstep.before
  have hin : id ∈ passed ++ x :: rest := hbefore ▸ h.order.mem_iff.mpr hmem
  have hrest : id ∈ rest := by
    rw [List.mem_append, List.mem_cons] at hin
    exact (hin.resolve_left hpassed).resolve_left fun h => heq h.symm
  have henabled : isDisabled stored = false := by
    rcases (examine_cases hstep.eligible).counter with ⟨_, hverdict, _⟩ | ⟨henabled, _⟩
    · cases hverdict
    · exact henabled
  refine .inl ⟨hstep.kept id key h.row (Ne.symm heq) (.inl hpassed), ?_, ?_, ?_⟩
  · intro other before hother hdisabled
    have hkept := h.disabled other before hother hdisabled
    refine hstep.kept other before hkept ?_ (.inr hdisabled)
    rintro rfl
    rw [hstep.stored, Option.some.injEq] at hkept
    rw [hkept, hdisabled] at henabled
    cases henabled
  · rw [hstep.after]
    exact perm_nextOrder.trans (hbefore ▸ h.order)
  · have hx : enabledIn w x = true := by
      have hxmem : x ∈ keyIds w (some req.clientId) req.provider :=
        h.order.mem_iff.mp (hbefore ▸ List.mem_append_right _ List.mem_cons_self)
      obtain ⟨first, hfirst, _⟩ := Table.mem_ids_select.mp hxmem
      cases hdisabled : isDisabled first with
      | false => simp [enabledIn, World.key?, hfirst, hdisabled]
      | true =>
        have hkept := h.disabled x first hfirst hdisabled
        rw [hstep.stored, Option.some.injEq] at hkept
        rw [hkept, hdisabled] at henabled
        cases henabled
    have hless := countP_ahead_lt_of_picked hpassed (Ne.symm heq) hrest hx
    have hwait := h.wait
    rw [hbefore] at hwait
    rw [hstep.after]
    omega

end

theorem enabledIn_count (w : World) (clientId : Option Nat) (provider : Provider) :
    (keyIds w clientId provider).countP (enabledIn w) =
      ((w.db.keys.select (inScope clientId provider)).filter fun row =>
        !isDisabled row.2).length := by
  rw [keyIds, List.countP_map, List.countP_eq_length_filter]
  congr 1
  apply List.filter_congr
  intro row hrow
  simp [enabledIn, World.key?, (Table.mem_select.mp hrow).1]

/-- The loop over the pool, with a pass for every key that is not disabled. -/
theorem forwardPooled_tried {fwd : Forwarder} {masterKey : Bytes} {baseUrl : String}
    {req : ForwardRequest} {turns : Nat → Turn} {w : World}
    (hmaster : fwd.masterKey = some masterKey) (hbackend : ∀ i, (turns i).Backend)
    (hbudget : ((w.db.keys.select (inScope (some req.clientId) req.provider)).filter fun row =>
      !isDisabled row.2).length ≤ maxSelectionTries (fwd.totalAttempts req.provider)) {id : Nat}
    {key : ApiKey} (hkey : w.key? id = some key)
    (hscope : inScope (some req.clientId) req.provider key = true)
    (heligible : ∀ i, i < maxSelectionTries (fwd.totalAttempts req.provider) →
      ∃ row, examine (turns i).pool id key = .ok (.eligible, row))
    (hbusy : (forwardPooled fwd masterKey baseUrl req turns { world := w }).endsBusy = true) :
    FoundUnusable fwd (forwardPooled fwd masterKey baseUrl req turns { world := w }) id key := by
  simp only [forwardPooled] at hbusy ⊢
  generalize hloop :
      loopWhile (fun p => decide (p.upstreamAttempts < fwd.totalAttempts req.provider))
    (pooledPass fwd masterKey baseUrl req turns)
      (maxSelectionTries (fwd.totalAttempts req.provider)) 0
    { world := w } = ended at hbusy ⊢
  cases ended with
  | done forwarded =>
    obtain ⟨j, last, _, _, hpass⟩ := loopWhile_done hloop
    exact absurd hbusy (pooledPass_not_endsBusy (hbackend j) hpass)
  | again p =>
    have hmem : id ∈ keyIds w (some req.clientId) req.provider :=
      Table.mem_ids_select.mpr ⟨key, hkey, hscope⟩
    -- without a call the guard has not failed, so every pass was made
    have hnone : p.upstreamAttempts = 0 := by
      by_contra hcalled
      simp only [noAttemptLeft, if_neg hcalled] at hbusy
      exact Forwarded.not_endsBusy (by simp) hbusy
    obtain ⟨j, hreaches, hend⟩ := loopWhile_again hloop
    have hall : j = maxSelectionTries (fwd.totalAttempts req.provider) := by
      rcases hend with hlast | hguard
      · omega
      · have hmore := of_decide_eq_false hguard
        rw [hnone, Forwarder.totalAttempts] at hmore
        omega
    subst hall
    have henabled : enabledIn w id = true := by
      obtain ⟨row, hrow⟩ := heligible 0 (by rw [maxSelectionTries]; omega)
      rcases (examine_cases hrow).counter with ⟨_, hverdict, _⟩ | ⟨henabled, _⟩
      · cases hverdict
      · simp [enabledIn, hkey, henabled]
    have horder :
        List.Perm (keyOrder w (some req.clientId) req.provider)
          (keyIds w (some req.clientId) req.provider) :=
      List.rotate_perm _ _
    have hstart : AwaitsPass w req id key 0 { world := w } := by
      refine ⟨hkey, fun _ _ hother _ => hother, horder, ?_⟩
      rw [← horder.countP_eq, Nat.zero_add]
      exact countP_ahead_lt (horder.mem_iff.mpr hmem) henabled
    have hstep : ∀ k s s', k < maxSelectionTries (fwd.totalAttempts req.provider) →
        AwaitsPass w req id key k s ∨ CameTo fwd masterKey id key s →
        (decide (s.upstreamAttempts < fwd.totalAttempts req.provider)) = true →
        pooledPass fwd masterKey baseUrl req turns k s = .again s' →
        AwaitsPass w req id key (k + 1) s' ∨ CameTo fwd masterKey id key s' := by
      intro k s s' hk hs _ hpass
      rcases hs with hwaits | hcame
      · exact hwaits.again hmem (heligible k hk) hpass
      · obtain ⟨_, _, _, _, _, hstep⟩ := pooledPass_step hpass
        exact .inr (hcame.again hstep)
    rcases hreaches.invariant hstep (.inl hstart) with
      hwaits | hlimited | hbusy | ⟨hsecret, hfound⟩ | hcalled
    · have hwait := hwaits.wait
      rw [enabledIn_count] at hwait
      omega
    · exact .inl hlimited
    · exact .inr (.inl hbusy)
    · refine .inr (.inr ⟨fun masterKey' hmaster' => ?_, ?_⟩)
      · rw [hmaster, Option.some.injEq] at hmaster'
        exact hmaster' ▸ hsecret
      · simp only [noAttemptLeft, if_pos hnone]
        exact hfound
    · omega

/-- With a pass for every key that is not disabled, a forward over the pool that ends with
`ALL_KEYS_BUSY` has tried every key that was eligible at each selection, and could not use it. -/
theorem busy_forward_tried_eligible {fwd : Forwarder} {req : ForwardRequest} {turns : Nat → Turn}
    {w : World} (hpin : req.pinnedApiKeyId.bind (pinnedKey? req w) = none)
    (hbackend : ∀ i, (turns i).Backend)
    (hbudget : ((w.db.keys.select (inScope (some req.clientId) req.provider)).filter fun row =>
      !isDisabled row.2).length ≤ maxSelectionTries (fwd.totalAttempts req.provider))
    (hbusy : (forward fwd turns req w).endsBusy = true) {id : Nat} {key : ApiKey}
    (hkey : w.key? id = some key) (hscope : inScope (some req.clientId) req.provider key = true)
    (heligible : ∀ i, i < maxSelectionTries (fwd.totalAttempts req.provider) →
      ∃ row, examine (turns i).pool id key = .ok (.eligible, row)) :
    FoundUnusable fwd (forward fwd turns req w) id key := by
  simp only [forward] at hbusy ⊢
  split at hbusy
  · exact absurd hbusy (Forwarded.not_endsBusy (by simp [notReady]))
  next masterKey hmaster =>
  split at hbusy
  · next hbase => exact absurd hbusy (Forwarded.not_endsBusy (providerBaseUrl_code hbase))
  next baseUrl hbase =>
  have hunpinned :
      (req.pinnedApiKeyId.bind fun id => (pinnedKey? req w id).map fun _ => id) = none := by
    cases hid : req.pinnedApiKeyId with
    | none => rfl
    | some pinned =>
      rw [hid, Option.bind_some] at hpin
      rw [Option.bind_some, hpin, Option.map_none]
  rw [hunpinned] at hbusy
  simp only [hunpinned]
  exact forwardPooled_tried hmaster hbackend hbudget hkey hscope heligible hbusy

/-- A forward that ends with `ALL_KEYS_BUSY` has found every key that was eligible at each selection
unusable. -/
def BusyIsComplete (fwd : Forwarder) (turns : Nat → Turn) (req : ForwardRequest)
    (w : World) : Prop :=
  (forward fwd turns req w).endsBusy = true → ∀ id key, w.key? id = some key →
    inScope (some req.clientId) req.provider key = true →
    (∀ i, i < maxSelectionTries (fwd.totalAttempts req.provider) →
      ∃ row, examine (turns i).pool id key = .ok (.eligible, row)) →
    FoundUnusable fwd (forward fwd turns req w) id key

/-- A client with 51 keys. -/
def crowdedWorld : World :=
  { db :=
      { keys := (List.replicate 51
          ({ clientId := some 1, apiKeyCiphertext := [107], quotaResetAt := some 0 } :
               ApiKey)).foldl Table.insert .empty } }

/-- The limiter refuses every key but the last. -/
def crowdedTurn : Turn :=
  { Turn.unhindered 0 0 .timeout with allow := fun id _ => .ok (id == 51, some 60) }

def onceForwarder : Forwarder :=
  { defaultForwarder with config := { firecrawl := { maxRetries := 0 } } }

def scrapeRequest : ForwardRequest := { clientId := 1, method := "POST", upstreamPath := "/scrape" }

/-- Fifty rate-limited keys use up the passes, and the free one behind them is never tried. -/
theorem not_busyIsComplete :
    ¬BusyIsComplete onceForwarder (fun _ => crowdedTurn) scrapeRequest crowdedWorld := by
  intro h
  have hbusy : (forward onceForwarder (fun _ => crowdedTurn) scrapeRequest crowdedWorld).endsBusy =
      true := by decide +kernel
  have hfound :=
    h hbusy 51 { clientId := some 1, apiKeyCiphertext := [107], quotaResetAt := some 0 }
    (by decide +kernel) (by decide) fun _ _ => ⟨_, rfl⟩
  have hsilent :
      (forward onceForwarder (fun _ => crowdedTurn) scrapeRequest crowdedWorld).events.all
        (fun event =>
      match event with
      | .rateLimited id => id != 51
      | .busy id => id != 51
      | _ => true) = true := by decide +kernel
  rcases hfound with hlimited | hbusy | ⟨hsecret, -⟩
  · exact absurd (List.all_eq_true.mp hsilent _ hlimited) (by decide)
  · exact absurd (List.all_eq_true.mp hsilent _ hbusy) (by decide)
  · exact absurd (hsecret [] rfl) (by decide)

/-- The limiter refuses every key. -/
def limitedTurn : Turn :=
  { Turn.unhindered 0 0 .timeout with allow := fun _ _ => .ok (false, some 60) }

/-- The one key of the client, refused by the limiter in every pass. -/
theorem busy_forward_tried_eligible_of_limited :
    FoundUnusable defaultForwarder
      (forward defaultForwarder (fun _ => limitedTurn) scrapeRequest (servedWorld 5)) 1
      { clientId := some 1
        apiKeyCiphertext := [107]
        dailyQuota := 5
        quotaResetAt := some 0
        cachedRemainingCredits := some 100 } := by
  have hbackend : limitedTurn.Backend := by
    constructor
    · intro _ _ _ h
      cases h
    · intro _ _ _ h
      cases h
    · intro _ _ h
      cases h
  exact busy_forward_tried_eligible rfl (fun _ => hbackend) (by decide) (by decide +kernel) rfl
    (by decide) fun _ _ => ⟨_, rfl⟩

end Fcam

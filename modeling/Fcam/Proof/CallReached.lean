import Fcam.Proof.AttemptBound

/-!
# Which calls a forward gets to

A forward gets to a call in a pass when the passes before it have gone round and the pass finds a
key that is let through and can be decrypted. `exchanged_iff` ties this to the exchanges a forward
makes, so that a condition on them can be said of the state before a pass.
-/

namespace Fcam

section

variable (fwd : Forwarder) (masterKey : Bytes) (baseUrl : String) (req : ForwardRequest)
  (turns : Nat → Turn)

/-- The pass finds a key of the pool to call. -/
def PooledCalls (i : Nat) (p : Progress) : Prop :=
  ∃ id key, (select (turns i).pool p.world (some req.clientId) req.provider).result =
    .ok (id, key) ∧ (turns i).Admits id key ∧ (fwd.decrypt masterKey key).isSome = true

/-- The attempt calls the pinned key. -/
def PinnedCalls (id i : Nat) (p : Progress) : Prop :=
  ∃ key, p.world.key? id = some key ∧ (turns i).Admits id key ∧
    (fwd.decrypt masterKey key).isSome = true

/-- Some pass of a loop gets to a call with an outcome of a kind. -/
def LoopCalls (guard : Progress → Bool) (pass : Nat → Progress → Pass Progress Forwarded)
    (calls : Nat → Progress → Prop) (passes : Nat) (start : Progress) (kind : Outcome → Prop) :
    Prop :=
  ∃ i p, i < passes ∧ Reaches guard pass 0 start i p ∧ guard p = true ∧ calls i p ∧
    kind (turns i).outcome

/-- The forward gets to a call with an outcome of a kind. -/
def CallReached (w : World) (kind : Outcome → Prop) : Prop :=
  ∃ masterKey baseUrl, fwd.masterKey = some masterKey ∧ fwd.providerBaseUrl req.provider =
    .ok baseUrl ∧
    match req.pinnedApiKeyId.bind fun id => (pinnedKey? req w id).map fun _ => id with
    | some id =>
      LoopCalls turns (fun _ => true) (pinnedPass fwd masterKey baseUrl req turns id)
        (PinnedCalls fwd masterKey turns id) (fwd.totalAttempts req.provider)
        { world := w, lastApiKeyId := some id } kind
    | none =>
      LoopCalls turns (fun p => decide (p.upstreamAttempts < fwd.totalAttempts req.provider))
        (pooledPass fwd masterKey baseUrl req turns) (PooledCalls fwd masterKey req turns)
        (maxSelectionTries (fwd.totalAttempts req.provider)) { world := w } kind

variable {fwd req turns} in
theorem CallReached.outcome {w : World} {kind : Outcome → Prop}
    (h : CallReached fwd req turns w kind) :
    ∃ i, kind (turns i).outcome := by
  obtain ⟨masterKey, baseUrl, _, _, hloop⟩ := h
  split at hloop
  · obtain ⟨i, _, _, _, _, _, hkind⟩ := hloop
    exact ⟨i, hkind⟩
  · obtain ⟨i, _, _, _, _, _, hkind⟩ := hloop
    exact ⟨i, hkind⟩

end

/-! ### Loops of calls -/

/-- What a pass adds to the exchanges. -/
inductive PassLogs (turn : Turn) (calls : Prop) (before after : List Event) : Prop where
  | nothing (hsame : exchangesOf after = exchangesOf before)
      (hnot : calls → ∃ text, turn.outcome = .unsent text)
  | call (e : Exchange) (hmore : exchangesOf after = exchangesOf before ++ [e]) (hcalls : calls)
      (houtcome : e.outcome = turn.outcome)

/-- Every pass adds an exchange where it calls, and nothing else. -/
def CallPass (turns : Nat → Turn) (pass : Nat → Progress → Pass Progress Forwarded)
    (calls : Nat → Progress → Prop) : Prop :=
  ∀ i p, (pass i p).Satisfies (fun p' => PassLogs (turns i) (calls i p) p.events p'.events)
    fun forwarded => PassLogs (turns i) (calls i p) p.events forwarded.events

/-- An exchange of a kind has been made. -/
def Exchanged (kind : Outcome → Prop) (events : List Event) : Prop :=
  ∃ e ∈ exchangesOf events, kind e.outcome

section

variable {turns : Nat → Turn} {pass : Nat → Progress → Pass Progress Forwarded}
  {calls : Nat → Progress → Prop} {guard : Progress → Bool} {kind : Outcome → Prop}

theorem PassLogs.exchanged {turn : Turn} {called : Prop} {before after : List Event}
    (h : PassLogs turn called before after) :
    Exchanged kind after → Exchanged kind before ∨ called ∧ kind turn.outcome := by
  rintro ⟨e, hmem, hkind⟩
  cases h with
  | nothing hsame hnot => exact .inl ⟨e, hsame ▸ hmem, hkind⟩
  | call last hmore hcalls houtcome =>
    rw [hmore, List.mem_append, List.mem_singleton] at hmem
    rcases hmem with hold | rfl
    · exact .inl ⟨e, hold, hkind⟩
    · exact .inr ⟨hcalls, houtcome ▸ hkind⟩

theorem PassLogs.keeps {turn : Turn} {called : Prop} {before after : List Event}
    (h : PassLogs turn called before after) (hbefore : Exchanged kind before) :
    Exchanged kind after := by
  obtain ⟨e, hmem, hkind⟩ := hbefore
  cases h with
  | nothing hsame hnot => exact ⟨e, hsame ▸ hmem, hkind⟩
  | call last hmore hcalls houtcome =>
    rw [Exchanged, hmore]
    exact ⟨e, List.mem_append_left _ hmem, hkind⟩

theorem PassLogs.adds {turn : Turn} {called : Prop} {before after : List Event}
    (h : PassLogs turn called before after) (hcalled : called)
    (hsent : ∀ text, ¬kind (.unsent text)) (hkind : kind turn.outcome) : Exchanged kind after := by
  cases h with
  | nothing hsame hnot =>
    obtain ⟨text, houtcome⟩ := hnot hcalled
    exact absurd (houtcome ▸ hkind) (hsent text)
  | call last hmore hcalls houtcome =>
    rw [Exchanged, hmore]
    exact ⟨last, List.mem_append_right _ (List.mem_singleton_self _), houtcome ▸ hkind⟩

/-- An exchange of a kind has been made if it had been before, or by the call of the pass. -/
theorem PassLogs.exchanged_iff {turn : Turn} {called : Prop} {before after : List Event}
    (h : PassLogs turn called before after) (hsent : ∀ text, ¬kind (.unsent text)) :
    Exchanged kind after ↔ Exchanged kind before ∨ called ∧ kind turn.outcome := by
  constructor
  · exact h.exchanged
  · rintro (hbefore | ⟨hcalled, hkind⟩)
    · exact h.keeps hbefore
    · exact h.adds hcalled hsent hkind

theorem loopCalls_iff {passes : Nat} {start : Progress} :
    LoopCalls turns guard pass calls passes start kind ↔
      ReachesHit guard pass (fun i p => calls i p ∧ kind (turns i).outcome) passes 0 start := by
  rw [LoopCalls, ReachesHit, Nat.zero_add]

variable (guard) in
theorem exchanged_iff_loopCalls (h : CallPass turns pass calls)
    (hsent : ∀ text, ¬kind (.unsent text)) (passes : Nat) (start : Progress)
    (hstart : start.events = []) :
    (loopWhile guard pass passes 0 start).Satisfies
      (fun p => Exchanged kind p.events ↔ LoopCalls turns guard pass calls passes start kind)
      fun forwarded => Exchanged kind forwarded.events ↔
        LoopCalls turns guard pass calls passes start kind := by
  have hnone : ¬Exchanged kind start.events := by
    rintro ⟨e, hmem, _⟩
    rw [hstart] at hmem
    cases hmem
  have hpass : ∀ i p, True → (pass i p).Satisfies
      (fun p' => True ∧
       (Exchanged kind p'.events ↔ Exchanged kind p.events ∨ calls i p ∧ kind (turns i).outcome))
      fun forwarded => Exchanged kind forwarded.events ↔
        Exchanged kind p.events ∨ calls i p ∧ kind (turns i).outcome := by
    intro i p _
    have hlogs := h i p
    cases hnext : pass i p with
    | done forwarded =>
      rw [hnext] at hlogs
      exact hlogs.exchanged_iff hsent
    | again p' =>
      rw [hnext] at hlogs
      exact ⟨trivial, hlogs.exchanged_iff hsent⟩
  have hloop := loopWhile_iff_reachesHit guard hpass passes 0 start trivial
  simpa only [hnone, false_or, ← loopCalls_iff] using hloop

end

/-! ### The passes of a forward -/

section

variable {fwd : Forwarder} {masterKey : Bytes} {baseUrl : String} {req : ForwardRequest}
  {turns : Nat → Turn}

theorem tried_logs {turn : Turn} {id : Nat} {key : ApiKey} {p : Progress}
    {pass : Pass Progress Forwarded} (htried : Tried fwd masterKey baseUrl req turn id key p pass) :
    pass.Satisfies
      (fun p' => PassLogs turn (turn.Admits id key ∧ (fwd.decrypt masterKey key).isSome = true)
        p.events p'.events)
      fun forwarded =>
        PassLogs turn (turn.Admits id key ∧ (fwd.decrypt masterKey key).isSome = true) p.events
          forwarded.events := by
  have hsilent : ∀ {more : List Event}, exchangesOf more = [] →
      (turn.Admits id key ∧ (fwd.decrypt masterKey key).isSome = true → False) →
      PassLogs turn (turn.Admits id key ∧ (fwd.decrypt masterKey key).isSome = true) p.events
        (p.events ++ more) := by
    intro more hnone hnot
    refine .nothing ?_ fun hcalls => (hnot hcalls).elim
    rw [exchangesOf_append, hnone, List.append_nil]
  have hcalled :
      ∀ {plaintextKey : String}, turn.Admits id key →
        fwd.decrypt masterKey key = some plaintextKey →
          PassLogs turn (turn.Admits id key ∧ (fwd.decrypt masterKey key).isSome = true) p.events
            (p.called fwd baseUrl req turn id plaintextKey).events := by
    intro plaintextKey hadmits hsecret
    rcases called_exchanges fwd baseUrl req turn id p plaintextKey with ⟨hsame, hunsent⟩ |
      ⟨e, hmore, _, houtcome, _⟩
    · exact .nothing hsame fun _ => hunsent
    · exact .call e hmore ⟨hadmits, by rw [hsecret]; rfl⟩ houtcome
  cases htried with
  | refused more error hmore hnot => exact hsilent hmore.exchangesOf fun hcalls => hnot hcalls.1
  | passedOver more retryCount hmore hnot =>
    exact hsilent hmore.unleased.exchangesOf fun hcalls => hnot hcalls.1
  | undecryptable error hsecret => exact hsilent rfl fun hcalls => by simp [hsecret] at hcalls
  | disabled retryCount hsecret => exact hsilent rfl fun hcalls => by simp [hsecret] at hcalls
  | failed plaintextKey text hadmits hsecret houtcome => exact hcalled hadmits hsecret
  | gaveUp plaintextKey retryCount error hadmits hsecret houtcome => exact hcalled hadmits hsecret
  | again plaintextKey retryCount hadmits hsecret houtcome => exact hcalled hadmits hsecret
  | answered plaintextKey retryCount r hadmits hsecret houtcome => exact hcalled hadmits hsecret

theorem PassLogs.of_iff {turn : Turn} {first second : Prop} {before after : List Event}
    (h : PassLogs turn first before after) (hiff : first ↔ second) :
    PassLogs turn second before after :=
  propext hiff ▸ h

variable (fwd masterKey baseUrl req turns) in
theorem pinnedPass_logs (id : Nat) :
    CallPass turns (pinnedPass fwd masterKey baseUrl req turns id)
      (PinnedCalls fwd masterKey turns id) := by
  intro i p
  have hcases := pinnedPass_cases fwd masterKey baseUrl req turns id i p
  generalize pinnedPass fwd masterKey baseUrl req turns id i p = pass at hcases ⊢
  cases hcases with
  | deleted text hkey =>
    refine .nothing rfl ?_
    rintro ⟨key, hsome, _⟩
    rw [hkey] at hsome
    cases hsome
  | tried key hkey htried =>
    have hiff : (turns i).Admits id key ∧ (fwd.decrypt masterKey key).isSome = true ↔
        PinnedCalls fwd masterKey turns id i p := by
      refine ⟨fun hcalls => ⟨key, hkey, hcalls⟩, ?_⟩
      rintro ⟨other, hother, hcalls⟩
      rw [hkey, Option.some.injEq] at hother
      exact hother ▸ hcalls
    have hlogs := tried_logs htried
    cases pass with
    | again p' => exact PassLogs.of_iff hlogs hiff
    | done forwarded => exact PassLogs.of_iff hlogs hiff

variable (fwd masterKey baseUrl req turns) in
theorem pooledPass_logs :
    CallPass turns (pooledPass fwd masterKey baseUrl req turns)
      (PooledCalls fwd masterKey req turns) := by
  intro i p
  have hselected : exchangesOf (p.selected req (turns i)).events = exchangesOf p.events := by
    simp [Progress.selected, Progress.log, exchangesOf]
  have hcases := pooledPass_cases fwd masterKey baseUrl req turns i p
  generalize pooledPass fwd masterKey baseUrl req turns i p = pass at hcases ⊢
  cases hcases with
  | refused error raised hresult =>
    refine .nothing hselected ?_
    rintro ⟨id, key, hok, _⟩
    rw [hresult] at hok
    cases hok
  | tried id key hresult htried =>
    have hiff : (turns i).Admits id key ∧ (fwd.decrypt masterKey key).isSome = true ↔
        PooledCalls fwd masterKey req turns i p := by
      refine ⟨fun hcalls => ⟨id, key, hresult, hcalls⟩, ?_⟩
      rintro ⟨otherId, other, hother, hcalls⟩
      rw [hresult] at hother
      cases hother
      exact hcalls
    have hbefore :
        ∀ {events}, PassLogs (turns i) ((turns i).Admits id key ∧
          (fwd.decrypt masterKey key).isSome = true) (p.selected req (turns i)).events events →
            PassLogs (turns i) (PooledCalls fwd masterKey req turns i p) p.events
          events := by
      intro events hlogs
      cases hlogs with
      | nothing hsame hnot =>
        exact .nothing (hsame.trans hselected) fun hcalls => hnot (hiff.mpr hcalls)
      | call e hmore hcalls houtcome => exact .call e (hselected ▸ hmore) (hiff.mp hcalls) houtcome
    have hlogs := tried_logs htried
    cases pass with
    | again p' => exact hbefore hlogs
    | done forwarded => exact hbefore hlogs

end

/-- The calls a forward gets to are the exchanges it makes. -/
theorem exchanged_iff (fwd : Forwarder) (turns : Nat → Turn) (req : ForwardRequest) (w : World)
    {kind : Outcome → Prop} (hsent : ∀ text, ¬kind (.unsent text)) :
    Exchanged kind (forward fwd turns req w).events ↔ CallReached fwd req turns w kind := by
  have hnothing :
      ∀ {error : FcamError}, ¬Exchanged kind (({ world := w } : Progress).raise error).events := by
    rintro error ⟨e, hmem, _⟩
    cases hmem
  rw [forward, CallReached]
  cases hmaster : fwd.masterKey with
  | none =>
    refine iff_of_false hnothing ?_
    rintro ⟨masterKey, _, hsome, _⟩
    cases hsome
  | some masterKey =>
  cases hbase : fwd.providerBaseUrl req.provider with
  | error error =>
    refine iff_of_false hnothing ?_
    rintro ⟨_, _, _, hok, _⟩
    cases hok
  | ok baseUrl =>
  simp only [Option.some.injEq, Except.ok.injEq, exists_eq_left', exists_and_left]
  cases req.pinnedApiKeyId.bind fun id => (pinnedKey? req w id).map fun _ => id with
  | some id =>
    have hloop :=
      exchanged_iff_loopCalls (fun _ => true) (pinnedPass_logs fwd masterKey baseUrl req turns id)
        hsent
      (fwd.totalAttempts req.provider) { world := w, lastApiKeyId := some id } rfl
    obtain ⟨forwarded, hdone⟩ :=
      pinnedLoop_done fwd masterKey baseUrl req turns id { world := w, lastApiKeyId := some id }
    simp only [forwardPinned]
    rw [hdone] at hloop ⊢
    exact hloop
  | none =>
    have hloop :=
      exchanged_iff_loopCalls
        (fun p => decide (p.upstreamAttempts < fwd.totalAttempts req.provider))
      (pooledPass_logs fwd masterKey baseUrl req turns) hsent
        (maxSelectionTries (fwd.totalAttempts req.provider))
      { world := w } rfl
    simp only [forwardPooled]
    split
    · next forwarded heq =>
      rw [heq] at hloop
      exact hloop
    · next p heq =>
      rw [heq] at hloop
      exact hloop

end Fcam

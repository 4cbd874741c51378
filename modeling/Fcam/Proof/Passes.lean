import Fcam.Proof.Dispatch

/-!
# What one pass can do

`Tried` says once how an attempt with a key can end, for both loops of a forward: refused by the
limiter or the leases, stopped by a secret that cannot be decrypted, or called, with an outcome that
ends the forward or asks for another pass. A pass over the pool selects before that.
`forward_passes` is the rule for statements about the result of a forward: what the passes of a loop
keep, with their number.
-/

namespace Fcam

section

variable (fwd : Forwarder) (masterKey : Bytes) (baseUrl : String) (req : ForwardRequest)
  (turns : Nat → Turn)

theorem Progress.log_nil (p : Progress) : p.log [] = p := by rw [log, List.append_nil]

theorem Progress.log_log (p : Progress) (events more : List Event) :
    (p.log events).log more = p.log (events ++ more) := by
  simp only [log, List.append_assoc]

/-- The progress of a pass over the pool once it has selected. -/
def Progress.selected (turn : Turn) (p : Progress) : Progress :=
  let selection := select turn.pool p.world (some req.clientId) req.provider
  { p.log [.examined turn.pool.reading.today selection.examined] with world := selection.world }

/-- What an attempt that gets no lease logs. -/
def Unleased (id : Nat) (more : List Event) : Prop :=
  more = [] ∨ more = [.rateLimited id] ∨ more = [.tokenTaken id] ∨ more = [.tokenTaken id, .busy id]

/-- What an attempt logs whose key the limiter or the leases refuse. -/
def PassedOver (id : Nat) (more : List Event) : Prop :=
  more = [.rateLimited id] ∨ more = [.tokenTaken id, .busy id]

theorem PassedOver.unleased {id : Nat} {more : List Event} (h : PassedOver id more) :
    Unleased id more :=
  h.elim (fun heq => .inr (.inl heq)) fun heq => .inr (.inr (.inr heq))

/-- The progress once a lease was given back because the key cannot be decrypted. -/
def Progress.undecrypted (id : Nat) (p : Progress) : Progress :=
  { p.log [.tokenTaken id, .leased id, .released id] with
    world := p.world.modifyKey id disableKeyDecryptFailed }

/-- The progress once a key has been leased and called. -/
def Progress.called (turn : Turn) (id : Nat) (plaintextKey : String) (p : Progress) : Progress :=
  call fwd baseUrl req turn id plaintextKey (p.log [.tokenTaken id, .leased id])

/-- The limiter lets a call with the key through. -/
def Turn.Grants (turn : Turn) (id : Nat) (key : ApiKey) : Prop :=
  ∃ retryAfter, turn.allow id key.rateLimitPerMin = .ok (true, retryAfter)

/-- The limiter and the leases let a call with the key through. -/
def Turn.Admits (turn : Turn) (id : Nat) (key : ApiKey) : Prop :=
  turn.Grants id key ∧ turn.tryAcquire id key.maxConcurrent = .ok true

/-- How an attempt with a key can end. -/
inductive Tried (turn : Turn) (id : Nat) (key : ApiKey) (p : Progress) : Pass Progress Forwarded →
    Prop where
  | refused (more : List Event) (error : FcamError) (hmore : Unleased id more)
      (hnot : ¬turn.Admits id key) (htoken : .tokenTaken id ∈ more ↔ turn.Grants id key) :
      Tried turn id key p (.done ((p.log more).raise error))
  | passedOver (more : List Event) (retryCount : Nat) (hmore : PassedOver id more)
      (hnot : ¬turn.Admits id key) (htoken : .tokenTaken id ∈ more ↔ turn.Grants id key) :
      Tried turn id key p (.again ({ p with retryCount }.log more))
  | undecryptable (error : FcamError) (hsecret : fwd.decrypt masterKey key = none)
      (hadmits : turn.Admits id key) :
      Tried turn id key p (.done ((p.undecrypted id).raise error))
  | disabled (retryCount : Nat) (hsecret : fwd.decrypt masterKey key = none)
      (hadmits : turn.Admits id key) :
      Tried turn id key p (.again { p.undecrypted id with retryCount, decryptFailedSeen := true })
  | failed (plaintextKey text : String) (hadmits : turn.Admits id key)
      (hsecret : fwd.decrypt masterKey key = some plaintextKey)
      (houtcome : turn.outcome = .exception text ∨ turn.outcome = .unsent text) :
      Tried turn id key p (.done ((p.called fwd baseUrl req turn id plaintextKey).fail text))
  | gaveUp (plaintextKey : String) (retryCount : Nat) (error : FcamError)
      (hadmits : turn.Admits id key) (hsecret : fwd.decrypt masterKey key = some plaintextKey)
      (houtcome : turn.outcome = .timeout ∨ ∃ text, turn.outcome = .httpError text) :
      Tried turn id key p
        (.done ({ p.called fwd baseUrl req turn id plaintextKey with retryCount }.raise error))
  | again (plaintextKey : String) (retryCount : Nat) (hadmits : turn.Admits id key)
      (hsecret : fwd.decrypt masterKey key = some plaintextKey)
      (houtcome : turn.outcome.retried = true) :
      Tried turn id key p (.again { p.called fwd baseUrl req turn id plaintextKey with retryCount })
  | answered (plaintextKey : String) (retryCount : Nat) (r : UpstreamResponse)
      (hadmits : turn.Admits id key) (hsecret : fwd.decrypt masterKey key = some plaintextKey)
      (houtcome : turn.outcome = .response r) :
      Tried turn id key p
        (.done ({ p.called fwd baseUrl req turn id plaintextKey with retryCount }.respond r))

/-- What a pass over the pool can do. -/
inductive PooledPass (turn : Turn) (p : Progress) : Pass Progress Forwarded → Prop where
  | refused (error raised : FcamError)
      (hresult : (select turn.pool p.world (some req.clientId) req.provider).result =
       .error error) :
      PooledPass turn p (.done ((p.selected req turn).raise raised))
  | tried (id : Nat) (key : ApiKey)
      (hresult : (select turn.pool p.world (some req.clientId) req.provider).result = .ok (id, key))
      {pass : Pass Progress Forwarded}
      (htried : Tried fwd masterKey baseUrl req turn id key
       { p.selected req turn with lastApiKeyId := some id } pass) :
      PooledPass turn p pass

/-- What an attempt with a pinned key can do. -/
inductive PinnedPass (turn : Turn) (id : Nat) (p : Progress) : Pass Progress Forwarded → Prop where
  | deleted (text : String) (hkey : p.world.key? id = none) :
      PinnedPass turn id p (.done (p.fail text))
  | tried (key : ApiKey) (hkey : p.world.key? id = some key) {pass : Pass Progress Forwarded}
      (htried : Tried fwd masterKey baseUrl req turn id key p pass) : PinnedPass turn id p pass

theorem pooledPass_cases (i : Nat) (p : Progress) :
    PooledPass fwd masterKey baseUrl req (turns i) p
      (pooledPass fwd masterKey baseUrl req turns i p) := by
  rw [pooledPass]
  simp only
  split
  · next error hresult => exact .refused error _ hresult
  next id key hresult =>
  refine .tried id key hresult ?_
  split
  · next error hallow =>
    have hgrants : ¬(turns i).Grants id key := by simp [Turn.Grants, hallow]
    have hnone : Tried fwd masterKey baseUrl req (turns i) id key
        { p.selected req (turns i) with lastApiKeyId := some id } _ :=
      .refused [] error (.inl rfl) (fun hadmits => hgrants hadmits.1) (by simp [hgrants])
    rw [Progress.log_nil] at hnone
    exact hnone
  · next retryAfter hallow =>
    have hgrants : ¬(turns i).Grants id key := by simp [Turn.Grants, hallow]
    exact .passedOver [.rateLimited id] _ (.inl rfl) (fun hadmits => hgrants hadmits.1)
      (by simp [hgrants])
  next retryAfter hallow =>
  have hgrants : (turns i).Grants id key := ⟨retryAfter, hallow⟩
  split
  · next error hlease =>
    exact .refused [.tokenTaken id] _ (.inr (.inr (.inl rfl)))
      (fun hadmits => by simp [Turn.Admits, hlease] at hadmits) (by simp [hgrants])
  · next hlease =>
    exact .passedOver [.tokenTaken id,
      .busy id] _ (.inr rfl) (fun hadmits => by simp [Turn.Admits, hlease] at hadmits)
        (by simp [hgrants])
  next hlease =>
  have hadmits : (turns i).Admits id key := ⟨hgrants, hlease⟩
  split
  · next hsecret => exact .disabled _ hsecret hadmits
  next plaintextKey hsecret =>
  split
  · next text houtcome => exact .failed plaintextKey text hadmits hsecret (.inl houtcome)
  · next text houtcome => exact .failed plaintextKey text hadmits hsecret (.inr houtcome)
  · next houtcome =>
    split
    · exact .gaveUp plaintextKey _ _ hadmits hsecret (.inl houtcome)
    · exact .again plaintextKey _ hadmits hsecret (by rw [houtcome]; rfl)
  · next text houtcome =>
    split
    · exact .gaveUp plaintextKey _ _ hadmits hsecret (.inr ⟨text, houtcome⟩)
    · exact .again plaintextKey _ hadmits hsecret (by rw [houtcome]; rfl)
  · next r houtcome =>
    split
    · next hretried =>
        exact .again plaintextKey _ hadmits hsecret (by rw [houtcome]; exact hretried.1)
    · exact .answered plaintextKey _ r hadmits hsecret houtcome

theorem pinnedPass_cases (id attempt : Nat) (p : Progress) :
    PinnedPass fwd masterKey baseUrl req (turns attempt) id p
      (pinnedPass fwd masterKey baseUrl req turns id attempt p) := by
  rw [pinnedPass]
  split
  · next hkey => exact .deleted _ hkey
  next key hkey =>
  refine .tried key hkey ?_
  simp only [Progress.log_log, List.cons_append, List.nil_append]
  split
  · next error hallow =>
    have hgrants : ¬(turns attempt).Grants id key := by simp [Turn.Grants, hallow]
    have hnone : Tried fwd masterKey baseUrl req (turns attempt) id key p _ :=
      .refused [] error (.inl rfl) (fun hadmits => hgrants hadmits.1) (by simp [hgrants])
    rw [Progress.log_nil] at hnone
    exact hnone
  · next retryAfter hallow =>
    have hgrants : ¬(turns attempt).Grants id key := by simp [Turn.Grants, hallow]
    exact .refused [.rateLimited id] _ (.inr (.inl rfl)) (fun hadmits => hgrants hadmits.1)
      (by simp [hgrants])
  next retryAfter hallow =>
  have hgrants : (turns attempt).Grants id key := ⟨retryAfter, hallow⟩
  split
  · next error hlease =>
    exact .refused [.tokenTaken id] _ (.inr (.inr (.inl rfl)))
      (fun hadmits => by simp [Turn.Admits, hlease] at hadmits) (by simp [hgrants])
  · next hlease =>
    exact .refused [.tokenTaken id, .busy id] _ (.inr (.inr (.inr rfl)))
      (fun hadmits => by simp [Turn.Admits, hlease] at hadmits) (by simp [hgrants])
  next hlease =>
  have hadmits : (turns attempt).Admits id key := ⟨hgrants, hlease⟩
  split
  · next hsecret => exact .undecryptable _ hsecret hadmits
  next plaintextKey hsecret =>
  split
  · next text houtcome => exact .failed plaintextKey text hadmits hsecret (.inl houtcome)
  · next text houtcome => exact .failed plaintextKey text hadmits hsecret (.inr houtcome)
  · next houtcome =>
    split
    · exact .gaveUp plaintextKey _ _ hadmits hsecret (.inl houtcome)
    · exact .again plaintextKey _ hadmits hsecret (by rw [houtcome]; rfl)
  · next text houtcome =>
    split
    · exact .gaveUp plaintextKey _ _ hadmits hsecret (.inr ⟨text, houtcome⟩)
    · exact .again plaintextKey _ hadmits hsecret (by rw [houtcome]; rfl)
  · next r houtcome =>
    split
    · next hretried =>
      have honPin : (turns attempt).outcome.retriedOnPin = true := by
        rw [houtcome]
        exact decide_eq_true hretried.1
      exact .again plaintextKey _ hadmits hsecret (Outcome.retried_of_onPin honPin)
    · exact .answered plaintextKey _ r hadmits hsecret houtcome

/-! ### The loops -/

theorem forwardPooled_passes {inv : Nat → Progress → Prop} {post : Forwarded → Prop}
    (hpass : ∀ i, i < maxSelectionTries (fwd.totalAttempts req.provider) → ∀ p, inv i p →
      p.upstreamAttempts < fwd.totalAttempts req.provider →
      (pooledPass fwd masterKey baseUrl req turns i p).Satisfies (inv (i + 1)) post)
    (hend : ∀ i, i ≤ maxSelectionTries (fwd.totalAttempts req.provider) → ∀ p, inv i p →
      post (p.raise (noAttemptLeft fwd req p))) (p : Progress) (hinv : inv 0 p) :
    post (forwardPooled fwd masterKey baseUrl req turns p) := by
  have hloop :=
    loopWhile_counted (fun p => decide (p.upstreamAttempts < fwd.totalAttempts req.provider))
    (pooledPass fwd masterKey baseUrl req turns)
      (maxSelectionTries (fwd.totalAttempts req.provider)) 0
    (fun i hi p hp hguard => hpass i (by omega) p hp (of_decide_eq_true hguard)) p hinv
  rw [forwardPooled]
  split
  · next forwarded heq =>
    rw [heq] at hloop
    exact hloop
  · next p' heq =>
    rw [heq] at hloop
    obtain ⟨i, hi, hlast⟩ := hloop
    exact hend i (by omega) p' hlast

theorem forwardPinned_passes {inv : Nat → Progress → Prop} {post : Forwarded → Prop} (id : Nat)
    (hpass : ∀ i, i < fwd.totalAttempts req.provider → ∀ p, inv i p →
      (pinnedPass fwd masterKey baseUrl req turns id i p).Satisfies (inv (i + 1)) post)
    (p : Progress) (hinv : inv 0 { p with lastApiKeyId := some id }) :
    post (forwardPinned fwd masterKey baseUrl req turns id p) := by
  have hloop := loopWhile_counted (fun _ => true) (pinnedPass fwd masterKey baseUrl req turns id)
    (fwd.totalAttempts req.provider) 0 (fun i hi p hp _ => hpass i (by omega) p hp)
      { p with lastApiKeyId := some id }
    hinv
  obtain ⟨forwarded, hdone⟩ :=
    pinnedLoop_done fwd masterKey baseUrl req turns id { p with lastApiKeyId := some id }
  simp only [forwardPinned]
  rw [hdone] at hloop ⊢
  exact hloop

end

theorem forward_passes {fwd : Forwarder} {req : ForwardRequest} {turns : Nat → Turn} {w : World}
    {post : Forwarded → Prop} (hraise : ∀ error, post (({ world := w } : Progress).raise error))
    (hpinned : ∀ masterKey baseUrl, fwd.masterKey = some masterKey →
     fwd.providerBaseUrl req.provider = .ok baseUrl →
      ∀ id key, req.pinnedApiKeyId = some id → pinnedKey? req w id = some key →
        post (forwardPinned fwd masterKey baseUrl req turns id { world := w }))
    (hpooled : ∀ masterKey baseUrl, fwd.masterKey = some masterKey →
     fwd.providerBaseUrl req.provider = .ok baseUrl →
      req.pinnedApiKeyId.bind (pinnedKey? req w) = none →
        post (forwardPooled fwd masterKey baseUrl req turns { world := w })) :
    post (forward fwd turns req w) := by
  rw [forward]
  split
  · exact hraise _
  next masterKey hmaster =>
  split
  · exact hraise _
  next baseUrl hbase =>
  cases hpin : req.pinnedApiKeyId with
  | none => exact hpooled masterKey baseUrl hmaster hbase (by rw [hpin]; rfl)
  | some id =>
    rw [Option.bind_some]
    cases haccepted : pinnedKey? req w id with
    | none => exact hpooled masterKey baseUrl hmaster hbase (by rw [hpin]; exact haccepted)
    | some key => exact hpinned masterKey baseUrl hmaster hbase id key hpin haccepted

end Fcam

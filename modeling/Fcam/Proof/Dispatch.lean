import Fcam.Proof.Select
import Fcam.Proof.Settle

/-!
# Reasoning about a forward

A forward is a sequence of selections and calls, with refusals in between. `CallRule` asks for what
a proof about forwards has to show of each of them: `waiting` holds while the forward goes on,
`ended` of what it leaves, and `ready` of a key it is about to call. `forward_rule` puts the pieces
together for both paths, so no proof about forwards looks into their loops.
-/

namespace Fcam

/-- An event about the limiter, the leases or the end of a lease. -/
def Event.quiet : Event → Bool
  | examined _ _ => false
  | exchanged _ => false
  | _ => true

/-- The outcome is one after which a forward may go on: no answer, or a status that is tried
again. -/
def Outcome.retried : Outcome → Bool
  | response r => retriedStatus r.statusCode
  | timeout => true
  | httpError _ => true
  | _ => false

/-- The outcome is one after which the pinned key may be called again. -/
def Outcome.retriedOnPin : Outcome → Bool
  | response r => 500 ≤ r.statusCode
  | timeout => true
  | httpError _ => true
  | _ => false

theorem Outcome.retried_of_onPin {outcome : Outcome} (h : outcome.retriedOnPin = true) :
    outcome.retried = true := by
  cases outcome with
  | response r =>
    rw [retriedOnPin] at h
    rw [retried, retriedStatus, h, Bool.or_true]
  | timeout => rfl
  | httpError text => rfl
  | exception text => cases h
  | unsent text => cases h

theorem Outcome.not_won_of_retried {outcome : Outcome} (h : outcome.retried = true) :
    outcome.won = false := by
  cases outcome with
  | response r =>
    simp only [retried, retriedStatus, Bool.or_eq_true, beq_iff_eq, decide_eq_true_eq] at h
    simp only [won, is2xx, Bool.and_eq_false_iff, decide_eq_false_iff_not]
    omega
  | timeout => rfl
  | httpError text => rfl
  | exception text => rfl
  | unsent text => rfl

section

variable (fwd : Forwarder) (masterKey : Bytes) (baseUrl : String) (req : ForwardRequest)
  (turns : Nat → Turn)

/-- The state after the call of pass `i` with a key. -/
def settled (i id : Nat) (w : World) : World :=
  settle fwd.config req.method req.upstreamPath (turns i).outcome (turns i).settledAt req.clientId
    id w

/-- What the call of pass `i` with a key logs. -/
def callEvents (i id : Nat) (plaintextKey : String) (w : World) : List Event :=
  exchanges fwd baseUrl req (turns i).outcome id plaintextKey w (settled fwd req turns i id w) ++
    [.released id]

/-- What refusals, undecryptable keys and calls do to a forward, in its passes below a bound. -/
structure CallRule (bound : Nat) (waiting ended : World → List Event → Prop)
    (ready : World → Nat → Prop) : Prop where
  ended_of_waiting : ∀ {w events}, waiting w events → ended w events
  quiet : ∀ {w events} (more : List Event), waiting w events →
    (∀ event ∈ more, event.quiet = true) → waiting w (events ++ more)
  undecryptable :
    ∀ {w events} (id : Nat), waiting w events →
      waiting (w.modifyKey id disableKeyDecryptFailed) events
  call : ∀ {w events} {i : Nat} (id : Nat) (plaintextKey : String), i < bound →
    waiting w events → ready w id →
      ended (settled fwd req turns i id w)
        (events ++ callEvents fwd baseUrl req turns i id plaintextKey w)
  callAgain : ∀ {w events} {i : Nat} (id : Nat) (plaintextKey : String), i < bound →
    waiting w events → ready w id → (turns i).outcome.retried = true →
    waiting (settled fwd req turns i id w)
      (events ++ callEvents fwd baseUrl req turns i id plaintextKey w)
  stillReady : ∀ {w events} {i : Nat} (id : Nat), i < bound → waiting w events → ready w id →
    (turns i).outcome.retriedOnPin = true → ready (settled fwd req turns i id w) id

/-- What a selection does to a forward. -/
structure SelectRule (waiting : World → List Event → Prop) (ready : World → Nat → Prop) : Prop where
  select : ∀ {w events} (i : Nat), waiting w events →
    let selection := Fcam.select (turns i).pool w (some req.clientId) req.provider
    waiting selection.world (events ++ [.examined (turns i).pool.reading.today selection.examined])
  ready : ∀ {w events} (i id : Nat) (key : ApiKey), waiting w events →
    let selection := Fcam.select (turns i).pool w (some req.clientId) req.provider
    selection.result = .ok (id, key) → ready selection.world id

variable {waiting ended : World → List Event → Prop} {ready : World → Nat → Prop}

theorem call_eq (i id : Nat) (plaintextKey : String) (p : Progress) :
    (call fwd baseUrl req (turns i) id plaintextKey p).world = settled fwd req turns i id p.world ∧
      (call fwd baseUrl req (turns i) id plaintextKey p).events =
        p.events ++ callEvents fwd baseUrl req turns i id plaintextKey p.world :=
  ⟨rfl, rfl⟩

/-! ### The pool -/

theorem pooledPass_rule {bound : Nat}
    (hcall : CallRule fwd baseUrl req turns bound waiting ended ready)
    (hselect : SelectRule req turns waiting ready) {i : Nat} (hi : i < bound) (p : Progress)
    (hwaiting : waiting p.world p.events) :
    (pooledPass fwd masterKey baseUrl req turns i p).Satisfies (fun p => waiting p.world p.events)
      (fun forwarded => ended forwarded.world forwarded.events) := by
  have hselected := hselect.select i hwaiting
  have hready := fun id key => hselect.ready i id key hwaiting
  rw [pooledPass]
  simp only
  split
  · exact hcall.ended_of_waiting hselected
  next id key hresult =>
  split
  · exact hcall.ended_of_waiting hselected
  · exact hcall.quiet _ hselected (by simp [Event.quiet])
  split
  · exact hcall.ended_of_waiting (hcall.quiet _ hselected (by simp [Event.quiet]))
  · exact hcall.quiet _ hselected (by simp [Event.quiet])
  split
  · exact hcall.undecryptable id (hcall.quiet _ hselected (by simp [Event.quiet]))
  next plaintextKey _ =>
  have hleased := hcall.quiet [.tokenTaken id, .leased id] hselected (by simp [Event.quiet])
  have hended := hcall.call id plaintextKey hi hleased (hready id key hresult)
  have hagain := hcall.callAgain id plaintextKey hi hleased (hready id key hresult)
  split
  · exact hended
  · exact hended
  · next houtcome =>
    split
    · exact hended
    · exact hagain (by rw [houtcome]; rfl)
  · next houtcome =>
    split
    · exact hended
    · exact hagain (by rw [houtcome]; rfl)
  · next r houtcome =>
    split
    · next hretried => exact hagain (by rw [houtcome]; exact hretried.1)
    · exact hended

theorem forwardPooled_rule
    (hcall : CallRule fwd baseUrl req turns (maxSelectionTries (fwd.totalAttempts req.provider))
      waiting ended ready)
    (hselect : SelectRule req turns waiting ready) (p : Progress)
    (hwaiting : waiting p.world p.events) :
    ended (forwardPooled fwd masterKey baseUrl req turns p).world
      (forwardPooled fwd masterKey baseUrl req turns p).events := by
  have hloop :=
    loopWhile_satisfies (fun p => decide (p.upstreamAttempts < fwd.totalAttempts req.provider))
    (pooledPass fwd masterKey baseUrl req turns)
      (maxSelectionTries (fwd.totalAttempts req.provider)) 0
    (fun i hi p hinv _ =>
     pooledPass_rule fwd masterKey baseUrl req turns hcall hselect (by omega) p hinv) p hwaiting
  rw [forwardPooled]
  split
  · next forwarded heq =>
    rw [heq] at hloop
    exact hloop
  · next p' heq =>
    rw [heq] at hloop
    exact hcall.ended_of_waiting hloop

/-! ### The pinned key -/

theorem pinnedPass_rule {bound : Nat}
    (hcall : CallRule fwd baseUrl req turns bound waiting ended ready) {i : Nat} (hi : i < bound)
    (id : Nat) (p : Progress) (hinv : waiting p.world p.events ∧ ready p.world id) :
    (pinnedPass fwd masterKey baseUrl req turns id i p).Satisfies
      (fun p => waiting p.world p.events ∧ ready p.world id)
      (fun forwarded => ended forwarded.world forwarded.events) := by
  obtain ⟨hwaiting, hready⟩ := hinv
  have hended := hcall.ended_of_waiting hwaiting
  rw [pinnedPass]
  split
  · exact hended
  next key hkey =>
  simp only
  split
  · exact hended
  · exact hcall.ended_of_waiting (hcall.quiet _ hwaiting (by simp [Event.quiet]))
  have htoken := hcall.quiet [.tokenTaken id] hwaiting (by simp [Event.quiet])
  split
  · exact hcall.ended_of_waiting htoken
  · exact hcall.ended_of_waiting (hcall.quiet _ htoken (by simp [Event.quiet]))
  have hleased := hcall.quiet [.leased id] htoken (by simp [Event.quiet])
  split
  · exact hcall.ended_of_waiting
      (hcall.undecryptable id (hcall.quiet _ hleased (by simp [Event.quiet])))
  next plaintextKey _ =>
  have hended := hcall.call id plaintextKey hi hleased hready
  have hagain := fun honPin => And.intro
    (hcall.callAgain id plaintextKey hi hleased hready (Outcome.retried_of_onPin honPin))
    (hcall.stillReady id hi hleased hready honPin)
  split
  · exact hended
  · exact hended
  · next houtcome =>
    split
    · exact hended
    · exact hagain (by rw [houtcome]; rfl)
  · next houtcome =>
    split
    · exact hended
    · exact hagain (by rw [houtcome]; rfl)
  · next r houtcome =>
    split
    · next hretried => exact hagain (by rw [houtcome]; exact decide_eq_true hretried.1)
    · exact hended

theorem pinnedPass_last {id attempt : Nat} (hlast : fwd.totalAttempts req.provider ≤ attempt + 1)
    (p : Progress) :
    ∃ forwarded, pinnedPass fwd masterKey baseUrl req turns id attempt p = .done forwarded := by
  rw [pinnedPass]
  simp only [hlast, if_true, not_true_eq_false, and_false, if_false]
  repeat' split
  all_goals exact ⟨_, rfl⟩

theorem pinnedLoop_done (id : Nat) (p : Progress) :
    ∃ forwarded, loopWhile (fun _ => true) (pinnedPass fwd masterKey baseUrl req turns id)
      (fwd.totalAttempts req.provider) 0 p = .done forwarded := by
  obtain ⟨retries, htotal⟩ : ∃ retries, fwd.totalAttempts req.provider = retries + 1 := ⟨_, rfl⟩
  rw [htotal]
  refine loopWhile_done_of_last _ retries 0 (fun s => ?_) p
  exact pinnedPass_last fwd masterKey baseUrl req turns (by omega) s

theorem forwardPinned_rule
    (hcall : CallRule fwd baseUrl req turns (fwd.totalAttempts req.provider) waiting ended ready)
    (id : Nat) (p : Progress) (hwaiting : waiting p.world p.events) (hready : ready p.world id) :
    ended (forwardPinned fwd masterKey baseUrl req turns id p).world
      (forwardPinned fwd masterKey baseUrl req turns id p).events := by
  have hloop := loopWhile_satisfies (fun _ => true) (pinnedPass fwd masterKey baseUrl req turns id)
    (fwd.totalAttempts req.provider) 0
    (fun i hi p hinv _ =>
     pinnedPass_rule fwd masterKey baseUrl req turns hcall (by omega) id p hinv)
    { p with lastApiKeyId := some id } ⟨hwaiting, hready⟩
  obtain ⟨forwarded, hdone⟩ :=
    pinnedLoop_done fwd masterKey baseUrl req turns id { p with lastApiKeyId := some id }
  simp only [forwardPinned]
  rw [hdone] at hloop ⊢
  exact hloop

end

/-! ### The forward -/

/-- The key row of an accepted pin. -/
theorem pinnedKey?_eq_some {req : ForwardRequest} {w : World} {id : Nat} {key : ApiKey}
    (h : pinnedKey? req w id = some key) :
    w.key? id = some key ∧ key.clientId = some req.clientId ∧ isDisabled key = false ∧
      key.provider = req.provider := by
  rw [pinnedKey?, Option.filter_eq_some_iff] at h
  simpa [and_assoc] using h

theorem forward_rule {fwd : Forwarder} {req : ForwardRequest} {turns : Nat → Turn} {w : World}
    (waiting ended : World → List Event → Prop) (hstart : waiting w []) (hended : ended w [])
    (hpinned : ∀ baseUrl, fwd.providerBaseUrl req.provider = .ok baseUrl →
      ∀ id key, req.pinnedApiKeyId = some id → pinnedKey? req w id = some key →
      ∃ ready : World → Nat → Prop,
        CallRule fwd baseUrl req turns (fwd.totalAttempts req.provider) waiting ended ready ∧
          ready w id)
    (hpooled : ∀ baseUrl, fwd.providerBaseUrl req.provider = .ok baseUrl →
      (req.pinnedApiKeyId.bind (pinnedKey? req w)) = none → ∃ ready : World → Nat → Prop,
        CallRule fwd baseUrl req turns (maxSelectionTries (fwd.totalAttempts req.provider)) waiting
          ended ready ∧
          SelectRule req turns waiting ready) :
    ended (forward fwd turns req w).world (forward fwd turns req w).events := by
  rw [forward]
  split
  · exact hended
  next masterKey _ =>
  split
  · exact hended
  next baseUrl hbase =>
  cases hpin : req.pinnedApiKeyId with
  | none =>
    obtain ⟨ready, hcall, hselect⟩ := hpooled baseUrl hbase (by rw [hpin]; rfl)
    exact forwardPooled_rule fwd masterKey baseUrl req turns hcall hselect _ hstart
  | some id =>
    rw [Option.bind_some]
    cases haccepted : pinnedKey? req w id with
    | none =>
      obtain ⟨ready, hcall, hselect⟩ := hpooled baseUrl hbase (by rw [hpin]; exact haccepted)
      exact forwardPooled_rule fwd masterKey baseUrl req turns hcall hselect _ hstart
    | some key =>
      obtain ⟨ready, hcall, hready⟩ := hpinned baseUrl hbase id key hpin haccepted
      exact forwardPinned_rule fwd masterKey baseUrl req turns hcall id _ hstart hready

/-! ### What holds of every exchange -/

/-- Every exchange logged so far has a property. -/
def EachExchange (holds : Exchange → Prop) (events : List Event) : Prop :=
  ∀ e, .exchanged e ∈ events → holds e

section

variable {fwd : Forwarder} {baseUrl : String} {req : ForwardRequest} {turns : Nat → Turn}
  {holds : Exchange → Prop} {ready : World → Nat → Prop}

theorem EachExchange.append {events more : List Event} (h : EachExchange holds events)
    (hmore : EachExchange holds more) : EachExchange holds (events ++ more) :=
  fun e hmem => (List.mem_append.mp hmem).elim (h e) (hmore e)

theorem eachExchange_of_quiet {events : List Event}
    (hquiet : ∀ event ∈ events, event.quiet = true) :
    EachExchange holds events :=
  fun e hmem => absurd (hquiet _ hmem) (by simp [Event.quiet])

theorem callRule_eachExchange (bound : Nat)
    (hcall : ∀ i id plaintextKey w, ready w id →
      EachExchange holds (callEvents fwd baseUrl req turns i id plaintextKey w))
    (hsettled : ∀ i id w, ready w id → ready (settled fwd req turns i id w) id) :
    CallRule fwd baseUrl req turns bound (fun _ events => EachExchange holds events)
      (fun _ events => EachExchange holds events) ready where
  ended_of_waiting h := h
  quiet _ h hquiet := h.append (eachExchange_of_quiet hquiet)
  undecryptable _ h := h
  call id plaintextKey _ h hready := h.append (hcall _ id plaintextKey _ hready)
  callAgain id plaintextKey _ h hready _ := h.append (hcall _ id plaintextKey _ hready)
  stillReady id _ _ hready _ := hsettled _ id _ hready

theorem forward_eachExchange {w : World} (ready : World → Nat → Prop)
    (hpinned : ∀ id key, pinnedKey? req w id = some key → ready w id)
    (hselected : ∀ i w id key,
      let selection := Fcam.select (turns i).pool w (some req.clientId) req.provider
      selection.result = .ok (id, key) → ready selection.world id)
    (hcall : ∀ baseUrl, fwd.providerBaseUrl req.provider = .ok baseUrl →
     ∀ i id plaintextKey w, ready w id →
      EachExchange holds (callEvents fwd baseUrl req turns i id plaintextKey w))
    (hsettled : ∀ i id w, ready w id → ready (settled fwd req turns i id w) id) :
    EachExchange holds (forward fwd turns req w).events := by
  have hempty : EachExchange holds [] := eachExchange_of_quiet (by simp)
  refine forward_rule (fun _ events => EachExchange holds events)
    (fun _ events => EachExchange holds events) hempty hempty ?_ ?_
  · intro baseUrl hbase id key _ haccepted
    exact ⟨ready, callRule_eachExchange _ (hcall baseUrl hbase) hsettled, hpinned id key haccepted⟩
  · intro baseUrl hbase _
    refine ⟨ready, callRule_eachExchange _ (hcall baseUrl hbase) hsettled, ?_,
      fun i id key _ => hselected i _ id key⟩
    exact fun i h => h.append fun e hmem => by simp at hmem

end

end Fcam

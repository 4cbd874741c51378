import Fcam.Model.KeyUse
import Fcam.Proof.Passes

/-!
# The attempts of a forward and what it returns

A forward sends at most as many requests as its provider's retries allow, asks the pool at most so
often, and never when its pin was accepted. What it returns was built from the last answer it
received, with the status and the key of that call.
-/

namespace Fcam

def exchangesOf (events : List Event) : List Exchange :=
  events.filterMap fun event =>
    match event with
    | .exchanged exchange => some exchange
    | _ => none

def Event.isSelection : Event → Bool
  | examined _ _ => true
  | _ => false

namespace Forwarded

/-- How often a forward asked the pool for a key. -/
def selections (forwarded : Forwarded) : Nat := forwarded.events.countP Event.isSelection

/-- The response passes the answer on, without the headers that are dropped. -/
def PassesOn (response : Response) (r : UpstreamResponse) : Prop :=
  response.statusCode = r.statusCode ∧ response.body = r.content ∧
    (response.headers.filter fun h => !dropResponseHeaders.contains h.1) =
      r.headers.filter fun h => !dropResponseHeaders.contains h.1

end Forwarded

/-- The bounds of a forward, what an accepted pin means, and where a returned response comes
from. -/
structure Forwarded.Faithful (fwd : Forwarder) (req : ForwardRequest) (w : World)
    (forwarded : Forwarded) : Prop where
  calls : forwarded.exchanges.length ≤ (max (fwd.providerMaxRetries req.provider) 0).toNat + 1
  selections :
    forwarded.selections ≤ max (20 * ((max (fwd.providerMaxRetries req.provider) 0).toNat + 1)) 50
  pinned : ∀ id, req.pinnedApiKeyId = some id → (pinnedKey? req w id).isSome = true →
    forwarded.selections = 0 ∧ ∀ e ∈ forwarded.exchanges, e.keyId = id
  answer : ∀ result, forwarded.result = .ok result → ∃ e r, forwarded.exchanges.getLast? = some e ∧
    e.outcome = .response r ∧ Forwarded.PassesOn result.response r ∧
      result.upstreamStatusCode = some r.statusCode ∧ result.apiKeyId = some e.keyId

theorem exchangesOf_append (events more : List Event) :
    exchangesOf (events ++ more) = exchangesOf events ++ exchangesOf more := List.filterMap_append

theorem toFastapiResponse_passesOn {r : UpstreamResponse} {response : Response}
    (h : toFastapiResponse r = .ok response) :
    Forwarded.PassesOn response r := by
  rw [toFastapiResponse, mkResponse] at h
  split at h
  · cases h
    refine ⟨rfl, rfl, ?_⟩
    simp only
    split
    · rw [List.filter_filter]
      simp
    · have hlength : dropResponseHeaders.contains "content-length" = true := by decide
      rw [List.filter_append, List.filter_filter, List.filter_cons_of_neg (by rw [hlength]; decide)]
      simp
  · cases h

section

variable {fwd : Forwarder} {masterKey : Bytes} {baseUrl : String} {req : ForwardRequest}
  {turn : Turn} {id : Nat} {key : ApiKey} {p : Progress}

theorem Unleased.exchangesOf {more : List Event} (h : Unleased id more) :
    exchangesOf more = [] := by
  rcases h with rfl | rfl | rfl | rfl <;> rfl

theorem Unleased.countP {more : List Event} (h : Unleased id more) :
    more.countP Event.isSelection = 0 := by
  rcases h with rfl | rfl | rfl | rfl <;> rfl

variable (fwd baseUrl req turn id p) in
/-- What the call of a pass logs is at most one exchange, with the key and the outcome of the
pass. -/
theorem called_exchanges (plaintextKey : String) :
    (exchangesOf (p.called fwd baseUrl req turn id plaintextKey).events = exchangesOf p.events ∧
        ∃ text, turn.outcome = .unsent text) ∨
      ∃ e, exchangesOf (p.called fwd baseUrl req turn id plaintextKey).events =
        exchangesOf p.events ++ [e] ∧
        e.keyId = id ∧ e.outcome = turn.outcome ∧ turn.outcome.sent = true := by
  simp only [Progress.called, call, Progress.log, exchangesOf_append]
  cases houtcome : turn.outcome with
  | unsent text => exact .inl ⟨by simp [exchanges, exchangesOf], text, rfl⟩
  | response r => exact .inr ⟨_, by simp [exchanges, exchangesOf]; rfl, rfl, rfl, rfl⟩
  | timeout => exact .inr ⟨_, by simp [exchanges, exchangesOf]; rfl, rfl, rfl, rfl⟩
  | httpError text => exact .inr ⟨_, by simp [exchanges, exchangesOf]; rfl, rfl, rfl, rfl⟩
  | exception text => exact .inr ⟨_, by simp [exchanges, exchangesOf]; rfl, rfl, rfl, rfl⟩

theorem called_selections (plaintextKey : String) :
    (p.called fwd baseUrl req turn id plaintextKey).events.countP Event.isSelection =
      p.events.countP Event.isSelection := by
  have hexchanges :
      ∀ before after, (exchanges fwd baseUrl req turn.outcome id plaintextKey before after).countP
        Event.isSelection = 0 := by
    intro before after
    cases turn.outcome <;> rfl
  simp only [Progress.called, call, Progress.log, List.countP_append, hexchanges]
  rfl

/-- The exchanges of an attempt belong to its key, and there is at most one more of them, counted as
an attempt; the answer it ends with is that of the last one. -/
structure AttemptKept (id : Nat) (p : Progress) (events : List Event) : Prop where
  selections : events.countP Event.isSelection = p.events.countP Event.isSelection
  exchanges : exchangesOf events = exchangesOf p.events ∨
    ∃ e, exchangesOf events = exchangesOf p.events ++ [e] ∧ e.keyId = id

theorem AttemptKept.calls {events : List Event} (h : AttemptKept id p events) :
    (exchangesOf events).length ≤ (exchangesOf p.events).length + 1 := by
  rcases h.exchanges with hsame | ⟨e, hmore, _⟩
  · rw [hsame]
    exact Nat.le_succ _
  · rw [hmore, List.length_append, List.length_singleton]

theorem AttemptKept.onlyKey {events : List Event} (h : AttemptKept id p events)
    (hbefore : ∀ e ∈ exchangesOf p.events, e.keyId = id) :
    ∀ e ∈ exchangesOf events, e.keyId = id := by
  intro e hmem
  rcases h.exchanges with hsame | ⟨last, hmore, hlast⟩
  · rw [hsame] at hmem
    exact hbefore e hmem
  · rw [hmore, List.mem_append, List.mem_singleton] at hmem
    rcases hmem with hold | rfl
    · exact hbefore e hold
    · exact hlast

theorem attemptKept_log {more : List Event} (hexchanges : exchangesOf more = [])
    (hselections : more.countP Event.isSelection = 0) : AttemptKept id p (p.events ++ more) where
  selections := by rw [List.countP_append, hselections, Nat.add_zero]
  exchanges := .inl (by rw [exchangesOf_append, hexchanges, List.append_nil])

variable (fwd baseUrl req turn id p) in
theorem attemptKept_called (plaintextKey : String) :
    AttemptKept id p (p.called fwd baseUrl req turn id plaintextKey).events where
  selections := called_selections plaintextKey
  exchanges := by
    rcases called_exchanges fwd baseUrl req turn id p plaintextKey with
      ⟨hsame, _⟩ | ⟨e, hmore, hid, _⟩
    · exact .inl hsame
    · exact .inr ⟨e, hmore, hid⟩

/-- What an attempt returns is its own answer. -/
def AnswersLast (id : Nat) (p : Progress) (forwarded : Forwarded) : Prop :=
  ∀ result, forwarded.result = .ok result →
    ∃ e r, (exchangesOf forwarded.events).getLast? = some e ∧ e.outcome = .response r ∧
      Forwarded.PassesOn result.response r ∧ result.upstreamStatusCode = some r.statusCode ∧
        e.keyId = id ∧ result.apiKeyId = p.lastApiKeyId

theorem respond_answersLast (plaintextKey : String) (retryCount : Nat) {r : UpstreamResponse}
    (houtcome : turn.outcome = .response r) :
    AnswersLast id p ({ p.called fwd baseUrl req turn id plaintextKey with retryCount }.respond
      r) := by
  intro result hresult
  rw [Progress.respond] at hresult
  obtain ⟨response, hresponse, rfl⟩ : ∃ response, toFastapiResponse r = .ok response ∧
      { response
        upstreamStatusCode := (p.called fwd baseUrl req turn id plaintextKey).lastUpstreamStatus
        apiKeyId := (p.called fwd baseUrl req turn id plaintextKey).lastApiKeyId
        retryCount : ForwardResult } = result := by
    cases hresponse : toFastapiResponse r with
    | error error =>
      rw [hresponse] at hresult
      cases hresult
    | ok response =>
      rw [hresponse] at hresult
      exact ⟨response, rfl, Except.ok.inj hresult⟩
  rcases called_exchanges fwd baseUrl req turn id p plaintextKey with ⟨_, text, hunsent⟩ |
    ⟨e, hmore, hid, hsame, _⟩
  · rw [houtcome] at hunsent
    cases hunsent
  · refine ⟨e, r, ?_, hsame.trans houtcome, toFastapiResponse_passesOn hresponse, ?_, hid, rfl⟩
    · show (exchangesOf (p.called fwd baseUrl req turn id plaintextKey).events).getLast? = some e
      rw [hmore, List.getLast?_append, List.getLast?_singleton]
      rfl
    · simp [Progress.called, call, houtcome]

/-- What an attempt does to the counts, and what it returns. -/
theorem Tried.bounded {pass : Pass Progress Forwarded}
    (h : Tried fwd masterKey baseUrl req turn id key p pass) :
    pass.Satisfies
      (fun p' => AttemptKept id p p'.events ∧ p'.lastApiKeyId = p.lastApiKeyId ∧
        (exchangesOf p'.events).length + p.upstreamAttempts ≤ (exchangesOf p.events).length +
          p'.upstreamAttempts ∧
          p'.upstreamAttempts ≤ p.upstreamAttempts + 1)
      (fun forwarded => AttemptKept id p forwarded.events ∧ AnswersLast id p forwarded) := by
  have hlost :
      ∀ events world (error : Raised), AnswersLast id p { result := .error error, world, events } :=
    fun _ _ _ _ hresult => by cases hresult
  have hcalled := attemptKept_called fwd baseUrl req turn id p
  cases h with
  | refused more error hmore hnot =>
    exact ⟨attemptKept_log hmore.exchangesOf hmore.countP, hlost _ _ _⟩
  | passedOver more retryCount hpassed hnot =>
    have hmore : Unleased id more := hpassed.unleased
    have hkept : AttemptKept id p (p.events ++ more) :=
      attemptKept_log hmore.exchangesOf hmore.countP
    refine ⟨hkept, rfl, ?_, Nat.le_succ _⟩
    show (exchangesOf (p.events ++ more)).length + p.upstreamAttempts ≤ _
    rw [exchangesOf_append, hmore.exchangesOf, List.append_nil]
    exact Nat.le_refl _
  | undecryptable error hsecret => exact ⟨attemptKept_log rfl rfl, hlost _ _ _⟩
  | disabled retryCount hsecret =>
    have hkept : AttemptKept id p (p.events ++ [.tokenTaken id, .leased id, .released id]) :=
      attemptKept_log rfl rfl
    refine ⟨hkept, rfl, ?_, Nat.le_succ _⟩
    show (exchangesOf (p.events ++ [.tokenTaken id, .leased id, .released id])).length +
      p.upstreamAttempts ≤ _
    rw [exchangesOf_append,
      show exchangesOf [.tokenTaken id, .leased id, .released id] = [] from rfl, List.append_nil]
    exact Nat.le_refl _
  | failed plaintextKey text hadmits hsecret houtcome => exact ⟨hcalled plaintextKey, hlost _ _ _⟩
  | gaveUp plaintextKey retryCount error hadmits hsecret houtcome =>
    exact ⟨hcalled plaintextKey, hlost _ _ _⟩
  | again plaintextKey retryCount hadmits hsecret houtcome =>
    refine ⟨hcalled plaintextKey, rfl, ?_, Nat.le_refl _⟩
    have hcalls := (hcalled plaintextKey).calls
    show (exchangesOf (p.called fwd baseUrl req turn id plaintextKey).events).length +
      p.upstreamAttempts ≤ (exchangesOf p.events).length + (p.upstreamAttempts + 1)
    omega
  | answered plaintextKey retryCount r hadmits hsecret houtcome =>
    exact ⟨hcalled plaintextKey, respond_answersLast plaintextKey retryCount houtcome⟩

end

/-! ### The two loops -/

section

variable (fwd : Forwarder) (masterKey : Bytes) (baseUrl : String) (req : ForwardRequest)
  (turns : Nat → Turn)

/-- What a forward that asks the pool has done before a pass. -/
structure PoolBounds (i : Nat) (p : Progress) : Prop where
  calls : (exchangesOf p.events).length ≤ p.upstreamAttempts
  attempts : p.upstreamAttempts ≤ fwd.totalAttempts req.provider
  selections : p.events.countP Event.isSelection ≤ i

/-- The bounds of a forward and where its answer comes from, with the key of the last call. -/
structure Bounded (limit : Nat) (forwarded : Forwarded) : Prop where
  calls : (exchangesOf forwarded.events).length ≤ fwd.totalAttempts req.provider
  selections : forwarded.selections ≤ limit
  answer : ∀ result, forwarded.result = .ok result →
    ∃ e r, (exchangesOf forwarded.events).getLast? = some e ∧ e.outcome = .response r ∧
      Forwarded.PassesOn result.response r ∧ result.upstreamStatusCode = some r.statusCode ∧
        result.apiKeyId = some e.keyId

theorem pooledPass_bounded {i limit : Nat} (hi : i < limit) {p : Progress}
    (h : PoolBounds fwd req i p) (hguard : p.upstreamAttempts < fwd.totalAttempts req.provider) :
    (pooledPass fwd masterKey baseUrl req turns i p).Satisfies (PoolBounds fwd req (i + 1))
      (Bounded fwd req limit) := by
  have hselected : exchangesOf (p.selected req (turns i)).events = exchangesOf p.events := by
    simp only [Progress.selected, Progress.log, exchangesOf_append]
    exact List.append_nil _
  have hcounted :
      (p.selected req (turns i)).events.countP Event.isSelection =
        p.events.countP Event.isSelection + 1 := by
    simp only [Progress.selected, Progress.log, List.countP_append]
    rfl
  have hcalls := h.calls
  have hselections := h.selections
  have hcases := pooledPass_cases fwd masterKey baseUrl req turns i p
  generalize pooledPass fwd masterKey baseUrl req turns i p = pass at hcases ⊢
  cases hcases with
  | refused error raised hresult =>
    refine ⟨?_, ?_, fun result hresult => by cases hresult⟩
    · show (exchangesOf (p.selected req (turns i)).events).length ≤ _
      rw [hselected]
      omega
    · show (p.selected req (turns i)).events.countP Event.isSelection ≤ limit
      omega
  | tried id key hresult htried =>
    have hbounded := htried.bounded
    cases pass with
    | again p' =>
      obtain ⟨hkept, _, hcount, hmore⟩ := hbounded
      have hsame := hkept.selections
      have hattempts : (p.selected req (turns i)).upstreamAttempts = p.upstreamAttempts := rfl
      simp only [hselected, hcounted, hattempts] at hcount hsame hmore
      exact ⟨by omega, by omega, by omega⟩
    | done forwarded =>
      obtain ⟨hkept, hanswer⟩ := hbounded
      have hsame := hkept.selections
      have hlength := hkept.calls
      simp only [hselected, hcounted] at hsame hlength
      refine ⟨by omega, ?_, fun result hresult => ?_⟩
      · show forwarded.events.countP Event.isSelection ≤ limit
        omega
      · obtain ⟨e, r, hlast, houtcome, hpasses, hstatus, hid, hkey⟩ := hanswer result hresult
        exact ⟨e, r, hlast, houtcome, hpasses, hstatus, by rw [hkey, hid]⟩

theorem forwardPooled_bounded (w : World) :
    Bounded fwd req (maxSelectionTries (fwd.totalAttempts req.provider))
      (forwardPooled fwd masterKey baseUrl req turns { world := w }) := by
  refine forwardPooled_passes fwd masterKey baseUrl req turns
    (fun i hi p h hguard => pooledPass_bounded fwd masterKey baseUrl req turns hi h hguard)
      (fun i hi p h => ?_) _ ?_
  · exact ⟨le_trans h.calls h.attempts, le_trans h.selections hi,
      fun result hresult => by cases hresult⟩
  · exact ⟨Nat.zero_le _, Nat.zero_le _, Nat.zero_le _⟩

/-- What a forward with an accepted pin has done before an attempt. -/
structure PinBounds (id i : Nat) (p : Progress) : Prop where
  calls : (exchangesOf p.events).length ≤ i
  selections : p.events.countP Event.isSelection = 0
  onlyKey : ∀ e ∈ exchangesOf p.events, e.keyId = id
  lastKey : p.lastApiKeyId = some id

/-- The forward asked the pool for nothing, and called no other key. -/
def BoundedOn (id : Nat) (forwarded : Forwarded) : Prop :=
  Bounded fwd req 0 forwarded ∧ ∀ e ∈ exchangesOf forwarded.events, e.keyId = id

theorem pinnedPass_bounded {id i : Nat} (hi : i < fwd.totalAttempts req.provider) {p : Progress}
    (h : PinBounds id i p) :
    (pinnedPass fwd masterKey baseUrl req turns id i p).Satisfies (PinBounds id (i + 1))
      (BoundedOn fwd req id) := by
  have hcalls := h.calls
  have hcases := pinnedPass_cases fwd masterKey baseUrl req turns id i p
  generalize pinnedPass fwd masterKey baseUrl req turns id i p = pass at hcases ⊢
  cases hcases with
  | deleted text hkey =>
    exact ⟨⟨le_trans hcalls (le_of_lt hi), le_of_eq h.selections,
      fun result hresult => by cases hresult⟩, h.onlyKey⟩
  | tried key hkey htried =>
    have hbounded := htried.bounded
    cases pass with
    | again p' =>
      obtain ⟨hkept, hlast, _, _⟩ := hbounded
      have hlength := hkept.calls
      exact ⟨by omega, hkept.selections.trans h.selections, hkept.onlyKey h.onlyKey,
        hlast.trans h.lastKey⟩
    | done forwarded =>
      obtain ⟨hkept, hanswer⟩ := hbounded
      have hlength := hkept.calls
      refine ⟨⟨by omega, le_of_eq (hkept.selections.trans h.selections), fun result hresult => ?_⟩,
        hkept.onlyKey h.onlyKey⟩
      obtain ⟨e, r, hlast, houtcome, hpasses, hstatus, hid, hkey⟩ := hanswer result hresult
      exact ⟨e, r, hlast, houtcome, hpasses, hstatus, by rw [hkey, h.lastKey, hid]⟩

theorem forwardPinned_bounded (id : Nat) (w : World) :
    BoundedOn fwd req id (forwardPinned fwd masterKey baseUrl req turns id { world := w }) := by
  refine forwardPinned_passes fwd masterKey baseUrl req turns id
    (fun _ hi _ h => pinnedPass_bounded fwd masterKey baseUrl req turns hi h) _ ?_
  exact ⟨Nat.zero_le _, rfl, fun _ hmem => absurd hmem List.not_mem_nil, rfl⟩

end

theorem Bounded.faithful {fwd : Forwarder} {req : ForwardRequest} {w : World} {limit : Nat}
    {forwarded : Forwarded} (h : Bounded fwd req limit forwarded)
    (hlimit : limit ≤ maxSelectionTries (fwd.totalAttempts req.provider))
    (hpinned : ∀ id, req.pinnedApiKeyId = some id → (pinnedKey? req w id).isSome = true →
      forwarded.selections = 0 ∧ ∀ e ∈ exchangesOf forwarded.events, e.keyId = id) :
    Forwarded.Faithful fwd req w forwarded := by
  refine ⟨h.calls, ?_, hpinned, h.answer⟩
  rw [maxSelectionTries, Forwarder.totalAttempts, Nat.mul_comm] at hlimit
  exact le_trans h.selections hlimit

/-- Every forward keeps to its attempts and returns what it received last. -/
theorem forward_faithful (fwd : Forwarder) (turns : Nat → Turn) (req : ForwardRequest) (w : World) :
    Forwarded.Faithful fwd req w (forward fwd turns req w) := by
  refine forward_passes (fun error => ?_) (fun masterKey baseUrl _ _ id key hpin _ => ?_)
    fun masterKey baseUrl _ _ hnone => ?_
  · have hnothing : Bounded fwd req 0 (({ world := w } : Progress).raise error) :=
      ⟨Nat.zero_le _, Nat.le_refl _, fun result hresult => by cases hresult⟩
    refine hnothing.faithful (Nat.zero_le _) fun id _ _ => ⟨rfl, ?_⟩
    exact fun _ hmem => absurd hmem List.not_mem_nil
  · obtain ⟨hbounded, honly⟩ := forwardPinned_bounded fwd masterKey baseUrl req turns id w
    refine hbounded.faithful (Nat.zero_le _) fun other hother _ => ?_
    rw [hpin, Option.some.injEq] at hother
    exact ⟨Nat.le_zero.mp hbounded.selections, hother ▸ honly⟩
  · refine (forwardPooled_bounded fwd masterKey baseUrl req turns w).faithful (Nat.le_refl _)
      fun id hpin haccepted => ?_
    rw [hpin, Option.bind_some] at hnone
    rw [hnone] at haccepted
    cases haccepted

end Fcam

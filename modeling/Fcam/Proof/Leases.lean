import Fcam.Base.Tally
import Fcam.Model.LeaseRun
import Fcam.Proof.LostUpdate
import Fcam.Proof.Passes

/-!
# Every lease of a key is given back

One forward: its events take leases one at a time, and each is given back before anything else
happens (`forward_balances`). Any number of forwards beside everything that writes keys: the
manager's count of a key is what it was plus one for every lease that is out, so the calls under way
stay within the limits it was asked with.
-/

namespace Fcam

/-! ### The events of one forward -/

/-- The key whose lease is out after an event, if the event may come then: a lease is taken and a
key is looked for while none is out, and a call is made with the leased key. -/
def leaseAfter (out : Option Nat) : Event → Option (Option Nat)
  | .leased id => if out = none then some (some id) else none
  | .exchanged exchange => if out = some exchange.keyId then some out else none
  | .released id => if out = some id then some none else none
  | _ => if out = none then some none else none

/-- Every lease is given back, once and before the next one is taken. -/
def LeasesBalance (events : List Event) : Prop := exec leaseAfter none events = some none

section

variable {fwd : Forwarder} {masterKey : Bytes} {baseUrl : String} {req : ForwardRequest}

theorem LeasesBalance.append {events more : List Event} (h : LeasesBalance events)
    (hmore : LeasesBalance more) :
    LeasesBalance (events ++ more) := by
  rw [LeasesBalance, exec_append, show exec leaseAfter none events = some none from h]
  exact hmore

theorem leasesBalance_unleased {id : Nat} {more : List Event} (hmore : Unleased id more) :
    LeasesBalance more := by
  rcases hmore with rfl | rfl | rfl | rfl <;> rfl

theorem leasesBalance_undecrypted (id : Nat) :
    LeasesBalance [.tokenTaken id, .leased id, .released id] := by
  simp [LeasesBalance, exec_cons, leaseAfter]

theorem leasesBalance_called {turn : Turn} {id : Nat} {plaintextKey : String} {p : Progress}
    (h : LeasesBalance p.events) :
    LeasesBalance (p.called fwd baseUrl req turn id plaintextKey).events := by
  have hcall : ∀ before after, LeasesBalance
      ([.tokenTaken id, .leased id] ++
       (exchanges fwd baseUrl req turn.outcome id plaintextKey before after ++
        [.released id])) := by
    intro before after
    cases turn.outcome <;> simp [LeasesBalance, exec_cons, leaseAfter, exchanges]
  have hall := h.append (hcall p.world
    (settle fwd.config req.method req.upstreamPath turn.outcome turn.settledAt req.clientId id
     p.world))
  rw [← List.append_assoc] at hall
  exact hall

def Progress.Balanced (p : Progress) : Prop := LeasesBalance p.events

def Forwarded.Balanced (forwarded : Forwarded) : Prop := LeasesBalance forwarded.events

theorem tried_balances {turn : Turn} {id : Nat} {key : ApiKey} {p : Progress}
    {pass : Pass Progress Forwarded} (htried : Tried fwd masterKey baseUrl req turn id key p pass)
    (h : p.Balanced) :
    pass.Satisfies Progress.Balanced Forwarded.Balanced := by
  cases htried with
  | refused more error hmore hnot => exact h.append (leasesBalance_unleased hmore)
  | passedOver more retryCount hmore hnot => exact h.append (leasesBalance_unleased hmore.unleased)
  | undecryptable error hsecret => exact h.append (leasesBalance_undecrypted id)
  | disabled retryCount hsecret => exact h.append (leasesBalance_undecrypted id)
  | failed plaintextKey text hadmits hsecret houtcome => exact leasesBalance_called h
  | gaveUp plaintextKey retryCount error hadmits hsecret houtcome => exact leasesBalance_called h
  | again plaintextKey retryCount hadmits hsecret houtcome => exact leasesBalance_called h
  | answered plaintextKey retryCount r hadmits hsecret houtcome => exact leasesBalance_called h

theorem pooledPass_balances (turns : Nat → Turn) (i : Nat) {p : Progress} (h : p.Balanced) :
    (pooledPass fwd masterKey baseUrl req turns i p).Satisfies Progress.Balanced
      Forwarded.Balanced := by
  have hselected : (p.selected req (turns i)).Balanced := LeasesBalance.append h rfl
  have hcases := pooledPass_cases fwd masterKey baseUrl req turns i p
  generalize pooledPass fwd masterKey baseUrl req turns i p = pass at hcases ⊢
  cases hcases with
  | refused error raised hresult => exact hselected
  | tried id key hresult htried => exact tried_balances htried hselected

theorem pinnedPass_balances (turns : Nat → Turn) (id i : Nat) {p : Progress} (h : p.Balanced) :
    (pinnedPass fwd masterKey baseUrl req turns id i p).Satisfies Progress.Balanced
      Forwarded.Balanced := by
  have hcases := pinnedPass_cases fwd masterKey baseUrl req turns id i p
  generalize pinnedPass fwd masterKey baseUrl req turns id i p = pass at hcases ⊢
  cases hcases with
  | deleted text hkey => exact h
  | tried key hkey htried => exact tried_balances htried h

end

theorem forward_balances (fwd : Forwarder) (turns : Nat → Turn) (req : ForwardRequest) (w : World) :
    (forward fwd turns req w).Balanced := by
  have hstart : ({ world := w } : Progress).Balanced := rfl
  refine forward_passes (fun _ => hstart) ?_ ?_
  · intro masterKey baseUrl _ _ id _ _ _
    exact forwardPinned_passes fwd masterKey baseUrl req turns id
      (fun i _ _ h => pinnedPass_balances turns id i h) _ hstart
  · intro masterKey baseUrl _ _ _
    exact forwardPooled_passes fwd masterKey baseUrl req turns
      (fun i _ _ h _ => pooledPass_balances turns i h) (fun _ _ _ h => h) _ hstart

/-! ### One step of a request -/

section

variable {fwd : Forwarder} {turn : Turn} {w : World} {d d' : Dispatch} {writes : List Write}

theorem guarded_of_waits {phase : DispatchPhase} (h : phase.Waits) : phase.guarded = false := by
  cases h <;> rfl

theorem retry_guarded (d : Dispatch) (expired : Bool) (id : Nat) (key : ApiKey) :
    (d.retry expired id key).phase.guarded = false := by
  rw [Dispatch.retry]
  cases expired <;> cases d.pinned <;> rfl

theorem choose_guarded (d : Dispatch) (held : Option (Nat × ApiKey)) :
    (d.choose fwd turn w held).phase.guarded = false := by
  simp only [Dispatch.choose]
  split
  · split
    · rfl
    · split <;> rfl
  · rfl

/-- A request enters the `try` where the limiter and the leases let it, and stays there with its
key. -/
theorem moves_guarded (hmoves : d.Moves fwd turn w d' writes) (hguarded : d'.phase.guarded = true) :
    d'.phase.attempt? = d.phase.attempt? ∧ (d.phase.guarded = true ∨
      ∃ id key retryAfter, d.phase = .gating id key ∧ turn.allow id key.rateLimitPerMin =
        .ok (true, retryAfter) ∧
        turn.tryAcquire id key.maxConcurrent = .ok true) := by
  have hwaits : d'.phase.Waits → False := fun hwaits => by
    rw [guarded_of_waits hwaits] at hguarded
    cases hguarded
  cases hmoves with
  | begun client hphase => exact (hwaits (begin_waits _ _ _)).elim
  | tested client hphase => exact (hwaits (testClient_waits _ _ _)).elim
  | chosen held hphase =>
    rw [choose_guarded] at hguarded
    cases hguarded
  | refused id key d' hphase hnext hrefused =>
    rcases hnext with rfl | rfl
    · exact (hwaits (tryAnother_waits _ _)).elim
    · cases hguarded
  | undecryptable id key retryAfter hphase hallow hlease hsecret =>
    exact (hwaits (tryAnother_waits _ _)).elim
  | sent id key retryAfter hphase hallow hlease hsecret =>
    rw [hphase]
    exact ⟨rfl, .inr ⟨id, key, retryAfter, rfl, hallow, hlease⟩⟩
  | returned id key hphase houtcome =>
    rw [hphase]
    exact ⟨rfl, .inl rfl⟩
  | lost id key outcome d' hphase hlost hnext =>
    rcases hnext with ⟨expired, rfl⟩ | rfl
    · rw [retry_guarded] at hguarded
      cases hguarded
    · cases hguarded
  | _ => cases hguarded

theorem moves_attempt? (hmoves : d.Moves fwd turn w d' writes) {id : Nat} {key : ApiKey}
    (hattempt : d'.phase.attempt? = some (id, key)) : d.phase.attempt? = some (id, key) ∨
      w.key? id = some key := by
  have hwaits : d'.phase.Waits → False := fun hwaits => by
    rw [hwaits.attempt?] at hattempt
    cases hattempt
  cases hmoves with
  | begun client hphase => exact (hwaits (begin_waits _ _ _)).elim
  | tested client hphase => exact (hwaits (testClient_waits _ _ _)).elim
  | pinAccepted id key hphase hkey henabled =>
    cases hattempt
    exact .inr hkey
  | chosen held hphase =>
    rw [choose_attempt?] at hattempt
    cases hattempt
  | loaded id key hphase hkey =>
    cases hattempt
    exact .inr hkey
  | refused id key d' hphase hnext hrefused =>
    rcases hnext with rfl | rfl
    · exact (hwaits (tryAnother_waits _ _)).elim
    · cases hattempt
  | undecryptable id key retryAfter hphase hallow hlease hsecret =>
    exact (hwaits (tryAnother_waits _ _)).elim
  | sent id key retryAfter hphase hallow hlease hsecret =>
    rw [hphase]
    exact .inl hattempt
  | returned id key hphase houtcome =>
    rw [hphase]
    exact .inl hattempt
  | lost id key outcome d' hphase hlost hnext =>
    rw [hphase]
    rcases hnext with ⟨expired, rfl⟩ | rfl
    · rw [Dispatch.retry] at hattempt
      cases expired <;> cases hpinned : d.pinned <;> simp only [hpinned] at hattempt <;>
        cases hattempt
      exact .inl rfl
    · cases hattempt
  | _ => cases hattempt

end

/-- The transitions of a request with its lease. -/
inductive Leased.Moves (fwd : Forwarder) (w : World) (m : ConcurrencyManager) (r : Leased) :
    Leased → ConcurrencyManager → List Write → Prop where
  | released (lease : Lease) (hlease : r.lease = some lease) (hleaving : r.leaving = true) :
      Moves fwd w m r { r with lease := none } (m.release lease).2 []
  | granted (id : Nat) (key : ApiKey) (lease : Lease) (m' : ConcurrencyManager)
      (hlease : r.lease = none) (hphase : r.dispatch.phase = .gating id key)
      (hgranted : m.tryAcquire id key.maxConcurrent = (some lease, m')) :
      Moves fwd w m r { r with lease := some lease, leaving := false } m' []
  | moved (turn : Turn) (m' : ConcurrencyManager) (d : Dispatch) (writes : List Write)
      (hstep : r.dispatch.step fwd turn w = some (d, writes))
      (hcount : ∀ id, m'.current id = m.current id)
      (hinside : r.lease.isSome = true → r.leaving = false)
      (hunleased : r.lease = none → ∀ id key, r.dispatch.phase = .gating id key → ∀ retryAfter,
        turn.allow id key.rateLimitPerMin = .ok (true, retryAfter) →
          turn.tryAcquire id key.maxConcurrent ≠ .ok true) :
      Moves fwd w m r { r with dispatch := d, leaving := !d.phase.guarded } m' writes

theorem leased_moves {fwd : Forwarder} {turn : Turn} {w : World} {m m' : ConcurrencyManager}
    {r r' : Leased} {writes : List Write} (hstep : r.step fwd turn w m = some (r', m', writes)) :
    r.Moves fwd w m r' m' writes := by
  have hmoved :
      ∀ (turn : Turn) (after : ConcurrencyManager), (∀ id, after.current id = m.current id) →
        (r.lease.isSome = true → r.leaving = false) →
      (r.lease = none → ∀ id key, r.dispatch.phase = .gating id key → ∀ retryAfter,
        turn.allow id key.rateLimitPerMin = .ok (true, retryAfter) →
          turn.tryAcquire id key.maxConcurrent ≠ .ok true) →
      ((r.dispatch.step fwd turn w).map fun stepped =>
        (({ r with dispatch := stepped.1, leaving := !stepped.1.phase.guarded } :
              Leased), after, stepped.2)) =
          some (r', m', writes) →
      r.Moves fwd w m r' m' writes := by
    intro turn after hcount hinside hunleased hmap
    obtain ⟨⟨d, sent⟩, hdispatch, heq⟩ := Option.map_eq_some_iff.mp hmap
    cases heq
    exact .moved turn _ d _ hdispatch hcount hinside hunleased
  simp only [Leased.step] at hstep
  split at hstep
  · next lease hlease =>
    split at hstep
    · next hleaving =>
      cases hstep
      exact .released lease hlease hleaving
    · next hleaving =>
      refine hmoved _ _ (fun _ => rfl) (fun _ => Bool.not_eq_true _ ▸ hleaving) (fun hnone => ?_)
        hstep
      rw [hlease] at hnone
      cases hnone
  · next hlease =>
    have hinside : r.lease.isSome = true → r.leaving = false := by
      rw [hlease]
      exact fun hsome => absurd hsome Bool.false_ne_true
    split at hstep
    · next id key hphase =>
      have hsame : ∀ other row, r.dispatch.phase = .gating other row → other = id ∧ row = key := by
        intro other row hother
        rw [hphase] at hother
        cases hother
        exact ⟨rfl, rfl⟩
      split at hstep
      · split at hstep
        · next lease after hgranted =>
          cases hstep
          exact .granted id key lease _ hlease hphase hgranted
        · next after hrefused =>
          refine hmoved _ _ (ConcurrencyManager.tryAcquire_refused hrefused) hinside
            (fun _ _ _ _ _ _ hleased => ?_) hstep
          cases hleased
      · next hlimited =>
        refine hmoved _ _ (fun _ => rfl) hinside (fun _ other row hother retryAfter hallow => ?_)
          hstep
        obtain ⟨rfl, rfl⟩ := hsame other row hother
        exact absurd hallow (hlimited retryAfter)
    · next hphase =>
      exact hmoved _ _ (fun _ => rfl) hinside
        (fun _ id key hgating => absurd hgating (hphase id key)) hstep

/-! ### What the leases of a request count for -/

/-- What a request counts for in the manager's count of a key. -/
def Leased.holds (id : Nat) (r : Leased) : Nat := r.lease.elim 0 (Lease.weight id)

/-- The request has a call with the key under way. -/
def Leased.calls (id : Nat) (r : Leased) : Nat :=
  match r.dispatch.phase with
  | .calling other _ => if other = id then 1 else 0
  | _ => 0

/-- A lease that is out has not been released, and inside the `try` it is one of the attempted
key. -/
structure Leased.Ok (r : Leased) : Prop where
  guarded : r.dispatch.phase.guarded = true → r.lease.isSome = true ∧ r.leaving = false
  unreleased : ∀ lease, r.lease = some lease → lease.released = false
  attempted : ∀ lease, r.lease = some lease → r.leaving = false →
    ∃ id key, r.dispatch.phase.attempt? = some (id, key) ∧
      (0 < key.maxConcurrent → lease.releases = some id)

theorem lease_weight_le (id : Nat) (lease : Lease) : lease.weight id ≤ 1 := by
  rw [Lease.weight]
  split
  · exact Nat.le_refl 1
  · exact Nat.zero_le 1

theorem holds_le (id : Nat) (r : Leased) : r.holds id ≤ 1 := by
  rw [Leased.holds]
  cases r.lease with
  | none => exact Nat.zero_le 1
  | some lease => exact lease_weight_le id lease

section

variable {fwd : Forwarder} {w : World} {m m' : ConcurrencyManager} {r r' : Leased}
  {writes : List Write}

theorem leased_ok (h : r.Ok) (hmoves : r.Moves fwd w m r' m' writes) : r'.Ok := by
  cases hmoves with
  | released lease hlease hleaving =>
    refine ⟨fun hguarded => ?_, fun _ hnone => (by cases hnone), fun _ hnone => (by cases hnone)⟩
    have hinside := (h.guarded hguarded).2
    rw [hleaving] at hinside
    cases hinside
  | granted id key lease m' hlease hphase hgranted =>
    obtain ⟨hunreleased, _, hpositive⟩ := ConcurrencyManager.tryAcquire_granted hgranted
    refine ⟨fun _ => ⟨rfl, rfl⟩, fun other hother => ?_, fun other hother _ => ?_⟩
    · cases hother
      exact hunreleased
    · cases hother
      refine ⟨id, key, ?_, fun hpos => (hpositive hpos).1⟩
      show r.dispatch.phase.attempt? = some (id, key)
      rw [hphase]
      rfl
  | moved turn m' d writes hstep hcount hinside hunleased =>
    refine ⟨fun hguarded => ⟨?_, ?_⟩, h.unreleased, fun lease hlease hleaving => ?_⟩
    · by_contra hnone
      rw [Bool.not_eq_true, Option.isSome_eq_false_iff, Option.isNone_iff_eq_none] at hnone
      have hlease : r.lease = none := hnone
      rcases (moves_guarded (step_moves hstep) hguarded).2 with
        hbefore | ⟨id, key, retryAfter, hphase, hallow, hleased⟩
      · have hsome := (h.guarded hbefore).1
        rw [hlease] at hsome
        cases hsome
      · exact hunleased hlease id key hphase retryAfter hallow hleased
    · show (!d.phase.guarded) = false
      rw [show d.phase.guarded = true from hguarded]
      rfl
    · have hguarded : d.phase.guarded = true := by
        rw [← Bool.not_not d.phase.guarded, show (!d.phase.guarded) = false from hleaving]
        rfl
      have hlease : r.lease = some lease := hlease
      obtain ⟨id, key, hattempt, hreleases⟩ :=
        h.attempted lease hlease (hinside (by rw [hlease]; rfl))
      exact ⟨id, key, (moves_guarded (step_moves hstep) hguarded).1.trans hattempt, hreleases⟩

theorem leased_count (hout : ∀ id, r.holds id ≤ m.current id)
    (hmoves : r.Moves fwd w m r' m' writes) (id : Nat) :
    m'.current id + r.holds id = m.current id + r'.holds id := by
  cases hmoves with
  | released lease hlease hleaving =>
    have hholds : ∀ other, r.holds other = lease.weight other :=
      fun other => by rw [Leased.holds, hlease, Option.elim_some]
    have hnow : Leased.holds id { r with lease := none } = 0 := rfl
    rw [hholds, hnow, Nat.add_zero]
    refine ConcurrencyManager.release_current (fun other => ?_) id
    rw [← hholds]
    exact hout other
  | granted other key lease m' hlease hphase hgranted =>
    have hbefore : r.holds id = 0 := by rw [Leased.holds, hlease, Option.elim_none]
    have hnow :
        Leased.holds id { r with lease := some lease, leaving := false } = lease.weight id := rfl
    rw [hbefore, hnow, (ConcurrencyManager.tryAcquire_granted hgranted).2.1 id, Nat.add_zero]
  | moved turn m' d writes hstep hcount hinside hunleased =>
    have hsame :
        Leased.holds id { r with dispatch := d, leaving := !d.phase.guarded } = r.holds id := rfl
    rw [hsame, hcount id]

theorem leased_holds (hmoves : r.Moves fwd w m r' m' writes) (id : Nat) :
    r'.holds id ≤ r.holds id ∨
      ∃ key, r.dispatch.phase.attempt? = some (id, key) ∧
        (0 < key.maxConcurrent → m.current id < key.maxConcurrent) := by
  cases hmoves with
  | released lease hlease hleaving => exact .inl (Nat.zero_le _)
  | granted other key lease m' hlease hphase hgranted =>
    obtain ⟨_, hcurrent, hpositive⟩ := ConcurrencyManager.tryAcquire_granted hgranted
    by_cases hsame : other = id
    · refine .inr ⟨key, ?_, fun hpos => ?_⟩
      · rw [hphase, hsame]
        rfl
      · rw [← hsame]
        exact (hpositive hpos).2
    · refine .inl ?_
      have hnow :
          Leased.holds id { r with lease := some lease, leaving := false } = lease.weight id := rfl
      have hnone : lease.weight id = 0 := by
        rw [Lease.weight, if_neg]
        rintro ⟨hreleases, _⟩
        rcases Nat.eq_zero_or_pos key.maxConcurrent with hzero | hpos
        · rw [hzero, ConcurrencyManager.tryAcquire, if_pos rfl] at hgranted
          cases hgranted
          cases hreleases
        · rw [(hpositive hpos).1, Option.some.injEq] at hreleases
          exact hsame hreleases
      rw [hnow, hnone]
      exact Nat.zero_le _
  | moved turn m' d writes hstep hcount hinside hunleased => exact .inl (Nat.le_refl _)

theorem leased_attempt? (hmoves : r.Moves fwd w m r' m' writes) {id : Nat} {key : ApiKey}
    (hattempt : r'.dispatch.phase.attempt? = some (id, key)) :
    r.dispatch.phase.attempt? = some (id, key) ∨ w.key? id = some key := by
  cases hmoves with
  | released lease hlease hleaving => exact .inl hattempt
  | granted other key lease m' hlease hphase hgranted => exact .inl hattempt
  | moved turn m' d writes hstep hcount hinside hunleased =>
    exact moves_attempt? (step_moves hstep) hattempt

theorem Leased.Ok.calls_le (h : r.Ok) {id : Nat}
    (hlimited : ∀ key, r.dispatch.phase.attempt? = some (id, key) → 0 < key.maxConcurrent) :
    r.calls id ≤ r.holds id := by
  rw [Leased.calls]
  cases hphase : r.dispatch.phase with
  | calling other key =>
    by_cases hsame : other = id
    · subst hsame
      obtain ⟨hsome, hinside⟩ := h.guarded (by rw [hphase]; rfl)
      obtain ⟨lease, hlease⟩ := Option.isSome_iff_exists.mp hsome
      obtain ⟨leased, row, hattempt, hreleases⟩ := h.attempted lease hlease hinside
      have hpos := hlimited key (by rw [hphase]; rfl)
      rw [hphase] at hattempt
      cases hattempt
      have hweight : r.holds other = 1 := by
        rw [Leased.holds, hlease, Option.elim_some, Lease.weight,
          if_pos ⟨hreleases hpos, h.unreleased lease hlease⟩]
      rw [hweight]
      simp
    · simp [hsame]
  | _ => exact Nat.zero_le _

end

/-! ### Runs -/

/-- A request that has returned or raised. -/
def Leased.Ended (r : Leased) : Prop :=
  (∃ answered, r.dispatch.phase = .finished answered) ∧ r.lease = none

namespace LeasedState

variable (id : Nat) (st : LeasedState)

/-- The leases of a key that are out, as far as they count. -/
def leasesOf : Nat := tally (Leased.holds id) st.requests

/-- The calls with a key that are under way. -/
def callsWith : Nat := tally (Leased.calls id) st.requests

/-- The stored limit of a key is positive and at most so much. -/
def Limited (limit : Nat) : Prop :=
  ∀ key, st.world.key? id = some key → 0 < key.maxConcurrent ∧ key.maxConcurrent ≤ limit

/-- The manager counts what it counted at first and the leases that are out. -/
structure Conserved (m₀ : ConcurrencyManager) : Prop where
  ok : ∀ r ∈ st.requests, r.Ok
  count : ∀ id, st.manager.current id = m₀.current id + st.leasesOf id

/-- The leases of the key that are out are at most the limit, and so is every limit still to be
asked with. -/
structure Within (limit : Nat) : Prop where
  copies : ∀ r ∈ st.requests, ∀ key, r.dispatch.phase.attempt? = some (id, key) →
    0 < key.maxConcurrent ∧ key.maxConcurrent ≤ limit
  leases : st.leasesOf id ≤ limit

end LeasedState

section

variable {fwd : Forwarder} {m₀ : ConcurrencyManager} {st st' : LeasedState}

theorem holds_le_leasesOf {r : Leased} (hmem : r ∈ st.requests) (id : Nat) :
    r.holds id ≤ st.leasesOf id :=
  List.single_le_sum (fun _ _ => Nat.zero_le _) _ (List.mem_map_of_mem hmem)

theorem advance_cases {i : Nat} {turn : Turn}
    (hnext : st.next fwd (.dispatch (.advance i turn)) = some st') :
    ∃ r r' m' writes, st.requests[i]? = some r ∧ r.Moves fwd st.world st.manager r' m' writes ∧
      st' =
        { st with
          world := commit writes st.world
          manager := m'
          requests := st.requests.set i r' } := by
  obtain ⟨⟨r', m', writes⟩, hstep, rfl⟩ := Option.map_eq_some_iff.mp hnext
  obtain ⟨r, hget, hstep⟩ := Option.bind_eq_some_iff.mp hstep
  exact ⟨r, r', m', writes, hget, leased_moves hstep, rfl⟩

theorem next_conserved {a : GatewayAction} (h : st.Conserved m₀)
    (hnext : st.next fwd a = some st') :
    st'.Conserved m₀ := by
  cases a with
  | dispatch a =>
    cases a with
    | arrive req =>
      obtain ⟨client, _, rfl⟩ := Option.map_eq_some_iff.mp hnext
      refine ⟨fun r hmem => ?_, fun id => ?_⟩
      · rcases List.mem_append.mp hmem with hold | hnew
        · exact h.ok r hold
        · rw [List.mem_singleton.mp hnew]
          exact ⟨fun hguarded => (by cases hguarded), fun _ hnone => (by cases hnone),
            fun _ hnone => (by cases hnone)⟩
      · have hnone : Leased.holds id { dispatch := { req, phase := .governing client } } = 0 := rfl
        rw [LeasedState.leasesOf, tally_concat, hnone]
        exact h.count id
    | advance i turn =>
      obtain ⟨r, r', m', writes, hget, hmoves, rfl⟩ := advance_cases hnext
      have hmem : r ∈ st.requests := List.mem_of_getElem? hget
      have hout : ∀ id, r.holds id ≤ st.manager.current id := fun id => by
        rw [h.count id]
        exact (holds_le_leasesOf hmem id).trans (Nat.le_add_left _ _)
      refine ⟨fun other hother => ?_, fun id => ?_⟩
      · rcases List.mem_or_eq_of_mem_set hother with hold | rfl
        · exact h.ok other hold
        · exact leased_ok (h.ok r hmem) hmoves
      · have hcount := leased_count hout hmoves id
        have hsum := tally_set (Leased.holds id) r' hget
        have hbefore := h.count id
        rw [LeasedState.leasesOf] at hbefore ⊢
        show m'.current id = m₀.current id + tally (Leased.holds id) (st.requests.set i r')
        omega
  | load ids =>
    cases hnext
    exact ⟨h.ok, h.count⟩
  | save t edit now =>
    obtain ⟨loaded, _, rfl⟩ := Option.map_eq_some_iff.mp hnext
    exact ⟨h.ok, h.count⟩

theorem next_within {a : GatewayAction} {id limit : Nat} (hcount : st.Conserved m₀)
    (h : st.Within id limit) (hlimit : st.Limited id limit) (hnext : st.next fwd a = some st') :
    st'.Within id limit := by
  cases a with
  | dispatch a =>
    cases a with
    | arrive req =>
      obtain ⟨client, _, rfl⟩ := Option.map_eq_some_iff.mp hnext
      refine ⟨fun r hmem key hattempt => ?_, ?_⟩
      · rcases List.mem_append.mp hmem with hold | hnew
        · exact h.copies r hold key hattempt
        · rw [List.mem_singleton.mp hnew] at hattempt
          cases hattempt
      · have hnone : Leased.holds id { dispatch := { req, phase := .governing client } } = 0 := rfl
        rw [LeasedState.leasesOf, tally_concat, hnone]
        exact h.leases
    | advance i turn =>
      obtain ⟨r, r', m', writes, hget, hmoves, rfl⟩ := advance_cases hnext
      have hmem : r ∈ st.requests := List.mem_of_getElem? hget
      refine ⟨fun other hother key hattempt => ?_, ?_⟩
      · rcases List.mem_or_eq_of_mem_set hother with hold | rfl
        · exact h.copies other hold key hattempt
        · rcases leased_attempt? hmoves hattempt with hsame | hstored
          · exact h.copies r hmem key hsame
          · exact hlimit key hstored
      · have hsum := tally_set (Leased.holds id) r' hget
        have hleases := h.leases
        rw [LeasedState.leasesOf] at hleases
        show tally (Leased.holds id) (st.requests.set i r') ≤ limit
        rcases leased_holds hmoves id with hless | ⟨key, hattempt, hroom⟩
        · omega
        · obtain ⟨hpos, hle⟩ := h.copies r hmem key hattempt
          have hroom := hroom hpos
          have hout := hcount.count id
          have hone := holds_le id r'
          rw [LeasedState.leasesOf] at hout
          omega
  | load ids =>
    cases hnext
    exact ⟨h.copies, h.leases⟩
  | save t edit now =>
    obtain ⟨loaded, _, rfl⟩ := Option.map_eq_some_iff.mp hnext
    exact ⟨h.copies, h.leases⟩

theorem callsWith_le {id limit : Nat} (hcount : st.Conserved m₀) (h : st.Within id limit) :
    st.callsWith id ≤ limit := by
  refine le_trans (tally_le fun r hmem => ?_) h.leases
  exact (hcount.ok r hmem).calls_le fun key hattempt => (h.copies r hmem key hattempt).1

theorem next_gateway {a : GatewayAction} (hnext : st.next fwd a = some st') :
    st'.gateway = st.gateway ∨ ∃ b : GatewayAction, b.next fwd st.gateway = some st'.gateway := by
  cases a with
  | dispatch a =>
    cases a with
    | arrive req =>
      obtain ⟨client, hclient, rfl⟩ := Option.map_eq_some_iff.mp hnext
      refine .inr ⟨.dispatch (.arrive req), ?_⟩
      simp [GatewayAction.next, DispatchAction.next, LeasedState.gateway, GatewayState.dispatch,
        GatewayState.withDispatch, hclient]
    | advance i turn =>
      obtain ⟨r, r', m', writes, hget, hmoves, rfl⟩ := advance_cases hnext
      have hunmoved : r'.dispatch = r.dispatch →
          (st.requests.set i r').map Leased.dispatch = st.requests.map Leased.dispatch := by
        intro hsame
        obtain ⟨hi, hr⟩ := List.getElem?_eq_some_iff.mp hget
        rw [List.map_set, hsame, ← hr,
          ← List.getElem_map Leased.dispatch (h := by rwa [List.length_map])]
        exact List.set_getElem_self _
      cases hmoves with
      | released lease hlease hleaving => exact .inl (by simp [LeasedState.gateway, hunmoved])
      | granted id key lease m' hlease hphase hgranted =>
        exact .inl (by simp [LeasedState.gateway, hunmoved])
      | moved turn m' d writes hstep hcount hinside hunleased =>
        refine .inr ⟨.dispatch (.advance i turn), ?_⟩
        simp [GatewayAction.next, DispatchAction.next, LeasedState.gateway, GatewayState.dispatch,
          GatewayState.withDispatch, hget, hstep, List.map_set]
  | load ids =>
    cases hnext
    exact .inr ⟨.load ids, rfl⟩
  | save t edit now =>
    obtain ⟨loaded, hloaded, rfl⟩ := Option.map_eq_some_iff.mp hnext
    refine .inr ⟨.save t edit now, ?_⟩
    simp [GatewayAction.next, LeasedState.gateway, hloaded]

/-- What holds of every run of the gateway holds of every run with the leases. -/
theorem leased_run_refines {first last : LeasedState} {trace : List GatewayAction}
    (hexec : exec (LeasedState.next fwd) first trace = some last) :
    ∃ without : List GatewayAction, exec (GatewayAction.next fwd) first.gateway without =
      some last.gateway :=
  exec_refines LeasedState.gateway (fun _ _ _ hnext => next_gateway hnext) hexec

theorem conserved_start (m₀ : ConcurrencyManager) (w : World) :
    LeasedState.Conserved { world := w, manager := m₀ } m₀ where
  ok _ hmem := absurd hmem List.not_mem_nil
  count _ := rfl

theorem run_conserved {w : World} {last : LeasedState} {trace : List GatewayAction}
    (hexec : exec (LeasedState.next fwd) { world := w, manager := m₀ } trace = some last) :
    last.Conserved m₀ :=
  exec_invariant (fun _ _ _ h hnext => next_conserved h hnext) hexec (conserved_start m₀ w)

theorem run_within {w : World} {last : LeasedState} {trace : List GatewayAction} {id limit : Nat}
    (hlimited : Meets (LeasedState.next fwd) (fun st _ => st.Limited id limit)
      { world := w, manager := m₀ } trace)
    (hexec : exec (LeasedState.next fwd) { world := w, manager := m₀ } trace = some last) :
    last.Within id limit := by
  have hstep : ∀ (st : LeasedState) a st', st.Conserved m₀ ∧ st.Within id limit →
      st.Limited id limit → st.next fwd a = some st' → st'.Conserved m₀ ∧ st'.Within id limit :=
    fun _ _ _ h hlimit hnext => ⟨next_conserved h.1 hnext, next_within h.1 h.2 hlimit hnext⟩
  have hstart : LeasedState.Within id { world := w, manager := m₀ } limit :=
    ⟨fun _ hmem => absurd hmem List.not_mem_nil, Nat.zero_le _⟩
  exact (exec_invariant_of_meets hstep hlimited hexec ⟨conserved_start m₀ w, hstart⟩).2

theorem leasesOf_of_ended (hended : ∀ r ∈ st.requests, r.Ended) (id : Nat) :
    st.leasesOf id = 0 := by
  refine List.sum_eq_zero fun held hheld => ?_
  obtain ⟨r, hmem, rfl⟩ := List.mem_map.mp hheld
  rw [Leased.holds, (hended r hmem).2, Option.elim_none]

/-- One forward gives back every lease it takes. In a run of any number of them the manager counts
exactly the leases that are out, so nothing once all have ended, and the calls under way with a key
stay within its largest limit. -/
theorem leases_conserved {w : World} {last : LeasedState} {trace : List GatewayAction}
    (hexec : exec (LeasedState.next fwd) { world := w, manager := m₀ } trace = some last) :
    (∀ turns req w, LeasesBalance (forward fwd turns req w).events) ∧
      (∀ id, last.manager.current id = m₀.current id + last.leasesOf id) ∧
      ((∀ r ∈ last.requests, r.Ended) → ∀ id, last.manager.current id = m₀.current id) ∧
      ∀ id limit, Meets (LeasedState.next fwd) (fun st _ => st.Limited id limit)
        { world := w, manager := m₀ } trace → last.callsWith id ≤ limit := by
  have hcount := run_conserved hexec
  refine ⟨fun turns req w => forward_balances fwd turns req w, hcount.count, fun hended id => ?_,
    fun id limit hlimited => ?_⟩
  · rw [hcount.count id, leasesOf_of_ended hended id, Nat.add_zero]
  · exact callsWith_le hcount (run_within hlimited hexec)

end

/-- A request that is answered, with the two steps its lease takes. -/
def leasedRequest : List GatewayAction :=
  .dispatch (.arrive scrapeForward) :: List.replicate 10 (.dispatch (.advance 0 answeredTurn))

theorem leases_conserved_answered :
    ∃ last, exec (LeasedState.next defaultForwarder)
      { world := servedWorld 5 } leasedRequest = some last ∧
      ∀ id, last.manager.current id = 0 := by
  obtain ⟨last, hexec, hended⟩ :
      ∃ last, exec (LeasedState.next defaultForwarder) { world := servedWorld 5 } leasedRequest =
        some last ∧ ∀ r ∈ last.requests, r.Ended := by
    refine ⟨_, rfl, fun r hmem => ?_⟩
    cases List.mem_singleton.mp hmem
    exact ⟨⟨_, rfl⟩, rfl⟩
  exact ⟨last, hexec, (leases_conserved hexec).2.2.1 hended⟩

end Fcam

import Fcam.Proof.LostUpdate

/-!
# The daily quota of a key

`select` tests the usage that is committed, and the answers of the calls under way come on top of
it. Where every call is made with room for itself beside those, and no update of the usage is lost,
the answers obtained with a key stay within its quota. Two requests that overlap on the last unit do
not leave that room.
-/

namespace Fcam

/-- The request has a call with the key under way, or an answer that is not accounted yet. -/
def Dispatch.inFlight (id : Nat) (d : Dispatch) : Nat :=
  match d.phase with
  | .calling other _ => if other = id then 1 else 0
  | .settling _ _ (.response _) => countWith id d.answered
  | .accounting other _ _ _ => if other = id then 1 else 0
  | _ => 0

/-- What a request takes of the quota of a key. -/
def Dispatch.engaged (id : Nat) (d : Dispatch) : Nat := countWith id d.accounted + d.inFlight id

namespace DispatchState

/-- The calls with a key that are under way or not accounted yet. -/
def inFlightWith (st : DispatchState) (id : Nat) : Nat := tally (Dispatch.inFlight id) st.requests

/-- The answers obtained with a key are at most its quota. -/
def WithinQuota (w₀ : World) (st : DispatchState) : Prop :=
  ∀ id key₀, w₀.key? id = some key₀ → st.answersWith id ≤ key₀.dailyQuota

end DispatchState

/-- A step that sends a request upstream leaves room in the quota for every call with the key that
is under way. -/
def DispatchAction.LeavesRoom (fwd : Forwarder) (st : DispatchState) : DispatchAction → Prop
  | .arrive _ => True
  | .advance i turn =>
    ∀ d d' writes, st.requests[i]? = some d → d.step fwd turn st.world = some (d', writes) →
      ∀ id key, d'.phase = .calling id key → ∀ stored, st.world.key? id = some stored →
        stored.dailyUsage + st.inFlightWith id < stored.dailyQuota

section

variable {fwd : Forwarder} {turn : Turn} {w : World} {d d' : Dispatch}

theorem engaged_of_idle (hidle : d.phase.idle = true) (id : Nat) : d.engaged id = 0 := by
  rw [Dispatch.engaged, accounted_of_idle hidle, Dispatch.inFlight]
  cases hphase : d.phase with
  | calling other key =>
    rw [hphase] at hidle
    cases hidle
  | settling other key outcome =>
    rw [hphase] at hidle
    cases hidle
  | accounting other key client r =>
    rw [hphase] at hidle
    cases hidle
  | _ => rfl

theorem answered_le_engaged (id : Nat) (d : Dispatch) : countWith id d.answered ≤ d.engaged id := by
  rw [Dispatch.engaged, Dispatch.accounted, Dispatch.inFlight]
  cases hphase : d.phase with
  | settling other key outcome => cases outcome <;> simp [Dispatch.answered, hphase]
  | _ => simp [Dispatch.answered, hphase]

/-- Only a request that is sent upstream takes more of a quota. -/
theorem step_engaged {writes : List Write} (hmode : fwd.config.quota.countMode = .success)
    (hstep : d.step fwd turn w = some (d', writes)) :
    (∃ id key, d'.phase = .calling id key ∧ ∀ other, d'.engaged other = if id = other then 1
      else 0) ∨
      ∀ id, d'.engaged id ≤ d.engaged id := by
  have hidle : d'.phase.idle = true → (∃ id key, d'.phase = .calling id key ∧
      ∀ other, d'.engaged other = if id = other then 1 else 0) ∨
        ∀ id, d'.engaged id ≤ d.engaged id := by
    intro hidle
    refine .inr fun id => ?_
    rw [engaged_of_idle hidle]
    exact Nat.zero_le _
  cases step_moves hstep with
  | begun client hphase => exact hidle (begin_waits _ _ _).idle
  | tested client hphase => exact hidle (testClient_waits _ _ _).idle
  | unclaimed hphase => exact hidle rfl
  | reset client hphase hchecked hquota hday => exact hidle rfl
  | pinAccepted id key hphase hkey henabled => exact hidle rfl
  | pinRejected held hphase hheld => exact hidle rfl
  | chosen held hphase => exact hidle (choose_idle _ _ _ _ _)
  | selected idx id loaded examined hphase => exact hidle rfl
  | vanished id hphase => exact hidle rfl
  | loaded id key hphase hkey => exact hidle rfl
  | refused id key d' hphase hnext hrefused =>
    rcases hnext with rfl | rfl
    · exact hidle (tryAnother_waits _ _).idle
    · exact hidle rfl
  | undecryptable id key retryAfter hphase hallow hlease hsecret =>
    exact hidle (tryAnother_waits _ _).idle
  | sent id key retryAfter hphase hallow hlease hsecret =>
    exact .inl ⟨id, key, rfl, fun other => by
      simp [Dispatch.moveTo, Dispatch.engaged, Dispatch.accounted, Dispatch.inFlight]⟩
  | broke id key hphase houtcome => exact hidle rfl
  | returned id key hphase houtcome =>
    refine .inr fun other => ?_
    have hbefore : d.engaged other = if id = other then 1 else 0 := by
      simp [Dispatch.engaged, Dispatch.accounted, Dispatch.inFlight, hphase]
    rw [hbefore]
    cases turn.outcome with
    | response r =>
      simp only [Dispatch.engaged, Dispatch.accounted, Dispatch.inFlight, Dispatch.answered,
        countWith_none]
      by_cases hsuccess : is2xx r.statusCode <;> simp [hsuccess]
    | _ => simp [Dispatch.engaged, Dispatch.accounted, Dispatch.inFlight]
  | lost id key outcome d' hphase hlost hnext =>
    rcases hnext with ⟨expired, rfl⟩ | rfl
    · exact hidle (retry_idle _ _ _ _)
    · exact hidle rfl
  | won id key r client hphase hwon hmode' hclient =>
    refine .inr fun other => le_of_eq ?_
    have hbefore : d.engaged other = if id = other then 1 else 0 := by
      simp [Dispatch.engaged, Dispatch.accounted, Dispatch.inFlight, Dispatch.answered, hphase,
        hwon]
    rw [hbefore]
    simp [Dispatch.moveTo, Dispatch.engaged, Dispatch.accounted, Dispatch.inFlight]
  | wonUnclaimed id key r hphase hwon hmode' hclient =>
    refine .inr fun other => le_of_eq ?_
    have hbefore : d.engaged other = if id = other then 1 else 0 := by
      simp [Dispatch.engaged, Dispatch.accounted, Dispatch.inFlight, Dispatch.answered, hphase,
        hwon]
    rw [hbefore]
    simp [Dispatch.moveTo, Dispatch.engaged, Dispatch.accounted, Dispatch.inFlight]
  | wonUncounted id key r hphase hwon hmode' => exact absurd hmode hmode'
  | accounted id key client r hphase =>
    refine .inr fun other => le_of_eq ?_
    have hbefore : d.engaged other = if id = other then 1 else 0 := by
      simp [Dispatch.engaged, Dispatch.accounted, Dispatch.inFlight, hphase]
    rw [hbefore]
    simp [Dispatch.moveTo, Dispatch.engaged, Dispatch.accounted, Dispatch.inFlight]

end

/-! ### Runs -/

section

variable {fwd : Forwarder} {today : Day} {w₀ : World}

/-- The usage is counted, and what is engaged of a quota is within it. -/
structure QuotaKept (fwd : Forwarder) (today : Day) (w₀ : World) (st : DispatchState) : Prop where
  counted : Counted (· = .keyUsage) today fwd w₀ st
  clients : SameClients w₀ st.world
  engaged : ∀ id key₀, w₀.key? id = some key₀ →
    tally (Dispatch.engaged id) st.requests ≤ key₀.dailyQuota

theorem next_quotaKept (hmode : fwd.config.quota.countMode = .success)
    (hzero : ∀ id key₀, w₀.key? id = some key₀ → key₀.dailyUsage = 0) (st : DispatchState)
    (a : DispatchAction) (st' : DispatchState) (h : QuotaKept fwd today w₀ st)
    (hok : a.CountsFresh (· = .keyUsage) today fwd st ∧ a.LeavesRoom fwd st)
    (hnext : a.next fwd st = some st') :
    QuotaKept fwd today w₀ st' := by
  obtain ⟨hcounted, hclients⟩ := next_counted hmode st a st' ⟨h.counted, h.clients⟩ hok.1 hnext
  refine ⟨hcounted, hclients, fun id key₀ hkey₀ => ?_⟩
  have hbefore := h.engaged id key₀ hkey₀
  cases a with
  | arrive req =>
    obtain ⟨client, _, rfl⟩ := Option.map_eq_some_iff.mp hnext
    rw [tally_concat, engaged_of_idle rfl]
    exact hbefore
  | advance i turn =>
    obtain ⟨⟨d', writes⟩, hbind, rfl⟩ := Option.map_eq_some_iff.mp hnext
    obtain ⟨d, hget, hstep⟩ := Option.bind_eq_some_iff.mp hbind
    have hset := tally_set (Dispatch.engaged id) d' hget
    show tally (Dispatch.engaged id) (st.requests.set i d') ≤ key₀.dailyQuota
    rcases step_engaged hmode hstep with ⟨other, key, hcalling, hengaged⟩ | hle
    · rw [hengaged] at hset
      by_cases heq : other = id
      · subst heq
        rw [if_pos rfl] at hset
        obtain ⟨stored, hstored, hrow⟩ := h.counted.keys other key₀ hkey₀
        have hroom := hok.2 d d' writes hget hstep other key hcalling stored hstored
        have husage := hrow.usage rfl
        have hsplit : tally (Dispatch.engaged other) st.requests =
            tally (fun d => countWith other d.accounted) st.requests + st.inFlightWith other :=
              tally_add _ _ _
        have hstart := hzero other key₀ hkey₀
        rw [hrow.quota] at hroom
        -- The usage of a row that started with 0 is what has been accounted, reset or not.
        have hcount :
            stored.dailyUsage = tally (fun d => countWith other d.accounted) st.requests := by
          rw [husage, hstart, ite_self, Nat.zero_add]
        omega
      · rw [if_neg heq] at hset
        omega
    · have hthis := hle id
      omega

/-- In every run on one day from unused keys, whose updates of the usage are fresh and whose calls
leave room for each other, the answers obtained with a key are at most its quota in every state
reached. -/
theorem run_withinQuota {last : DispatchState} {trace : List DispatchAction}
    (hmode : fwd.config.quota.countMode = .success)
    (hzero : ∀ id key₀, w₀.key? id = some key₀ → key₀.dailyUsage = 0)
    (hmeets : Meets (DispatchAction.next fwd)
      (fun st a => a.CountsFresh (· = .keyUsage) today fwd st ∧ a.LeavesRoom fwd st)
      { world := w₀ } trace)
    (hexec : exec (DispatchAction.next fwd) { world := w₀ } trace = some last) :
    last.WithinQuota w₀ := by
  have hstart : QuotaKept fwd today w₀ { world := w₀ } :=
    ⟨counted_start w₀, fun _ => rfl, fun _ _ _ => Nat.zero_le _⟩
  have hlast : QuotaKept fwd today w₀ last :=
    exec_invariant_of_meets (next_quotaKept hmode hzero) hmeets hexec hstart
  intro id key₀ hkey₀
  have hle : last.answersWith id ≤ tally (Dispatch.engaged id) last.requests :=
    tally_le fun d _ => answered_le_engaged id d
  exact le_trans hle (hlast.engaged id key₀ hkey₀)

end

theorem servedWorld_unused (dailyQuota id : Nat) (key₀ : ApiKey)
    (hkey₀ : (servedWorld dailyQuota).key? id = some key₀) :
    key₀.dailyUsage = 0 := by
  have hrow := List.mem_singleton.mp (Table.get?_eq_some_iff.mp hkey₀)
  have hkey : key₀ = _ := congrArg Prod.snd hrow
  rw [hkey]

theorem leavesRoom_advance {fwd : Forwarder} {st : DispatchState} {i : Nat} {turn : Turn}
    {d : Dispatch} (hget : st.requests[i]? = some d)
    (hroom : ∀ d' writes, d.step fwd turn st.world = some (d', writes) →
      ∀ id key, d'.phase = .calling id key → ∀ stored, st.world.key? id = some stored →
      stored.dailyUsage + st.inFlightWith id < stored.dailyQuota) :
    DispatchAction.LeavesRoom fwd st (.advance i turn) := by
  intro d₁ d' writes hget₁
  rw [hget, Option.some.injEq] at hget₁
  rw [← hget₁]
  exact hroom d' writes

def DispatchPhase.isCalling : DispatchPhase → Bool
  | calling _ _ => true
  | _ => false

/-- A step that does not send a request upstream. -/
theorem leavesRoom_of_step {fwd : Forwarder} {st : DispatchState} {i : Nat} {turn : Turn}
    {d d' : Dispatch} {writes : List Write} (hget : st.requests[i]? = some d)
    (hstep : d.step fwd turn st.world = some (d', writes)) (hphase : d'.phase.isCalling = false) :
    DispatchAction.LeavesRoom fwd st (.advance i turn) := by
  refine leavesRoom_advance hget fun d₁ writes₁ hstep₁ id key hcalling => ?_
  rw [hstep, Option.some.injEq, Prod.mk.injEq] at hstep₁
  rw [hstep₁.1, hcalling] at hphase
  cases hphase

theorem run_withinQuota_answered :
    ∃ last, exec (DispatchAction.next defaultForwarder)
      { world := servedWorld 1 } answeredRequest = some last ∧
      last.WithinQuota (servedWorld 1) := by
  have hmeets : Meets (DispatchAction.next defaultForwarder)
      (fun st a => a.CountsFresh (· = .keyUsage) 0 defaultForwarder st ∧
       a.LeavesRoom defaultForwarder st)
      { world := servedWorld 1 } answeredRequest := by
    refine meets_cons rfl ⟨trivial, trivial⟩ ?_
    refine meets_cons rfl ⟨countsFresh_advance rfl rfl nofun, leavesRoom_of_step rfl rfl rfl⟩ ?_
    refine meets_cons rfl ⟨countsFresh_advance rfl rfl trivial, leavesRoom_of_step rfl rfl rfl⟩ ?_
    refine meets_cons rfl ⟨countsFresh_advance rfl rfl ?_, leavesRoom_of_step rfl rfl rfl⟩ ?_
    · intro _ e he before hbefore hreset
      cases List.mem_singleton.mp he
      cases hbefore
      exact absurd rfl hreset
    refine meets_cons rfl ⟨countsFresh_advance rfl rfl trivial, leavesRoom_of_step rfl rfl rfl⟩ ?_
    -- The call that is made takes the one unit there is.
    refine meets_cons rfl ⟨countsFresh_advance rfl rfl trivial, leavesRoom_advance rfl ?_⟩ ?_
    · intro d' writes hstep id key hcalling stored hstored
      cases hstep
      cases hcalling
      cases hstored
      decide
    refine meets_cons rfl ⟨countsFresh_advance rfl rfl trivial, leavesRoom_of_step rfl rfl rfl⟩ ?_
    refine meets_cons rfl ⟨countsFresh_advance rfl rfl trivial, leavesRoom_of_step rfl rfl rfl⟩ ?_
    refine meets_cons rfl
      ⟨countsFresh_advance rfl rfl ⟨fun stored hstored => ?_, fun stored hstored => nofun⟩,
       leavesRoom_of_step rfl rfl rfl⟩ trivial
    cases hstored
    exact ⟨fun _ => rfl, nofun, nofun⟩
  have hmode : defaultForwarder.config.quota.countMode = .success := rfl
  exact ⟨_, rfl, run_withinQuota hmode (servedWorld_unused 1) hmeets rfl⟩

/-- Both requests see the last unit of the quota. -/
theorem overlapping_over_quota :
    ¬∀ (fwd : Forwarder) (today : Day) (w₀ : World) (last : DispatchState)
      (trace : List DispatchAction),
      fwd.config.quota.countMode = .success →
        (∀ id key₀, w₀.key? id = some key₀ → key₀.dailyUsage = 0) →
      Meets (DispatchAction.next fwd) (fun _ a => a.OnDay today) { world := w₀ } trace →
      exec (DispatchAction.next fwd) { world := w₀ } trace = some last → last.WithinQuota w₀ := by
  intro h
  have hday : ∀ a ∈ overlappingForwards, a.OnDay 0 := by
    simp [overlappingForwards, DispatchAction.OnDay, answeredTurn, Turn.unhindered]
  have hmeets :
      Meets (DispatchAction.next defaultForwarder) (fun _ a => a.OnDay 0) { world := servedWorld 1 }
      overlappingForwards :=
        meets_iff.mpr fun before a after _ htrace _ => hday a (by simp [htrace])
  have hwithin :=
    h defaultForwarder 0 (servedWorld 1) _ overlappingForwards rfl (servedWorld_unused 1) hmeets
    rfl
  exact absurd (hwithin 1 _ rfl) (by decide)

end Fcam

import Mathlib.Algebra.Order.BigOperators.Group.List
import Mathlib.Algebra.Order.Ring.Int
import Fcam.Model.KeyUse
import Fcam.Proof.Dispatch

/-!
# Daily usage and today's successes

A run of forwards over the days keeps, beside the state, the number of 2xx answers each key has
obtained on each day; a forward counts for the day it started on. `Recorded` says that the counters
of the rows agree with that history from a day on. A forward over the pool keeps it, because the
selection resets a counter of another day before it compares or counts with it. The pinned path has
neither the reset nor the comparison, so it keeps it only where both would have changed nothing.
-/

namespace Fcam

/-- The successes of a day a row has recorded. -/
def usageOn (day : Day) (key : ApiKey) : Nat :=
  if key.quotaResetAt = some day then key.dailyUsage else 0

/-! ### Successes in a log -/

def Event.wins (id : Nat) : Event → Nat
  | exchanged e => if e.keyId = id ∧ e.outcome.won = true then 1 else 0
  | _ => 0

/-- A history extended by the successes of a forward that started on a day. -/
def addWins (day : Day) (wins : Nat → Day → Nat) (events : List Event) : Nat → Day → Nat :=
  fun id d => wins id d + if d = day then (events.map (Event.wins id)).sum else 0

/-- The usage of a key was compared with its quota. -/
def Verdict.compared : Verdict → Bool
  | quotaExceeded => true
  | eligible => true
  | _ => false

/-- With the successes so far, a key called on a day is below its quota, and the usage a selection
compares is the number of successes of the selection's day. -/
def Event.Truthful (day : Day) (wins : Nat → Day → Nat) : Event → Prop
  | exchanged e => ∀ key, e.before.get? e.keyId = some key → wins e.keyId day < key.dailyQuota
  | examined today keys =>
    ∀ x ∈ keys, x.verdict.compared = true → x.row.dailyUsage = wins x.id today
  | _ => True

/-- Every event of a forward is truthful with the successes up to it. -/
def Truthful (day : Day) : (Nat → Day → Nat) → List Event → Prop
  | _, [] => True
  | wins, event :: rest => event.Truthful day wins ∧ Truthful day (addWins day wins [event]) rest

section Log

variable {day : Day} {wins : Nat → Day → Nat}

theorem addWins_of_none {events : List Event} (hnone : ∀ event ∈ events, ∀ id, event.wins id = 0) :
    addWins day wins events = wins := by
  funext id d
  have hsum : (events.map (Event.wins id)).sum = 0 := by
    apply List.sum_eq_zero
    intro n hn
    obtain ⟨event, hevent, rfl⟩ := List.mem_map.mp hn
    exact hnone event hevent id
  rw [addWins, hsum, ite_self, Nat.add_zero]

theorem addWins_append (events more : List Event) :
    addWins day (addWins day wins events) more = addWins day wins (events ++ more) := by
  funext id d
  simp only [addWins, List.map_append, List.sum_append]
  split <;> omega

theorem truthful_append {events more : List Event} :
    Truthful day wins (events ++ more) ↔
      Truthful day wins events ∧ Truthful day (addWins day wins events) more := by
  induction events generalizing wins with
  | nil =>
    have hnil : addWins day wins [] = wins := addWins_of_none (by simp)
    simp only [List.nil_append, Truthful, hnil, true_and]
  | cons event rest ih =>
    rw [List.cons_append, Truthful, Truthful, ih, addWins_append, List.singleton_append, and_assoc]

end Log

/-! ### Recorded rows -/

/-- The counters agree with the history: from the day on, each row has recorded the successes of
each day, and no row was reset on a later day. -/
def Recorded (day : Day) (w : World) (wins : Nat → Day → Nat) : Prop :=
  ∀ id key, w.key? id = some key →
    (∀ d, key.quotaResetAt = some d → d ≤ day) ∧ ∀ d, day ≤ d → usageOn d key = wins id d

theorem Recorded.mono {day later : Day} {w : World} {wins : Nat → Day → Nat}
    (h : Recorded day w wins) (hle : day ≤ later) : Recorded later w wins := by
  intro id key hkey
  obtain ⟨hpast, husage⟩ := h id key hkey
  refine ⟨fun d hd => le_trans (hpast d hd) hle, fun d hd => husage d (le_trans hle hd)⟩

/-- A change of a row that leaves its counter alone. -/
theorem Recorded.modifyKey {day : Day} {w : World} {wins : Nat → Day → Nat}
    (h : Recorded day w wins) (id : Nat) {f : ApiKey → ApiKey}
    (hsame : ∀ key, (f key).quotaResetAt = key.quotaResetAt ∧ (f key).dailyUsage = key.dailyUsage) :
    Recorded day (w.modifyKey id f) wins := by
  intro other row hrow
  obtain ⟨key, hkey, hrow⟩ := (rowUpdated_modifyKey w id f).before hrow
  have hrecorded := h other key hkey
  split at hrow
  · subst hrow
    simp only [usageOn, (hsame key).1, (hsame key).2]
    exact hrecorded
  · subst hrow
    exact hrecorded

theorem usageOn_of_future {day d : Day} {key : ApiKey}
    (hpast : ∀ d, key.quotaResetAt = some d → d ≤ day) (hlt : day < d) : usageOn d key = 0 := by
  rw [usageOn, if_neg]
  intro heq
  exact absurd hlt (not_lt.mpr (hpast d heq))

/-- A row reset or kept for a day has recorded what the row before had, from that day on. -/
theorem usageOn_of_reset {day : Day} {key row : ApiKey}
    (hpast : ∀ d, key.quotaResetAt = some d → d ≤ day) (hreset : row.quotaResetAt = some day)
    (husage : row.dailyUsage = usageOn day key) :
    (∀ d, row.quotaResetAt = some d → d ≤ day) ∧ ∀ d, day ≤ d → usageOn d row = usageOn d key := by
  have hrowPast : ∀ d, row.quotaResetAt = some d → d ≤ day := by
    intro d hd
    rw [hreset, Option.some.injEq] at hd
    exact le_of_eq hd.symm
  refine ⟨hrowPast, fun d hle => ?_⟩
  rcases eq_or_lt_of_le hle with rfl | hlt
  · rw [usageOn, if_pos hreset, husage]
  · rw [usageOn_of_future hrowPast hlt, usageOn_of_future hpast hlt]

theorem lazyReset_usageOn (today : Day) (key : ApiKey) :
    (lazyReset today key).dailyUsage = usageOn today key :=
  lazyReset_dailyUsage today key

theorem Examines.usageOn {env : PoolEnv} {id : Nat} {key : ApiKey} {verdict : Verdict}
    {row : ApiKey} (h : Examines env id key verdict row)
    (hpast : ∀ d, key.quotaResetAt = some d → d ≤ env.reading.today) :
    (∀ d, row.quotaResetAt = some d → d ≤ env.reading.today) ∧
      ∀ d, env.reading.today ≤ d → Fcam.usageOn d row = Fcam.usageOn d key := by
  cases h with
  | disabled => exact ⟨hpast, fun _ _ => rfl⟩
  | cooling =>
    exact usageOn_of_reset hpast (lazyReset_quotaResetAt _ key) (lazyReset_usageOn _ key)
  | quotaExceeded tested _ htested =>
    exact usageOn_of_reset hpast htested.quotaResetAt
      (htested.dailyUsage.trans (lazyReset_usageOn _ key))
  | eligible tested _ htested =>
    exact usageOn_of_reset hpast htested.quotaResetAt
      (htested.dailyUsage.trans (lazyReset_usageOn _ key))

/-- The usage a selection compares is the one the row before has recorded for the day. -/
theorem Examines.compared_usage {env : PoolEnv} {id : Nat} {key : ApiKey} {verdict : Verdict}
    {row : ApiKey} (h : Examines env id key verdict row) (hcompared : verdict.compared = true) :
    row.dailyUsage = Fcam.usageOn env.reading.today key := by
  cases h with
  | disabled => cases hcompared
  | cooling => cases hcompared
  | quotaExceeded tested _ htested => exact htested.dailyUsage.trans (lazyReset_usageOn _ key)
  | eligible tested _ htested => exact htested.dailyUsage.trans (lazyReset_usageOn _ key)

theorem select_recorded {env : PoolEnv} {w : World} {clientId : Option Nat} {provider : Provider}
    {wins : Nat → Day → Nat} (h : Recorded env.reading.today w wins) :
    Recorded env.reading.today (select env w clientId provider).world wins := by
  intro id row hrow
  obtain ⟨key, hkey, hrow⟩ := select_key? hrow
  obtain ⟨hpast, husage⟩ := h id key hkey
  rcases hrow with rfl | ⟨verdict, hcases⟩
  · exact ⟨hpast, husage⟩
  · obtain ⟨hrowPast, hrowUsage⟩ := hcases.usageOn hpast
    exact ⟨hrowPast, fun d hle => (hrowUsage d hle).trans (husage d hle)⟩

/-! ### One call -/

theorem settleRow_dailyUsage {config : AppConfig} (hmode : config.quota.countMode = .success)
    (method path : String) (outcome : Outcome) (now : Instant) (reached : Bool) (key : ApiKey) :
    (settleRow config method path outcome now reached key).dailyUsage =
      key.dailyUsage + if outcome.won = true then 1 else 0 := by
  rw [(settleRow_counters config method path outcome now reached key).1, gain]
  simp only [hmode, true_and]

section Call

variable {fwd : Forwarder} (baseUrl : String) (req : ForwardRequest) {day : Day}
  {wins : Nat → Day → Nat}

/-- Before a call: no success of this forward yet, and everything so far is recorded and
truthful. -/
structure Waiting (day : Day) (wins : Nat → Day → Nat) (w : World)
    (events : List Event) : Prop where
  recorded : Recorded day w wins
  truthful : Truthful day wins events
  noWin : ∀ event ∈ events, ∀ id, event.wins id = 0

/-- At any point: everything so far, successes of this forward included, is recorded and
truthful. -/
structure Accounted (day : Day) (wins : Nat → Day → Nat) (w : World)
    (events : List Event) : Prop where
  recorded : Recorded day w (addWins day wins events)
  truthful : Truthful day wins events

theorem Waiting.accounted {w : World} {events : List Event} (h : Waiting day wins w events) :
    Accounted day wins w events where
  recorded := by
    rw [addWins_of_none h.noWin]
    exact h.recorded
  truthful := h.truthful

theorem Event.quiet_truthful {event : Event} (h : event.quiet = true) :
    event.Truthful day wins ∧ ∀ id, event.wins id = 0 := by
  cases event with
  | examined today keys => cases h
  | exchanged e => cases h
  | rateLimited id => exact ⟨trivial, fun _ => rfl⟩
  | tokenTaken id => exact ⟨trivial, fun _ => rfl⟩
  | busy id => exact ⟨trivial, fun _ => rfl⟩
  | leased id => exact ⟨trivial, fun _ => rfl⟩
  | released id => exact ⟨trivial, fun _ => rfl⟩

/-- Events that are truthful by themselves and no successes. -/
theorem Waiting.log {w : World} {events : List Event} (h : Waiting day wins w events)
    (more : List Event)
    (hquiet : ∀ event ∈ more, event.Truthful day wins ∧ ∀ id, event.wins id = 0) :
    Waiting day wins w (events ++ more) where
  recorded := h.recorded
  truthful := by
    rw [truthful_append, addWins_of_none h.noWin]
    refine ⟨h.truthful, ?_⟩
    clear h
    induction more with
    | nil => trivial
    | cons event rest ih =>
      have hevent := hquiet event List.mem_cons_self
      refine ⟨hevent.1, ?_⟩
      rw [addWins_of_none (by simpa using hevent.2)]
      exact ih fun event' hmem => hquiet event' (List.mem_cons_of_mem _ hmem)
  noWin := by
    intro event hmem
    rcases List.mem_append.mp hmem with hold | hnew
    · exact h.noWin event hold
    · exact (hquiet event hnew).2

theorem exchanges_truthful {outcome : Outcome} {id : Nat} {plaintextKey : String}
    {before after : World}
    (hquota : ∀ row, before.db.keys.get? id = some row → wins id day < row.dailyQuota) :
    Truthful day wins (exchanges fwd baseUrl req outcome id plaintextKey before after ++
      [Event.released id]) := by
  cases outcome with
  | unsent text => exact ⟨trivial, trivial⟩
  | response r => exact ⟨hquota, trivial, trivial⟩
  | timeout => exact ⟨hquota, trivial, trivial⟩
  | httpError text => exact ⟨hquota, trivial, trivial⟩
  | exception text => exact ⟨hquota, trivial, trivial⟩

theorem exchanges_wins (outcome : Outcome) (id other : Nat) (plaintextKey : String)
    (before after : World) :
    ((exchanges fwd baseUrl req outcome id plaintextKey before after ++ [Event.released id]).map
      (Event.wins other)).sum = if id = other ∧ outcome.won = true then 1 else 0 := by
  cases outcome with
  | unsent text => simp [exchanges, Event.wins, Outcome.won]
  | response r => simp [exchanges, Event.wins]
  | timeout => simp [exchanges, Event.wins, Outcome.won]
  | httpError text => simp [exchanges, Event.wins, Outcome.won]
  | exception text => simp [exchanges, Event.wins, Outcome.won]

theorem exchanges_noWin {outcome : Outcome} (hlost : outcome.won = false) (id : Nat)
    (plaintextKey : String) (before after : World) :
    ∀ event ∈ exchanges fwd baseUrl req outcome id plaintextKey before after ++ [Event.released id],
      ∀ other, event.wins other = 0 := by
  cases outcome with
  | unsent text => simp [exchanges, Event.wins]
  | response r => simp [exchanges, Event.wins, hlost]
  | timeout => simp [exchanges, Event.wins, Outcome.won]
  | httpError text => simp [exchanges, Event.wins, Outcome.won]
  | exception text => simp [exchanges, Event.wins, Outcome.won]

/-- The rows after a call, against the history with its success. -/
theorem settle_recorded {turn : Turn} {id : Nat} {key : ApiKey} {w : World} {events : List Event}
    (hmode : fwd.config.quota.countMode = .success) (hrecorded : Recorded day w wins)
    (hkey : w.key? id = some key) (hreset : turn.outcome.won = true → key.quotaResetAt = some day)
    (hwins : ∀ other, (events.map (Event.wins other)).sum = if id = other ∧
      turn.outcome.won = true then 1 else 0) :
    Recorded day (settle fwd.config req.method req.upstreamPath turn.outcome turn.settledAt
      req.clientId id w) (addWins day wins events) := by
  have hupdated :=
    settle_row fwd.config req.method req.upstreamPath turn.outcome turn.settledAt req.clientId id w
  intro other row hrow
  obtain ⟨before, hbefore, hrow⟩ := hupdated.before hrow
  obtain ⟨hpast, husage⟩ := hrecorded other before hbefore
  by_cases hid : other = id
  · subst hid
    rw [hkey, Option.some.injEq] at hbefore
    subst hbefore
    rw [if_pos rfl] at hrow
    subst hrow
    refine ⟨fun d hd => hpast d (by rwa [settleRow_quotaResetAt] at hd), fun d hle => ?_⟩
    rw [addWins, hwins, ← husage d hle, usageOn, usageOn, settleRow_quotaResetAt,
      settleRow_dailyUsage hmode]
    by_cases hwon : turn.outcome.won = true
    · by_cases hd : d = day
      · simp [hreset hwon, hwon, hd]
      · simp [hreset hwon, hd, Ne.symm hd]
    · simp [hwon]
  · rw [if_neg hid] at hrow
    subst hrow
    refine ⟨hpast, fun d hle => ?_⟩
    have hnone : ¬(id = other ∧ turn.outcome.won = true) := fun h => hid h.1.symm
    rw [addWins, hwins, if_neg hnone, ite_self, Nat.add_zero]
    exact husage d hle

/-! ### The forward -/

/-- The key about to be called is below its quota today, and its counter is today's where the
forward may succeed. -/
def BelowQuota (day : Day) (mayWin : Prop) (w : World) (id : Nat) : Prop :=
  ∃ key, w.key? id = some key ∧ usageOn day key < key.dailyQuota ∧
    (mayWin → key.quotaResetAt = some day)

theorem callEvents_truthful {turns : Nat → Turn} {i id : Nat} {key : ApiKey} {plaintextKey : String}
    {w : World} {events : List Event} (h : Waiting day wins w events) (hkey : w.key? id = some key)
    (hquota : usageOn day key < key.dailyQuota) :
    Truthful day wins (events ++ callEvents fwd baseUrl req turns i id plaintextKey w) := by
  rw [truthful_append, addWins_of_none h.noWin]
  refine ⟨h.truthful, exchanges_truthful baseUrl req fun row hrow => ?_⟩
  rw [World.key?, hrow, Option.some.injEq] at hkey
  rw [← (h.recorded id row hrow).2 day le_rfl, hkey]
  exact hquota

theorem callRule_daily {turns : Nat → Turn} {bound : Nat} {mayWin : Prop}
    (hmode : fwd.config.quota.countMode = .success)
    (hmayWin : ∀ i < bound, (turns i).outcome.won = true → mayWin) :
    CallRule fwd baseUrl req turns bound (Waiting day wins) (Accounted day wins)
      (BelowQuota day mayWin) where
  ended_of_waiting h := h.accounted
  quiet more h hquiet := h.log more fun event hmem => Event.quiet_truthful (hquiet event hmem)
  undecryptable id h := ⟨h.recorded.modifyKey id fun _ => ⟨rfl, rfl⟩, h.truthful, h.noWin⟩
  call {w events i} id plaintextKey hi h hready := by
    obtain ⟨key, hkey, hquota, hreset⟩ := hready
    refine ⟨?_, callEvents_truthful baseUrl req h hkey hquota⟩
    rw [← addWins_append, addWins_of_none h.noWin]
    exact settle_recorded req hmode h.recorded hkey (fun hwon => hreset (hmayWin i hi hwon))
      fun other => exchanges_wins baseUrl req _ id other _ _ _
  callAgain {w events i} id plaintextKey hi h hready hretried := by
    obtain ⟨key, hkey, hquota, hreset⟩ := hready
    have hnoWin :
        ∀ event ∈ callEvents fwd baseUrl req turns i id plaintextKey w, ∀ other,
          event.wins other = 0 :=
      exchanges_noWin baseUrl req (Outcome.not_won_of_retried hretried) id plaintextKey w _
    have hrecorded : Recorded day (settled fwd req turns i id w)
        (addWins day wins (callEvents fwd baseUrl req turns i id plaintextKey w)) :=
      settle_recorded req hmode h.recorded hkey (fun hwon => hreset (hmayWin i hi hwon))
        fun other => exchanges_wins baseUrl req _ id other _ _ _
    rw [addWins_of_none hnoWin] at hrecorded
    refine ⟨hrecorded, callEvents_truthful baseUrl req h hkey hquota, ?_⟩
    intro event hmem
    rcases List.mem_append.mp hmem with hold | hnew
    · exact h.noWin event hold
    · exact hnoWin event hnew
  stillReady {w events i} id _ _ hready honPin := by
    obtain ⟨key, hkey, hquota, hreset⟩ := hready
    have hlost := Outcome.not_won_of_retried (Outcome.retried_of_onPin honPin)
    refine ⟨_, (settle_row _ _ _ _ _ _ _ _).self hkey, ?_, ?_⟩
    · rw [usageOn, settleRow_quotaResetAt, settleRow_dailyUsage hmode, hlost, settleRow_frame]
      exact hquota
    · rw [settleRow_quotaResetAt]
      exact hreset

theorem selectRule_daily {turns : Nat → Turn} (hday : ∀ i, (turns i).pool.reading.today = day) :
    SelectRule req turns (Waiting day wins) (BelowQuota day True) where
  select {w events} i h := by
    intro selection
    have hrecorded : Recorded day selection.world wins := by
      have hrecorded := h.recorded
      rw [← hday i] at hrecorded ⊢
      exact select_recorded hrecorded
    have hselected : Waiting day wins selection.world events := ⟨hrecorded, h.truthful, h.noWin⟩
    apply hselected.log
    intro event hmem
    rw [List.mem_singleton] at hmem
    subst hmem
    refine ⟨fun x hx hcompared => ?_, fun _ => rfl⟩
    obtain ⟨key, hkey, _, hcases⟩ := select_examined hx
    rw [hcases.compared_usage hcompared, hday i]
    exact (h.recorded x.id key hkey).2 day le_rfl
  ready i id key _ := by
    intro selection hresult
    obtain ⟨hkey, row, _, _, hcases⟩ := select_ok hresult
    cases hcases with
    | eligible _ henabled htested hquota =>
      have hreset := htested.quotaResetAt
      rw [hday i] at hreset
      refine ⟨key, hkey, ?_, fun _ => hreset⟩
      rw [usageOn, if_pos hreset]
      exact hquota

/-- What a forward asks of its surroundings and of the state it starts in, to keep the history: a
pooled forward selects on the day it started; an accepted pin is below its quota today, and unless
none of the attempts succeeds its counter is today's. -/
def KeepsDays (fwd : Forwarder) (turns : Nat → Turn) (req : ForwardRequest) (day : Day)
    (w : World) : Prop :=
  match req.pinnedApiKeyId.bind (pinnedKey? req w) with
  | none => ∀ i, (turns i).pool.reading.today = day
  | some key =>
    usageOn day key < key.dailyQuota ∧
      (key.quotaResetAt = some day ∨
       ∀ i < fwd.totalAttempts req.provider, (turns i).outcome.won = false)

theorem forward_daily {turns : Nat → Turn} {w : World}
    (hmode : fwd.config.quota.countMode = .success) (hkeeps : KeepsDays fwd turns req day w)
    (hrecorded : Recorded day w wins) :
    Accounted day wins (forward fwd turns req w).world (forward fwd turns req w).events := by
  have hstart : Waiting day wins w [] := ⟨hrecorded, trivial, by simp⟩
  rw [KeepsDays] at hkeeps
  refine forward_rule (Waiting day wins) (Accounted day wins) hstart hstart.accounted ?_ ?_
  · intro baseUrl _ id key hpin haccepted
    rw [hpin, Option.bind_some, haccepted] at hkeeps
    obtain ⟨hquota, hreset⟩ := hkeeps
    refine ⟨_, callRule_daily baseUrl req hmode fun i hi hwon => ?_, key,
      (pinnedKey?_eq_some haccepted).1, hquota, fun htoday : key.quotaResetAt = some day => htoday⟩
    refine hreset.resolve_right fun hlost => ?_
    rw [hlost i hi] at hwon
    cases hwon
  · intro baseUrl _ hnone
    rw [hnone] at hkeeps
    exact ⟨_, callRule_daily baseUrl req hmode fun _ _ _ => trivial, selectRule_daily req hkeeps⟩

end Call

/-! ### Runs over the days -/

/-- A forward with the days it starts and ends on; its clock readings lie in between. -/
structure DatedForward where
  startedOn : Day
  endedOn : Day
  turns : Nat → Turn
  req : ForwardRequest
  inOrder : startedOn ≤ endedOn ∧
    ∀ i, startedOn ≤ (turns i).pool.reading.today ∧ (turns i).pool.reading.today ≤ endedOn

/-- The state, the day the last forward ended on, and the successes of each key on each day. -/
structure DailyState where
  world : World
  clock : Day
  wins : Nat → Day → Nat

/-- One forward of a sequential run, which starts no earlier than the last one ended. -/
def DatedForward.next (fwd : Forwarder) (s : DailyState) (f : DatedForward) : Option DailyState :=
  if s.clock ≤ f.startedOn then
    let forwarded := forward fwd f.turns f.req s.world
    some
      { world := forwarded.world
        clock := f.endedOn
        wins := addWins f.startedOn s.wins forwarded.events }
  else none

/-- Every event of the forward is truthful. -/
def DatedForward.Truthful (fwd : Forwarder) (s : DailyState) (f : DatedForward) : Prop :=
  Fcam.Truthful f.startedOn s.wins (forward fwd f.turns f.req s.world).events

/-- The counters agree with the history from the current day on. -/
def DailyState.Recorded (s : DailyState) : Prop := Fcam.Recorded s.clock s.world s.wins

theorem next_recorded {fwd : Forwarder} (hmode : fwd.config.quota.countMode = .success)
    (s : DailyState) (f : DatedForward) (s' : DailyState) (hrecorded : s.Recorded)
    (hkeeps : KeepsDays fwd f.turns f.req f.startedOn s.world) (hnext : f.next fwd s = some s') :
    s'.Recorded ∧ f.Truthful fwd s := by
  rw [DatedForward.next] at hnext
  split at hnext
  · next hle =>
    have haccounted := forward_daily f.req hmode hkeeps (hrecorded.mono hle)
    rw [Option.some.injEq] at hnext
    subst hnext
    exact ⟨haccounted.recorded.mono f.inOrder.1, haccounted.truthful⟩
  · cases hnext

/-- In every run of forwards that keep to their days, each key called is below its quota by today's
successes, and each comparison uses today's successes. -/
theorem run_truthful {fwd : Forwarder} (hmode : fwd.config.quota.countMode = .success)
    {s last : DailyState} {trace : List DatedForward} (hrecorded : s.Recorded)
    (hkeeps : Meets (DatedForward.next fwd)
      (fun s f => KeepsDays fwd f.turns f.req f.startedOn s.world) s trace)
    (hexec : exec (DatedForward.next fwd) s trace = some last) :
    Meets (DatedForward.next fwd) (fun s f => f.Truthful fwd s) s trace :=
  meets_of_invariant (next_recorded hmode) hkeeps hexec hrecorded

/-! ### Two pinned forwards on one day -/

/-- A key of client 1 with a daily quota of one, unused today, and no successes yet. -/
def freshDay : DailyState :=
  let key : ApiKey :=
    { clientId := some 1, apiKeyCiphertext := [107], dailyQuota := 1, quotaResetAt := some 0 }
  { world := { db := { keys := Table.empty.insert key } }
    clock := 0
    wins := fun _ _ => 0 }

theorem freshDay_recorded : freshDay.Recorded := by
  intro id key hkey
  have hmem := Table.get?_eq_some_iff.mp hkey
  have hrow := Prod.mk.inj (List.mem_singleton.mp hmem)
  rw [hrow.2]
  refine ⟨fun d hd => ?_, fun d _ => ?_⟩
  · rw [← Option.some.inj hd]
    exact le_rfl
  · exact ite_self 0

/-- A forward of client 1, answered 200 at once. -/
def answeredForward (pinnedApiKeyId : Option Nat) : DatedForward :=
  { startedOn := 0
    endedOn := 0
    turns := fun _ => .unhindered 0 0 (.response { statusCode := 200 })
    req := { clientId := 1, method := "GET", upstreamPath := "/v2/crawl/1", pinnedApiKeyId }
    inOrder := ⟨le_rfl, fun _ => ⟨le_rfl, le_rfl⟩⟩ }

theorem run_truthful_pooled :
    Meets (DatedForward.next defaultForwarder) (fun s f => f.Truthful defaultForwarder s) freshDay
      [answeredForward none] :=
  run_truthful rfl freshDay_recorded ⟨fun _ => rfl, fun _ _ => trivial⟩ rfl

/-- The second of two pinned forwards calls a key that has used up its quota. -/
theorem pinned_forwards_not_truthful :
    ¬∀ (fwd : Forwarder) (s last : DailyState) (trace : List DatedForward),
      fwd.config.quota.countMode = .success →
      s.Recorded → exec (DatedForward.next fwd) s trace = some last →
      Meets (DatedForward.next fwd) (fun s f => f.Truthful fwd s) s trace := by
  intro h
  have hmeets :=
    h defaultForwarder freshDay _ [answeredForward (some 1), answeredForward (some 1)] rfl
    freshDay_recorded rfl
  obtain ⟨_, _, hcall, _⟩ := (hmeets.2 _ rfl).1
  exact absurd (hcall _ rfl) (by decide)

end Fcam

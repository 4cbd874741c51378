import Fcam.Base.Run
import Fcam.Base.Window
import Fcam.Proof.Settle

/-!
# Failures of a key over a run

A key's failures are counted from the first one of a window on, and nothing but time clears the
count. It is compared with the failures in the window that ends with the last one, and with the
failures since the key last succeeded.
-/

namespace Fcam

/-! ### Runs -/

/-- What a run remembers of a key. -/
inductive KeyNote where
  | failed (recordedAt : Instant)
  | succeeded
deriving DecidableEq

/-- The state, and what has happened to the key, the newest first. -/
structure KeyHistory where
  world : World := {}
  notes : List KeyNote := []

/-- A request made with the key ends, in a forward or in a test; or anything else happens that
leaves its count. -/
inductive KeyEvent where
  | forwarded (method upstreamPath : String) (outcome : Outcome) (clientId : Nat) (now : Instant)
  | tested (outcome : Outcome) (now : Instant)
  | other (after : World)

/-- The times of the failures recorded. -/
def failureTimes (notes : List KeyNote) : List Instant :=
  notes.filterMap fun note =>
    match note with
    | .failed recordedAt => some recordedAt
    | .succeeded => none

/-- The outcome of an event, and when it is written. -/
def KeyEvent.outcome? : KeyEvent → Option (Outcome × Instant)
  | forwarded _ _ outcome _ now => some (outcome, now)
  | tested outcome now => some (outcome, now)
  | other _ => none

section

variable (config : AppConfig) (id : Nat)

/-- When an event records a failure of the key. -/
def KeyEvent.recordsAt (st : KeyHistory) (event : KeyEvent) : Option Instant :=
  event.outcome?.bind fun ended =>
    if ended.1.failed && !(st.world.key? id).all isDisabled then some ended.2 else none

/-- What an event adds to what is remembered. -/
def KeyEvent.noted (st : KeyHistory) (event : KeyEvent) : List KeyNote :=
  match event.recordsAt id st, event.outcome? with
  | some now, _ => .failed now :: st.notes
  | none, some (outcome, _) => if outcome.won then .succeeded :: st.notes else st.notes
  | none, none => st.notes

def KeyEvent.next (st : KeyHistory) (event : KeyEvent) : Option KeyHistory :=
  match event with
  | forwarded method upstreamPath outcome clientId now =>
    some
      { world := settle config method upstreamPath outcome now clientId id st.world
        notes := event.noted id st }
  | tested outcome now =>
    some { world := settleTest config outcome now id st.world, notes := event.noted id st }
  | other after =>
    if after.failures id = st.world.failures id then some { st with world := after } else none

/-! ### The count -/

/-- The length of a window in microseconds. -/
def windowLength : Int := config.firecrawl.failureWindowSeconds * 1000000

/-- The newest failures, as many as the threshold, are counted in one window: only the oldest of
them can begin one. -/
def CountedTogether (times : List Instant) : Prop :=
  ∀ i < config.firecrawl.failureThreshold.toNat - 1,
    Window.begins (windowLength config) (times.drop i) = false

instance (times : List Instant) : Decidable (CountedTogether config times) :=
  inferInstanceAs (Decidable (∀ i < config.firecrawl.failureThreshold.toNat - 1,
    Window.begins (windowLength config) (times.drop i) = false))

/-- A cooldown of a failed key that begins now ends at a representable time. -/
def CooldownFits (now : Instant) : Prop :=
  (plusSeconds now (max config.firecrawl.failedCooldownSeconds 1)).isSome = true
deriving Decidable

/-- What is counted of the key is what its failures come to. -/
def CountKept (st : KeyHistory) : Prop :=
  st.world.failures id =
    (Window.counted (windowLength config) (failureTimes st.notes)).map fun window =>
      ((window.1 : Int), window.2)

end

section

variable {config : AppConfig} {id : Nat} {st st' : KeyHistory} {event : KeyEvent} {now : Instant}

/-- The next failure is counted as it comes in the key's history. -/
theorem CountKept.failuresInWindow (hkept : CountKept config id st) (now : Instant) :
    Window.counted (windowLength config) (now :: failureTimes st.notes) =
        some (((failuresInWindow config now id st.world).1 + 1).toNat,
          (failuresInWindow config now id st.world).2) ∧
      0 ≤ (failuresInWindow config now id st.world).1 := by
  have hlength : config.firecrawl.failureWindowSeconds * 1000000 = windowLength config := rfl
  rw [Fcam.failuresInWindow, hkept, Window.counted]
  cases Window.counted (windowLength config) (failureTimes st.notes) with
  | none =>
    rw [Option.map_none, Option.getD_none]
    dsimp only
    split
    · exact ⟨rfl, Int.le_refl 0⟩
    · exact ⟨rfl, Int.le_refl 0⟩
  | some window =>
    rw [Option.map_some, Option.getD_some]
    dsimp only
    rw [hlength]
    split
    · exact ⟨rfl, Int.le_refl 0⟩
    · exact ⟨rfl, Int.natCast_nonneg window.1⟩

/-- What an outcome leaves counted of the key. -/
theorem failures_ended (outcome : Outcome) (w : World) :
    (if outcome.failed then (recordFailure config now id w).failures else w.failures) id =
      if outcome.failed && !(w.key? id).all isDisabled then
        some ((Fcam.failuresInWindow config now id w).1 + 1,
          (Fcam.failuresInWindow config now id w).2)
      else w.failures id := by
  cases hfailed : outcome.failed with
  | false => rfl
  | true =>
    rw [if_pos rfl, recordFailure_failures, Bool.true_and]
    cases hdisabled : (w.key? id).all isDisabled with
    | true => rfl
    | false =>
      show Function.update w.failures id _ id = _
      exact Function.update_self _ _ _

/-- What an event that is an outcome leaves counted. -/
theorem KeyEvent.next_failures {outcome : Outcome} (hnext : event.next config id st = some st')
    (hended : event.outcome? = some (outcome, now)) :
    st'.world.failures id =
      (if outcome.failed then (recordFailure config now id st.world).failures
        else st.world.failures) id ∧
        st'.notes = event.noted id st := by
  cases event with
  | forwarded method upstreamPath ended clientId at_ =>
    cases hended
    cases hnext
    exact ⟨congrFun (settle_rest config now id method upstreamPath clientId outcome st.world).2.2
      id, rfl⟩
  | tested ended at_ =>
    cases hended
    cases hnext
    exact ⟨congrFun (settleTest_failures config outcome now id st.world) id, rfl⟩
  | other after => cases hended

theorem next_countKept (hkept : CountKept config id st)
    (hnext : event.next config id st = some st') :
    CountKept config id st' := by
  cases hended : event.outcome? with
  | none =>
    cases event with
    | forwarded => cases hended
    | tested => cases hended
    | other after =>
      rw [KeyEvent.next] at hnext
      split at hnext
      · next hsame =>
        cases hnext
        rw [CountKept, hsame]
        exact hkept
      · cases hnext
  | some ended =>
    obtain ⟨outcome, now⟩ := ended
    obtain ⟨hfailures, hnotes⟩ := KeyEvent.next_failures hnext hended
    rw [failures_ended] at hfailures
    have hrecords : event.recordsAt id st =
        if outcome.failed && !(st.world.key? id).all isDisabled then some now else none := by
      rw [KeyEvent.recordsAt, hended, Option.bind_some]
    rw [CountKept, hfailures, hnotes, KeyEvent.noted, hrecords, hended]
    split
    · obtain ⟨hcounted, hnonneg⟩ := hkept.failuresInWindow now
      show _ = (Window.counted (windowLength config) (now :: failureTimes st.notes)).map _
      rw [hcounted, Option.map_some, Int.toNat_of_nonneg (by omega)]
    · rw [hkept]
      dsimp only
      split
      · rfl
      · rfl

/-! ### The mark -/

theorem KeyEvent.recordsAt_eq_some (hrecords : event.recordsAt id st = some now) :
    ∃ outcome key, event.outcome? = some (outcome, now) ∧ outcome.failed = true ∧
      st.world.key? id = some key ∧
      isDisabled key = false := by
  obtain ⟨ended, hended, hif⟩ := Option.bind_eq_some_iff.mp hrecords
  split at hif
  · next hboth =>
    rw [Bool.and_eq_true] at hboth
    cases hkey : st.world.key? id with
    | none =>
      rw [hkey] at hboth
      cases hboth.2
    | some key =>
      rw [hkey, Option.all_some, Bool.not_eq_true'] at hboth
      rw [Option.some.injEq] at hif
      exact ⟨ended.1, key, by rw [hended, ← hif], hboth.1, rfl, hboth.2⟩
  · cases hif

/-- A recorded failure is remembered, and writes the key's row as a failure does. -/
theorem KeyEvent.next_recorded (hnext : event.next config id st = some st')
    (hrecords : event.recordsAt id st = some now) :
    st'.notes = .failed now :: st.notes ∧
      RowUpdated st.world st'.world id
        (failureRow config now (reachesThreshold config now id st.world)) := by
  obtain ⟨outcome, key, hended, hfailed, -, -⟩ := KeyEvent.recordsAt_eq_some hrecords
  cases event with
  | forwarded method upstreamPath ended clientId at_ =>
    cases hended
    cases hnext
    refine ⟨?_, (settle_row config method upstreamPath outcome now clientId id st.world).congr
      fun key => ?_⟩
    · rw [KeyEvent.noted, hrecords]
    · exact settleRow_failed config method upstreamPath now _ key hfailed
  | tested ended at_ =>
    cases hended
    cases hnext
    refine ⟨?_, (settleTest_row config outcome now id st.world).congr fun key => ?_⟩
    · rw [KeyEvent.noted, hrecords]
    · exact testRow_failed config now _ key hfailed
  | other after => cases hended

theorem CountKept.reachesThreshold_iff (hkept : CountKept config id st) (now : Instant) :
    reachesThreshold config now id st.world = true ↔
      CountedTogether config (now :: failureTimes st.notes) := by
  obtain ⟨hcounted, hnonneg⟩ := hkept.failuresInWindow now
  rw [CountedTogether, ← Window.le_counted_iff hcounted, reachesThreshold, decide_eq_true_eq]
  omega

/-- A failure marks a key that has not failed when it reaches the threshold and the cooldown can be
written. -/
theorem marked_iff (hkept : CountKept config id st) (hnext : event.next config id st = some st')
    (hrecords : event.recordsAt id st = some now) {key row : ApiKey}
    (hkey : st.world.key? id = some key) (hstatus : key.status ≠ .failed)
    (hrow : st'.world.key? id = some row) :
    row.status = .failed ↔
      CooldownFits config now ∧ CountedTogether config (now :: failureTimes st.notes) := by
  obtain ⟨-, key', -, -, hkey', henabled⟩ := KeyEvent.recordsAt_eq_some hrecords
  obtain rfl := Option.some.inj (hkey.symm.trans hkey')
  have hwritten := (KeyEvent.next_recorded hnext hrecords).2.self hkey
  obtain rfl := Option.some.inj (hrow.symm.trans hwritten)
  rw [← hkept.reachesThreshold_iff now, failureRow, henabled, Bool.false_or, CooldownFits]
  cases reachesThreshold config now id st.world with
  | false => simp [hstatus]
  | true =>
    rw [Bool.not_true, if_neg Bool.false_ne_true, markFailed]
    cases plusSeconds now (max config.firecrawl.failedCooldownSeconds 1) with
    | none => simp [hstatus]
    | some cooldownUntil => simp

end

/-- A key of a fresh process. -/
def untriedKey : KeyHistory :=
  { world :=
      { db := { keys := Table.insert .empty { clientId := some 1, quotaResetAt := some 0 } } } }

/-- A forward with the key times out, at a time in seconds. -/
def failsAt (seconds : Int) : KeyEvent := .forwarded "POST" "/scrape" .timeout 1 (seconds * 1000000)

end Fcam

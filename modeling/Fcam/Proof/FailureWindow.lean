import Fcam.Proof.FailureHistory

/-!
# The failure window

A key is marked failed at a failure where as many as the threshold lie in the window that ends with
it, exactly when no window of the counter is begun among the last of them. The counter's windows do
not slide: one that begins between two failures of a burst counts them apart.
-/

namespace Fcam

section

variable (config : AppConfig) (id : Nat)

/-- A failure is no earlier than those recorded before. -/
def InOrder (st : KeyHistory) (event : KeyEvent) : Prop :=
  ∀ now ∈ event.recordsAt id st, ∀ earlier ∈ failureTimes st.notes, earlier ≤ now
deriving Decidable

/-- As many failures as the threshold lie in the window that ends with the newest one. -/
def ReachedInWindow (times : List Instant) : Prop :=
  config.firecrawl.failureThreshold ≤ Window.recent (windowLength config) times
deriving Decidable

/-- A failure of a key that has not failed marks it failed exactly when the threshold is reached in
its window. -/
def MarksByWindow (st : KeyHistory) (event : KeyEvent) : Prop :=
  ∀ now ∈ event.recordsAt id st, ∀ st' ∈ event.next config id st, ∀ key ∈ st.world.key? id,
    ∀ row ∈ st'.world.key? id,
      key.status ≠ .failed →
      (row.status = .failed ↔ ReachedInWindow config (now :: failureTimes st.notes))
deriving Decidable

/-- At a failure that reaches the threshold in its window, no window begins among the newest
failures, and the cooldown is representable. -/
def WindowHolds (st : KeyHistory) (event : KeyEvent) : Prop :=
  ∀ now ∈ event.recordsAt id st, (∀ key ∈ st.world.key? id, key.status ≠ .failed) →
    ReachedInWindow config (now :: failureTimes st.notes) →
    CooldownFits config now ∧ CountedTogether config (now :: failureTimes st.notes)
deriving Decidable

end

variable {config : AppConfig} {id : Nat} {st st' last : KeyHistory} {event : KeyEvent}
  {trace : List KeyEvent}

/-- The failures remembered are in order, and counted. -/
structure WellCounted (config : AppConfig) (id : Nat) (st : KeyHistory) : Prop where
  ordered : (failureTimes st.notes).Pairwise (· ≥ ·)
  counted : CountKept config id st

theorem failureTimes_next (hnext : event.next config id st = some st') :
    failureTimes st'.notes = (event.recordsAt id st).toList ++ failureTimes st.notes := by
  have hnoted :
      failureTimes (event.noted id st) = (event.recordsAt id st).toList ++
        failureTimes st.notes := by
    rw [KeyEvent.noted]
    cases hrecords : event.recordsAt id st with
    | some now => rfl
    | none =>
      cases event.outcome? with
      | none => rfl
      | some ended =>
        dsimp only
        split
        · rfl
        · rfl
  cases event with
  | forwarded method upstreamPath outcome clientId now =>
    cases hnext
    exact hnoted
  | tested outcome now =>
    cases hnext
    exact hnoted
  | other after =>
    rw [KeyEvent.next] at hnext
    split at hnext
    · cases hnext
      rfl
    · cases hnext

theorem next_wellCounted (hwell : WellCounted config id st) (horder : InOrder id st event)
    (hnext : event.next config id st = some st') : WellCounted config id st' := by
  refine ⟨?_, next_countKept hwell.counted hnext⟩
  rw [failureTimes_next hnext]
  cases hrecords : event.recordsAt id st with
  | none => exact hwell.ordered
  | some now =>
    show (now :: failureTimes st.notes).Pairwise (· ≥ ·)
    exact List.pairwise_cons.mpr ⟨horder now hrecords, hwell.ordered⟩

/-- Failures counted together lie in the window that ends with the newest one. -/
theorem WellCounted.reachedInWindow (hwell : WellCounted config id st) {now : Instant}
    (horder : InOrder id st event) (hrecords : event.recordsAt id st = some now)
    (htogether : CountedTogether config (now :: failureTimes st.notes)) :
    ReachedInWindow config (now :: failureTimes st.notes) := by
  have hsorted : (now :: failureTimes st.notes).Pairwise (· ≥ ·) :=
    List.pairwise_cons.mpr ⟨horder now hrecords, hwell.ordered⟩
  obtain ⟨hcounted, -⟩ := hwell.counted.failuresInWindow now
  have hrecent := Window.counted_le_recent hsorted hcounted
  have hreached := (Window.le_counted_iff hcounted).mpr htogether
  rw [ReachedInWindow]
  omega

theorem marksByWindow_iff (hwell : WellCounted config id st) (horder : InOrder id st event)
    (hnext : event.next config id st = some st') : MarksByWindow config id st event ↔
      WindowHolds config id st event := by
  constructor
  · intro hmarks now hrecords hstatus hreached
    obtain ⟨-, key, -, -, hkey, -⟩ := KeyEvent.recordsAt_eq_some hrecords
    have hrow := (KeyEvent.next_recorded hnext hrecords).2.self hkey
    have hmarked := marked_iff hwell.counted hnext hrecords hkey (hstatus key hkey) hrow
    exact hmarked.mp ((hmarks now hrecords st' hnext key hkey _ hrow (hstatus key hkey)).mpr
      hreached)
  · intro hholds now hrecords st'' hnext' key hkey row hrow hstatus
    obtain rfl := Option.some.inj (hnext.symm.trans hnext')
    rw [marked_iff hwell.counted hnext hrecords hkey hstatus hrow]
    constructor
    · rintro ⟨-, htogether⟩
      exact hwell.reachedInWindow horder hrecords htogether
    · apply hholds now hrecords
      intro key' hkey'
      obtain rfl := Option.some.inj (hkey.symm.trans hkey')
      exact hstatus

/-- In every run from a fresh count whose failures come in order, they mark the key by the window
exactly when at each failure that reaches the threshold none of the newest ones but the oldest
begins a window of the counter. -/
theorem failures_mark_by_window_iff (hfailures : st.world.failures id = none)
    (hnotes : st.notes = []) (horder : Meets (KeyEvent.next config id) (InOrder id) st trace)
    (hexec : exec (KeyEvent.next config id) st trace = some last) :
    Meets (KeyEvent.next config id) (MarksByWindow config id) st trace ↔
      Meets (KeyEvent.next config id) (WindowHolds config id) st trace := by
  have hstart : WellCounted config id st := by
    refine ⟨?_, ?_⟩
    · rw [hnotes]
      exact .nil
    · rw [CountKept, hfailures, hnotes]
      rfl
  refine meets_congr_of_invariant ?_ horder hexec hstart
  intro s event s' hwell hordered hnext
  exact ⟨next_wellCounted hwell hordered hnext, marksByWindow_iff hwell hordered hnext⟩

theorem timeouts_marked :
    Meets (KeyEvent.next {} 1) (MarksByWindow {} 1) untriedKey ([0, 10, 20].map failsAt) :=
  (failures_mark_by_window_iff rfl rfl (by decide) rfl).mpr (by decide)

/-- Failures at 0, 50, 70 and 75 seconds: the one at 70 begins a window, and the third within 60
seconds does not mark the key. -/
theorem burst_not_marked :
    Meets (KeyEvent.next {} 1) (InOrder 1) untriedKey ([0, 50, 70, 75].map failsAt) ∧
      ¬Meets (KeyEvent.next {} 1)
        (MarksByWindow {} 1) untriedKey ([0, 50, 70, 75].map failsAt) := by
  decide

end Fcam

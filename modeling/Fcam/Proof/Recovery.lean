import Fcam.Proof.FailureHistory

/-!
# The failure history after a recovery

A success of a key, in a test or in a forward, leaves its count of failures as it is. So the key is
marked failed only after as many failures as the threshold since its last success, exactly when no
success lies among failures that are counted together.
-/

namespace Fcam

/-! ### Histories -/

theorem le_length_takeWhile_iff {α : Type} {p : α → Bool} {l : List α} {k : Nat} :
    k ≤ (l.takeWhile p).length ↔ k ≤ l.length ∧ ∀ x ∈ l.take k, p x = true := by
  induction l generalizing k with
  | nil => simp
  | cons a l ih =>
    cases k with
    | zero => simp
    | succ k =>
      rw [List.takeWhile_cons, List.take_succ_cons, List.length_cons, List.forall_mem_cons]
      cases hp : p a with
      | false => simp
      | true =>
        rw [if_pos rfl, List.length_cons, Nat.succ_le_succ_iff, Nat.succ_le_succ_iff, ih]
        simp

def KeyNote.isFailure : KeyNote → Bool
  | failed _ => true
  | succeeded => false

/-- The failures since the last success. -/
def failuresSinceSuccess (notes : List KeyNote) : Nat := (notes.takeWhile KeyNote.isFailure).length

theorem length_failureTimes_le (notes : List KeyNote) :
    (failureTimes notes).length ≤ notes.length :=
  List.length_filterMap_le _ _

section

variable (config : AppConfig) (id : Nat)

/-- A failure marks a key failed that was not only when there have been as many as the threshold
since the key last succeeded, this one included. -/
def MarksAfresh (st : KeyHistory) (event : KeyEvent) : Prop :=
  ∀ now ∈ event.recordsAt id st, ∀ st' ∈ event.next config id st, ∀ key ∈ st.world.key? id,
    ∀ row ∈ st'.world.key? id,
    key.status ≠ .failed → row.status = .failed →
    config.firecrawl.failureThreshold ≤ 1 + failuresSinceSuccess st.notes
deriving Decidable

/-- No success lies among the newest failures, as many as the threshold, where they are counted
together and the cooldown is representable. -/
def SuccessesApart (st : KeyHistory) (event : KeyEvent) : Prop :=
  ∀ now ∈ event.recordsAt id st, (∀ key ∈ st.world.key? id, key.status ≠ .failed) →
    CooldownFits config now → CountedTogether config (now :: failureTimes st.notes) →
    .succeeded ∉ st.notes.take (config.firecrawl.failureThreshold.toNat - 1)
deriving Decidable

end

variable {config : AppConfig} {id : Nat} {st st' last : KeyHistory} {event : KeyEvent}
  {trace : List KeyEvent}

/-- Of failures counted together, as many as the threshold follow the last success when none lies
among them. -/
theorem CountKept.threshold_le_iff (hkept : CountKept config id st) {now : Instant}
    (htogether : CountedTogether config (now :: failureTimes st.notes)) :
    config.firecrawl.failureThreshold ≤ 1 + failuresSinceSuccess st.notes ↔
      .succeeded ∉ st.notes.take (config.firecrawl.failureThreshold.toNat - 1) := by
  obtain ⟨hcounted, -⟩ := hkept.failuresInWindow now
  have hreached := (Window.le_counted_iff hcounted).mpr htogether
  have hlength := Window.counted_le_length hcounted
  rw [List.length_cons] at hlength
  have hlong : config.firecrawl.failureThreshold.toNat - 1 ≤ st.notes.length := by
    have := length_failureTimes_le st.notes
    omega
  have hle : config.firecrawl.failureThreshold ≤ 1 + failuresSinceSuccess st.notes ↔
      config.firecrawl.failureThreshold.toNat - 1 ≤ failuresSinceSuccess st.notes := by
    omega
  rw [hle, failuresSinceSuccess, le_length_takeWhile_iff]
  constructor
  · rintro ⟨-, hall⟩ hmem
    exact Bool.false_ne_true (hall _ hmem)
  · intro hnone
    refine ⟨hlong, fun note hnote => ?_⟩
    cases note with
    | failed recordedAt => rfl
    | succeeded => exact absurd hnote hnone

theorem marksAfresh_iff (hkept : CountKept config id st)
    (hnext : event.next config id st = some st') :
    MarksAfresh config id st event ↔ SuccessesApart config id st event := by
  constructor
  · intro hmarks now hrecords hstatus hfits htogether
    obtain ⟨-, key, -, -, hkey, -⟩ := KeyEvent.recordsAt_eq_some hrecords
    have hrow := (KeyEvent.next_recorded hnext hrecords).2.self hkey
    have hmarked :=
      (marked_iff hkept hnext hrecords hkey (hstatus key hkey) hrow).mpr ⟨hfits, htogether⟩
    apply (hkept.threshold_le_iff htogether).mp
    exact hmarks now hrecords st' hnext key hkey _ hrow (hstatus key hkey) hmarked
  · intro hapart now hrecords st'' hnext' key hkey row hrow hstatus hfailed
    obtain ⟨hfits, htogether⟩ := (marked_iff hkept hnext' hrecords hkey hstatus hrow).mp hfailed
    apply (hkept.threshold_le_iff htogether).mpr
    apply hapart now hrecords _ hfits htogether
    intro key' hkey'
    obtain rfl := Option.some.inj (hkey.symm.trans hkey')
    exact hstatus

/-- In every run from a fresh count, a key is marked failed only after as many failures as the
threshold since its last success exactly when no success lies among failures that are counted
together up to the threshold. -/
theorem successes_clear_failures_iff (hfailures : st.world.failures id = none)
    (hnotes : st.notes = []) (hexec : exec (KeyEvent.next config id) st trace = some last) :
    Meets (KeyEvent.next config id) (MarksAfresh config id) st trace ↔
      Meets (KeyEvent.next config id) (SuccessesApart config id) st trace := by
  have hstart : CountKept config id st := by
    rw [CountKept, hfailures, hnotes]
    rfl
  have hpre : Meets (KeyEvent.next config id) (fun _ _ => True) st trace :=
    meets_of_forall (fun _ _ => trivial) st trace
  refine meets_congr_of_invariant ?_ hpre hexec hstart
  intro s event s' hkept _ hnext
  exact ⟨next_countKept hkept hnext, marksAfresh_iff hkept hnext⟩

/-- The key answers a test, at a time in seconds. -/
def testedAt (seconds : Int) : KeyEvent :=
  .tested (.response { statusCode := 200 }) (seconds * 1000000)

theorem later_failures_marked :
    Meets (KeyEvent.next {} 1) (MarksAfresh {} 1) untriedKey [failsAt 0, testedAt 50, failsAt 70,
      failsAt 75, failsAt 80] :=
  (successes_clear_failures_iff rfl rfl rfl).mpr (by decide)

/-- Two failures, a successful test, and one more failure: the key is marked failed again. -/
theorem test_clears_nothing :
    ¬Meets (KeyEvent.next {} 1) (MarksAfresh {} 1) untriedKey [failsAt 0, failsAt 1, testedAt 2,
      failsAt 3] := by
  decide

end Fcam

import Fcam.Proof.Select
import Mathlib.Order.Bounds.Defs

/-!
# What a selection is for

A key is available if it is enabled, has no whole second of back-off left and is below its quota,
once its counter is of the day. `select_meets_spec` says that a selection returns the first
available key in cyclic order, and otherwise which of the reasons holds for its keys.
-/

namespace Fcam

/-- What a selection reads where the cooldown store answers: nothing for a key, or the seconds it
reports. -/
def PoolEnv.ofStore (reading : Reading) (secondsUntilNextMidnight : Int)
    (stored : Nat → Option Int) : PoolEnv :=
  { reading, secondsUntilNextMidnight, remainingSeconds := fun id => .ok (stored id) }

section Standing

variable (reading : Reading) (stored : Nat → Option Int)

/-- The whole seconds of back-off a key has left. -/
def backOff (row : Nat × ApiKey) : Int :=
  if row.2.status = .cooling then
    max (cooldownRemainingSeconds row.2 reading.now) ((stored row.1).getD 0)
  else if row.2.status = .failed then cooldownRemainingSeconds row.2 reading.now
  else 0

/-- A row of the table once its counter is of the day. -/
def ofToday (row : Nat × ApiKey) : Nat × ApiKey := (row.1, lazyReset reading.today row.2)

def isBackingOff (row : Nat × ApiKey) : Bool :=
  !isDisabled row.2 && decide (0 < backOff reading stored (ofToday reading row))

def isExhausted (row : Nat × ApiKey) : Bool :=
  !isDisabled row.2 && !isBackingOff reading stored row &&
    decide ((ofToday reading row).2.dailyQuota ≤ (ofToday reading row).2.dailyUsage)

def isAvailable (row : Nat × ApiKey) : Bool :=
  !isDisabled row.2 && !isBackingOff reading stored row &&
    decide ((ofToday reading row).2.dailyUsage < (ofToday reading row).2.dailyQuota)

end Standing

/-- A key whose back-off is over. -/
def released (key : ApiKey) : ApiKey :=
  if backsOff key then { key with cooldownUntil := none, status := .active } else key

/-- Why a selection among these keys finds none. -/
structure Refuses (reading : Reading) (stored : Nat → Option Int) (keys : List (Nat × ApiKey))
    (error : FcamError) :
    Prop where
  noKey : error.code = .noKeyConfigured ↔ keys = []
  disabled : error.code = .allKeysDisabled ↔ keys ≠ [] ∧ ∀ row ∈ keys, isDisabled row.2 = true
  exhausted : error.code = .allKeysQuotaExceeded ↔
    (∃ row ∈ keys, isDisabled row.2 = false) ∧
      ∀ row ∈ keys, isDisabled row.2 = false → isExhausted reading stored row = true
  cooling : error.code = .allKeysCooling ↔
    (∃ row ∈ keys, isDisabled row.2 = false) ∧
      ∀ row ∈ keys, isDisabled row.2 = false → isBackingOff reading stored row = true
  least : error.code = .allKeysCooling → ∃ seconds, error.retryAfter = some seconds ∧
    IsLeast {s | ∃ row ∈ keys,
      isDisabled row.2 = false ∧ backOff reading stored (ofToday reading row) = s} seconds
  mixed : error.code = .noKeyAvailable ↔
    (∃ row ∈ keys, isBackingOff reading stored row = true) ∧
      ∃ row ∈ keys, isExhausted reading stored row = true

/-- The specification of a selection. -/
def SelectSpec (reading : Reading) (stored : Nat → Option Int) (w : World) (clientId : Option Nat)
    (provider : Provider) (selection : Selection) : Prop :=
  let keys := w.db.keys.select (inScope clientId provider)
  let order := cyclicFrom (w.rrIndexByScope { clientId, provider } % keys.length) keys
  match order.find? fun visit => isAvailable reading stored visit.1 with
  | some (row, position) =>
    selection.result = .ok (row.1, released (ofToday reading row).2) ∧
      selection.world.key? row.1 = some (released (ofToday reading row).2) ∧
      selection.world.rrIndexByScope = Function.update w.rrIndexByScope { clientId, provider }
        (position + 1) ∧
      ∀ passed later, order = passed ++ (row, position) :: later →
        ∀ visit ∈ later, selection.world.key? visit.1.1 = some visit.1.2
  | none => ∃ error, selection.result = .error error ∧ Refuses reading stored keys error

/-! ### The loop -/

section Scan

variable {reading : Reading} {secondsUntilNextMidnight : Int} {stored : Nat → Option Int}

theorem cooldownRemainingSeconds_nonneg (key : ApiKey) (now : Instant) :
    0 ≤ cooldownRemainingSeconds key now := by
  rw [cooldownRemainingSeconds]
  split
  · exact Int.le_refl 0
  · exact Int.le_max_right _ _

theorem backOffSeconds_ofStore {id : Nat} {key : ApiKey} (h : backsOff key = true) :
    backOffSeconds (.ofStore reading secondsUntilNextMidnight stored) id key =
      .ok (backOff reading stored (id, key)) := by
  have hnonneg := cooldownRemainingSeconds_nonneg key reading.now
  rw [backsOff, Bool.or_eq_true, beq_iff_eq, beq_iff_eq] at h
  rw [backOffSeconds, backOff]
  by_cases hcooling : key.status = .cooling
  · rw [if_pos hcooling, if_pos hcooling]
    cases hstored : stored id with
    | none =>
      have hmax :
          max (cooldownRemainingSeconds key reading.now) 0 = cooldownRemainingSeconds key
            reading.now := by omega
      simp [PoolEnv.ofStore, hstored, hmax, bind, Except.bind, pure, Except.pure]
    | some seconds => simp [PoolEnv.ofStore, hstored, bind, Except.bind, pure, Except.pure]
  · rw [if_neg hcooling, if_neg hcooling, if_pos (h.resolve_left hcooling)]
    rfl

theorem backOff_of_not_backsOff {id : Nat} {key : ApiKey} (h : backsOff key = false) :
    backOff reading stored (id, key) = 0 := by
  rw [backsOff, Bool.or_eq_false_iff, beq_eq_false_iff_ne, beq_eq_false_iff_ne] at h
  rw [backOff, if_neg h.1, if_neg h.2]

theorem released_quota (key : ApiKey) :
    (released key).dailyQuota = key.dailyQuota ∧ (released key).dailyUsage = key.dailyUsage := by
  rw [released]
  split <;> exact ⟨rfl, rfl⟩

variable (reading stored) in
/-- The verdict on a key. -/
def verdictOf (row : Nat × ApiKey) : Verdict :=
  if isDisabled row.2 then .disabled
  else if isBackingOff reading stored row then
    .cooling (backOff reading stored (ofToday reading row))
  else if isExhausted reading stored row then .quotaExceeded
  else .eligible

theorem ReachesQuotaTest.ofStore {id : Nat} {key tested : ApiKey}
    (h : ReachesQuotaTest (.ofStore reading secondsUntilNextMidnight stored) id key tested) :
    backOff reading stored (ofToday reading (id, key)) ≤ 0 ∧
      tested = released (ofToday reading (id, key)).2 := by
  obtain ⟨hbacks, rfl⟩ | ⟨hbacks, rfl, remaining, hseconds, hover⟩ := h
  · exact ⟨Int.le_of_eq (backOff_of_not_backsOff hbacks),
      (if_neg (Bool.eq_false_iff.mp hbacks)).symm⟩
  · rw [backOffSeconds_ofStore hbacks] at hseconds
    obtain rfl := Except.ok.inj hseconds
    exact ⟨hover, (if_pos hbacks).symm⟩

theorem Examines.ofStore {id : Nat} {key after : ApiKey} {verdict : Verdict}
    (h : Examines (.ofStore reading secondsUntilNextMidnight stored) id key verdict after) :
    verdict = verdictOf reading stored (id, key) ∧
      (verdict = .eligible → after = released (ofToday reading (id, key)).2) := by
  cases h with
  | disabled hdisabled => exact ⟨by rw [verdictOf, if_pos hdisabled], nofun⟩
  | cooling remaining henabled hbacks hseconds hpositive =>
    rw [backOffSeconds_ofStore hbacks] at hseconds
    obtain rfl := Except.ok.inj hseconds
    have hbacking : isBackingOff reading stored (id, key) = true := by
      rw [isBackingOff, henabled, Bool.not_false, Bool.true_and]
      exact decide_eq_true hpositive
    refine ⟨?_, nofun⟩
    rw [verdictOf, henabled, if_neg Bool.false_ne_true, if_pos hbacking]
    rfl
  | quotaExceeded tested henabled htested hquota =>
    obtain ⟨hover, rfl⟩ := htested.ofStore
    obtain ⟨hlimit, husage⟩ := released_quota (ofToday reading (id, key)).2
    rw [hlimit, husage] at hquota
    have hbacking : isBackingOff reading stored (id, key) = false := by
      simp [isBackingOff, Int.not_lt.mpr hover]
    have hexhausted : isExhausted reading stored (id, key) = true := by
      simp only [isExhausted, henabled, hbacking, Bool.not_false, Bool.true_and]
      exact decide_eq_true hquota
    refine ⟨?_, nofun⟩
    rw [verdictOf, henabled, hbacking, if_neg Bool.false_ne_true, if_neg Bool.false_ne_true,
      if_pos hexhausted]
  | eligible tested henabled htested hquota =>
    obtain ⟨hover, rfl⟩ := htested.ofStore
    obtain ⟨hlimit, husage⟩ := released_quota (ofToday reading (id, key)).2
    rw [hlimit, husage] at hquota
    have hbacking : isBackingOff reading stored (id, key) = false := by
      simp [isBackingOff, Int.not_lt.mpr hover]
    have hexhausted : isExhausted reading stored (id, key) = false := by
      simp only [isExhausted, henabled, hbacking, Bool.not_false, Bool.true_and]
      exact decide_eq_false (Nat.not_le.mpr hquota)
    refine ⟨?_, fun _ => rfl⟩
    rw [verdictOf, henabled, hbacking, hexhausted, if_neg Bool.false_ne_true,
      if_neg Bool.false_ne_true, if_neg Bool.false_ne_true]

/-- Without a failing store the loop reads every key. -/
theorem examine_ofStore (row : Nat × ApiKey) :
    ∃ after, examine (.ofStore reading secondsUntilNextMidnight stored) row.1 row.2 =
        .ok (verdictOf reading stored row, after) ∧
      (verdictOf reading stored row = .eligible → after = released (ofToday reading row).2) := by
  cases hexamine : examine (.ofStore reading secondsUntilNextMidnight stored) row.1 row.2 with
  | error error =>
    rw [examine] at hexamine
    split at hexamine
    · cases hexamine
    · simp only at hexamine
      split at hexamine
      · next hbacks =>
        rw [backOffSeconds_ofStore hbacks] at hexamine
        simp only at hexamine
        split at hexamine <;> cases hexamine
      · cases hexamine
  | ok result =>
    obtain ⟨verdict, after⟩ := result
    obtain ⟨rfl, hafter⟩ := (examine_cases hexamine).ofStore
    exact ⟨after, rfl, hafter⟩

theorem verdictOf_eq_eligible {row : Nat × ApiKey} :
    verdictOf reading stored row = .eligible ↔ isAvailable reading stored row = true := by
  rw [verdictOf]
  cases hdisabled : isDisabled row.2 with
  | true => simp [isAvailable, hdisabled]
  | false =>
    cases hbacking : isBackingOff reading stored row with
    | true => simp [isAvailable, hbacking]
    | false => simp [isAvailable, isExhausted, hdisabled, hbacking]

variable (reading secondsUntilNextMidnight stored) in
/-- The loop ends at the first available key, or has a verdict on every key. -/
theorem scan_ofStore (rows : List ((Nat × ApiKey) × Nat)) :
    match rows.find? fun visit => isAvailable reading stored visit.1 with
    | some (row, position) =>
      (scan (.ofStore reading secondsUntilNextMidnight stored) rows).1 =
        .selected position row.1 (released (ofToday reading row).2)
    | none =>
      (scan (.ofStore reading secondsUntilNextMidnight stored) rows).1 = .exhausted ∧
        (scan (.ofStore reading secondsUntilNextMidnight stored) rows).2.map Examined.verdict =
          rows.map fun visit => verdictOf reading stored visit.1 := by
  induction rows with
  | nil => exact ⟨rfl, rfl⟩
  | cons visit rest ih =>
    obtain ⟨row, position⟩ := visit
    obtain ⟨after, hexamine, hafter⟩ : ∃ after,
        examine (.ofStore reading secondsUntilNextMidnight stored) row.1 row.2 =
          .ok (verdictOf reading stored row, after) ∧
        (verdictOf reading stored row = .eligible → after = released (ofToday reading row).2) :=
          examine_ofStore row
    by_cases havailable : isAvailable reading stored row = true
    · have heligible := verdictOf_eq_eligible.mpr havailable
      obtain rfl := hafter heligible
      have hfind :
          ((row, position) :: rest).find? (fun visit => isAvailable reading stored visit.1) =
            some (row, position) := List.find?_cons_of_pos havailable
      rw [hfind]
      simp only [scan, hexamine, heligible]
    · have hne : verdictOf reading stored row ≠ .eligible :=
        fun h => havailable (verdictOf_eq_eligible.mp h)
      have hfind :
          ((row, position) :: rest).find? (fun visit => isAvailable reading stored visit.1) =
            rest.find? fun visit => isAvailable reading stored visit.1 :=
              List.find?_cons_of_neg havailable
      have hscan :
          scan (.ofStore reading secondsUntilNextMidnight stored) ((row, position) :: rest) =
            ((scan (.ofStore reading secondsUntilNextMidnight stored) rest).1, ⟨row.1,
              verdictOf reading stored row, after⟩ ::
                (scan (.ofStore reading secondsUntilNextMidnight stored) rest).2) := by
        rw [scan, hexamine]
        cases hverdict : verdictOf reading stored row with
        | eligible => exact absurd hverdict hne
        | _ => rfl
      rw [hscan, hfind]
      split
      · next found hrest =>
        rw [hrest] at ih
        exact ih
      · next hrest =>
        rw [hrest] at ih
        exact ⟨ih.1, by rw [List.map_cons, List.map_cons, ih.2]⟩

end Scan

/-! ### Refusals -/

theorem countP_add_countP_eq_length {α : Type} {p q : α → Bool}
    (hdisjoint : ∀ x, p x = true → q x = false) (l : List α) : l.countP p + l.countP q = l.length ↔
      ∀ x ∈ l, p x = true ∨ q x = true := by
  have hor : l.countP p + l.countP q = l.countP fun x => p x || q x := by
    induction l with
    | nil => rfl
    | cons x l ih =>
      rw [List.countP_cons, List.countP_cons, List.countP_cons, ← ih]
      cases hp : p x with
      | true => simp [hdisjoint x hp]; omega
      | false => simp; omega
  rw [hor, List.countP_eq_length]
  simp only [Bool.or_eq_true]

theorem countVerdicts_eq (p : Verdict → Bool) (examined : List Examined) :
    countVerdicts p examined = (examined.map Examined.verdict).countP p := by
  rw [countVerdicts, List.countP_map, List.countP_eq_length_filter]
  rfl

/-- The least remaining time of the cooling keys. -/
theorem coolingRetryAfter_spec (examined : List Examined) :
    match coolingRetryAfter examined with
    | none => ∀ s, Verdict.cooling s ∉ examined.map Examined.verdict
    | some s => Verdict.cooling s ∈ examined.map Examined.verdict ∧
        ∀ t, Verdict.cooling t ∈ examined.map Examined.verdict → s ≤ t := by
  induction examined with
  | nil => exact fun s => List.not_mem_nil
  | cons e rest ih =>
    obtain ⟨id, verdict, row⟩ := e
    have hother : (∀ s, verdict ≠ .cooling s) →
        coolingRetryAfter (⟨id, verdict, row⟩ :: rest) = coolingRetryAfter rest := by
      intro hne
      cases verdict with
      | cooling s => exact absurd rfl (hne s)
      | _ => rfl
    have hmem :
        ∀ s, Verdict.cooling s ∈ (⟨id, verdict, row⟩ :: rest : List Examined).map Examined.verdict ↔
          verdict = .cooling s ∨ Verdict.cooling s ∈ rest.map Examined.verdict := by
      intro s
      rw [List.map_cons, List.mem_cons, eq_comm]
    simp only [hmem]
    by_cases hcooling : ∃ remaining, verdict = .cooling remaining
    · obtain ⟨remaining, rfl⟩ := hcooling
      rw [coolingRetryAfter]
      cases hrest : coolingRetryAfter rest with
      | none =>
        rw [hrest] at ih
        refine ⟨.inl rfl, fun t ht => ?_⟩
        obtain heq | hold := ht
        · cases heq
          exact Int.le_refl _
        · exact absurd hold (ih t)
      | some least =>
        rw [hrest] at ih
        refine ⟨?_, fun t ht => ?_⟩
        · dsimp only
          rcases Int.le_total remaining least with hle | hle
          · exact .inl (by rw [Int.min_eq_left hle])
          · exact .inr (by rw [Int.min_eq_right hle]; exact ih.1)
        · obtain heq | hold := ht
          · cases heq
            exact Int.min_le_left _ _
          · exact Int.le_trans (Int.min_le_right _ _) (ih.2 t hold)
    · have hne : ∀ s, verdict ≠ .cooling s := fun s heq => hcooling ⟨s, heq⟩
      rw [hother hne]
      split
      · next hrest =>
        rw [hrest] at ih
        exact fun s h => h.elim (hne s) (ih s)
      · next hrest =>
        rw [hrest] at ih
        exact ⟨.inr ih.1, fun t h => ih.2 t (h.resolve_left (hne t))⟩

/-- The code of a loop that found no key, from the verdicts it reached. -/
theorem exhaustedError_code_iff (env : PoolEnv) (clientId : Option Nat) {examined : List Examined}
    (hne : ∀ e ∈ examined, e.verdict ≠ .eligible) :
    ((exhaustedError env clientId examined).code = .allKeysDisabled ↔
      ∀ e ∈ examined, e.verdict = .disabled) ∧
      ((exhaustedError env clientId examined).code = .allKeysQuotaExceeded ↔
        (∃ e ∈ examined, e.verdict ≠ .disabled) ∧ ∀ e ∈ examined, e.verdict ≠ .disabled →
          e.verdict = .quotaExceeded) ∧
      ((exhaustedError env clientId examined).code = .allKeysCooling ↔
        (∃ e ∈ examined, e.verdict ≠ .disabled) ∧
          ∀ e ∈ examined, e.verdict ≠ .disabled → e.verdict.isCooling = true) ∧
      ((exhaustedError env clientId examined).code = .noKeyAvailable ↔
        (∃ e ∈ examined, e.verdict.isCooling = true) ∧
          ∃ e ∈ examined, e.verdict = .quotaExceeded) := by
  have hcases :
      ∀ e ∈ examined, e.verdict = .disabled ∨ e.verdict = .quotaExceeded ∨
        e.verdict.isCooling = true := by
    intro e he
    cases hverdict : e.verdict with
    | disabled => exact .inl rfl
    | cooling remaining => exact .inr (.inr rfl)
    | quotaExceeded => exact .inr (.inl rfl)
    | eligible => exact absurd hverdict (hne e he)
  have hlength : examined.length = (examined.map Examined.verdict).length :=
    (List.length_map _).symm
  have hdisabled : countVerdicts (· == .disabled) examined = examined.length ↔
      ∀ e ∈ examined, e.verdict = .disabled := by
    rw [countVerdicts_eq, hlength, List.countP_eq_length]
    simp
  have hquota :
      countVerdicts (· == .quotaExceeded) examined + countVerdicts (· == .disabled) examined =
        examined.length ↔ ∀ e ∈ examined, e.verdict = .quotaExceeded ∨ e.verdict = .disabled := by
    rw [countVerdicts_eq, countVerdicts_eq, hlength, countP_add_countP_eq_length]
    · simp
    · intro verdict hverdict
      rw [beq_iff_eq] at hverdict
      rw [hverdict]
      rfl
  have hcooling :
      countVerdicts Verdict.isCooling examined + countVerdicts (· == .disabled) examined =
        examined.length ↔ ∀ e ∈ examined, e.verdict.isCooling = true ∨ e.verdict = .disabled := by
    rw [countVerdicts_eq, countVerdicts_eq, hlength, countP_add_countP_eq_length]
    · simp
    · intro verdict hverdict
      cases verdict with
      | cooling remaining => rfl
      | _ => cases hverdict
  have hsome : ∀ p :
      Verdict → Bool, countVerdicts p examined ≠ 0 ↔ ∃ e ∈ examined, p e.verdict = true := by
    intro p
    rw [countVerdicts_eq, ← Nat.pos_iff_ne_zero, List.countP_pos_iff]
    simp
  rw [exhaustedError]
  simp only [hdisabled, hquota, hcooling, hsome, beq_iff_eq]
  split
  · next hall => simp only [reduceCtorEq, false_iff, true_iff]; grind
  split
  · next hall hquotas => simp only [reduceCtorEq, false_iff, true_iff]; grind [Verdict.isCooling]
  split
  · next hall hquotas hcoolings =>
      simp only [reduceCtorEq, false_iff, true_iff]; grind [Verdict.isCooling]
  · next hall hquotas hcoolings =>
      simp only [reduceCtorEq, false_iff, true_iff]; grind [Verdict.isCooling]

section Refusal

variable {reading : Reading} {stored : Nat → Option Int} {keys : List (Nat × ApiKey)}

theorem verdictOf_cases (row : Nat × ApiKey) :
    (verdictOf reading stored row = .disabled ↔ isDisabled row.2 = true) ∧
      (verdictOf reading stored row = .quotaExceeded ↔ isExhausted reading stored row = true) ∧
      ((verdictOf reading stored row).isCooling = true ↔ isBackingOff reading stored row = true) ∧
      ∀ s, verdictOf reading stored row = .cooling s ↔
        isBackingOff reading stored row = true ∧
          backOff reading stored (ofToday reading row) = s := by
  rw [verdictOf]
  cases hdisabled : isDisabled row.2 with
  | true => simp [isExhausted, isBackingOff, hdisabled, Verdict.isCooling]
  | false =>
    cases hbacking : isBackingOff reading stored row with
    | true => simp [isExhausted, hbacking, Verdict.isCooling]
    | false => cases isExhausted reading stored row <;> simp [Verdict.isCooling]

theorem exhaustedError_retryAfter {env : PoolEnv} {clientId : Option Nat} {examined : List Examined}
    (h : (exhaustedError env clientId examined).code = .allKeysCooling) :
    (exhaustedError env clientId examined).retryAfter = coolingRetryAfter examined := by
  obtain hcode | ⟨hcode, -⟩ | ⟨-, hretry⟩ | hcode := exhaustedError_cases env clientId examined
  · cases h.symm.trans hcode
  · cases h.symm.trans hcode
  · exact hretry
  · cases h.symm.trans hcode

theorem exhaustedError_code_ne (env : PoolEnv) (clientId : Option Nat) (examined : List Examined) :
    (exhaustedError env clientId examined).code ≠ .noKeyConfigured := by
  intro h
  obtain hcode | ⟨hcode, -⟩ | ⟨hcode, -⟩ | hcode := exhaustedError_cases env clientId examined
  all_goals cases h.symm.trans hcode

/-- A loop that reached the verdicts of these keys refuses for their reason. -/
theorem exhaustedError_refuses (env : PoolEnv) (clientId : Option Nat) {examined : List Examined}
    (hkeys : keys ≠ [])
    (hverdicts : ∀ verdict, verdict ∈ examined.map Examined.verdict ↔
      ∃ row ∈ keys, verdictOf reading stored row = verdict)
    (hnone : ∀ row ∈ keys, isAvailable reading stored row = false) :
    Refuses reading stored keys (exhaustedError env clientId examined) := by
  have hall : ∀ P : Verdict → Prop, (∀ e ∈ examined, P e.verdict) ↔
      ∀ row ∈ keys, P (verdictOf reading stored row) := by
    intro P
    constructor
    · intro h row hrow
      obtain ⟨e, he, heq⟩ := List.mem_map.mp ((hverdicts _).mpr ⟨row, hrow, rfl⟩)
      exact heq ▸ h e he
    · intro h e he
      obtain ⟨row, hrow, heq⟩ := (hverdicts _).mp (List.mem_map_of_mem he)
      exact heq ▸ h row hrow
  have hex : ∀ P : Verdict → Prop, (∃ e ∈ examined, P e.verdict) ↔
      ∃ row ∈ keys, P (verdictOf reading stored row) := by
    intro P
    have hnot := not_congr (hall fun verdict => ¬P verdict)
    push Not at hnot
    exact hnot
  have hne : ∀ e ∈ examined, e.verdict ≠ .eligible := by
    rw [hall (· ≠ .eligible)]
    intro row hrow heligible
    rw [verdictOf_eq_eligible, hnone row hrow] at heligible
    cases heligible
  obtain ⟨hdisabled, hquota, hcooling, hmixed⟩ := exhaustedError_code_iff env clientId hne
  rw [hall (· = .disabled)] at hdisabled
  rw [hex (· ≠ .disabled),
    hall fun verdict => verdict ≠ .disabled → verdict = .quotaExceeded] at hquota
  rw [hex (· ≠ .disabled),
    hall fun verdict => verdict ≠ .disabled → verdict.isCooling = true] at hcooling
  rw [hex (Verdict.isCooling · = true), hex (· = .quotaExceeded)] at hmixed
  simp only [ne_eq, (verdictOf_cases _).1, (verdictOf_cases _).2.1, (verdictOf_cases _).2.2.1,
    Bool.not_eq_true] at hdisabled hquota hcooling hmixed
  refine ⟨iff_of_false (exhaustedError_code_ne env clientId examined) hkeys, ?_, hquota, hcooling,
    ?_, hmixed⟩
  · rw [hdisabled]
    exact ⟨fun h => ⟨hkeys, h⟩, And.right⟩
  · intro hcode
    obtain ⟨⟨row, hrow, henabled⟩, hbacking⟩ := hcooling.mp hcode
    rw [exhaustedError_retryAfter hcode]
    have hspec := coolingRetryAfter_spec examined
    simp only [hverdicts, (verdictOf_cases _).2.2.2] at hspec
    split at hspec
    · exact absurd ⟨row, hrow, hbacking row hrow henabled, rfl⟩ (hspec _)
    · next seconds hseconds =>
      obtain ⟨⟨first, hfirst, hback, hleast⟩, hlower⟩ := hspec
      refine ⟨seconds, hseconds, ⟨first, hfirst, ?_, hleast⟩, ?_⟩
      · rw [isBackingOff, Bool.and_eq_true, Bool.not_eq_true'] at hback
        exact hback.1
      · rintro s ⟨other, hother, henabled, rfl⟩
        exact hlower _ ⟨other, hother, hbacking other hother henabled, rfl⟩

theorem noKey_refuses {error : FcamError} (hcode : error.code = .noKeyConfigured) :
    Refuses reading stored [] error where
  noKey := by simp [hcode]
  disabled := by simp [hcode]
  exhausted := by simp [hcode]
  cooling := by simp [hcode]
  least := by simp [hcode]
  mixed := by simp [hcode]

theorem disabled_refuses {error : FcamError} (hcode : error.code = .allKeysDisabled)
    (hkeys : keys ≠ []) (hall : ∀ row ∈ keys, isDisabled row.2 = true) :
    Refuses reading stored keys error where
  noKey := by simp [hcode, hkeys]
  disabled := iff_of_true hcode ⟨hkeys, hall⟩
  exhausted := by
    refine iff_of_false (by simp [hcode]) ?_
    rintro ⟨⟨row, hrow, henabled⟩, _⟩
    exact absurd (hall row hrow) (by simp [henabled])
  cooling := by
    refine iff_of_false (by simp [hcode]) ?_
    rintro ⟨⟨row, hrow, henabled⟩, _⟩
    exact absurd (hall row hrow) (by simp [henabled])
  least := by simp [hcode]
  mixed := by
    refine iff_of_false (by simp [hcode]) ?_
    rintro ⟨⟨row, hrow, hbacking⟩, _⟩
    rw [isBackingOff, hall row hrow] at hbacking
    cases hbacking

end Refusal

/-! ### The selection -/

section Meets

variable (reading : Reading) (secondsUntilNextMidnight : Int) (stored : Nat → Option Int)
  (w : World) (clientId : Option Nat) (provider : Provider)

variable {w clientId provider} in
/-- The keys a selection examined are those up to the one it returns. -/
theorem select_examined_ids {env : PoolEnv} {id : Nat} {key : ApiKey}
    (h : (select env w clientId provider).result = .ok (id, key)) :
    ∃ passed row position later,
      cyclicFrom (w.rrIndexByScope { clientId, provider } %
        (w.db.keys.select (inScope clientId provider)).length)
        (w.db.keys.select (inScope clientId provider)) = passed ++ ((id, row), position) :: later ∧
      (select env w clientId provider).examined.map Examined.id =
        passed.map (fun visit => visit.1.1) ++ [id] := by
  rw [select] at h ⊢
  simp only at h ⊢
  split at h
  · cases h
  split at h
  · cases h
  next hempty hactive =>
  rw [if_neg hempty, if_neg hactive]
  split at h
  · cases h
  · cases h
  · next idx id' key' examined hscan =>
    cases h
    have hsplit := scan_split (congrArg Prod.fst hscan)
    rw [hscan] at hsplit
    obtain ⟨passed, row, later, horder, _, hids, _⟩ := hsplit
    exact ⟨passed, row, idx, later, horder, hids⟩

variable {w clientId provider} in
/-- Keys behind the one a selection returns are left as they are. -/
theorem select_later {env : PoolEnv} {id : Nat} {key row : ApiKey} {position : Nat}
    {passed later : List ((Nat × ApiKey) × Nat)}
    (h : (select env w clientId provider).result = .ok (id, key))
    (horder : cyclicFrom
      (w.rrIndexByScope { clientId, provider } %
        (w.db.keys.select (inScope clientId provider)).length)
    (w.db.keys.select (inScope clientId provider)) = passed ++ ((id, row), position) :: later) :
    ∀ visit ∈ later, (select env w clientId provider).world.key? visit.1.1 = some visit.1.2 := by
  intro visit hvisit
  obtain ⟨passed', row', position', later', horder', hexamined⟩ := select_examined_ids h
  have hnodup := cyclicFrom_ids_nodup
    (w.rrIndexByScope { clientId, provider } %
     (w.db.keys.select (inScope clientId provider)).length)
    (select_ids_nodup w.db.keys (inScope clientId provider))
  rw [horder, List.map_append, List.map_cons, List.nodup_middle, List.nodup_cons, List.mem_append,
    not_or] at hnodup
  have hsame : passed'.map (fun visit => visit.1.1) = passed.map fun visit => visit.1.1 := by
    have hids := congrArg (List.map fun visit => visit.1.1) (horder'.symm.trans horder)
    rw [List.map_append, List.map_append, List.map_cons, List.map_cons] at hids
    exact ((List.append_cons_inj_of_notMem hnodup.1.1 hnodup.1.2).mp hids.symm).1.symm
  have hkey : w.key? visit.1.1 = some visit.1.2 := by
    have hmem : visit ∈ passed ++ ((id, row), position) :: later :=
      List.mem_append_right _ (List.mem_cons_of_mem _ hvisit)
    rw [← horder] at hmem
    exact (Table.mem_select.mp (mem_cyclicFrom hmem)).1
  obtain ⟨after, hafter, ⟨rfl, _⟩ | ⟨e, he, hid, _⟩⟩ := select_committed h hkey
  · exact hafter
  · have hin : visit.1.1 ∈ passed.map (fun visit => visit.1.1) ++ [id] := by
      rw [← hsame, ← hexamined, ← hid]
      exact List.mem_map_of_mem he
    have hlater : visit.1.1 ∈ later.map fun visit => visit.1.1 := List.mem_map_of_mem hvisit
    rcases List.mem_append.mp hin with hpassed | hself
    · exact absurd hlater (List.disjoint_of_nodup_append hnodup.2 hpassed)
    · rw [List.mem_singleton.mp hself] at hlater
      exact absurd hlater hnodup.1.2

/-- `select` computes its specification. -/
theorem select_meets_spec :
    SelectSpec reading stored w clientId provider
      (select (.ofStore reading secondsUntilNextMidnight stored) w clientId provider) := by
  have hscanned := scan_ofStore reading secondsUntilNextMidnight stored (cyclicFrom
    (w.rrIndexByScope { clientId, provider } %
     (w.db.keys.select (inScope clientId provider)).length)
    (w.db.keys.select (inScope clientId provider)))
  rw [SelectSpec]
  split
  · next row position hfind =>
    rw [hfind] at hscanned
    simp only at hscanned
    have havailable := List.find?_some hfind
    have hmem := mem_cyclicFrom (List.mem_of_find?_eq_some hfind)
    have henabled : isDisabled row.2 = false := by
      rw [isAvailable, Bool.and_eq_true, Bool.and_eq_true, Bool.not_eq_true'] at havailable
      exact havailable.1.1
    have hselect :
        (select (.ofStore reading secondsUntilNextMidnight stored) w clientId provider).result =
          .ok (row.1, released (ofToday reading row).2) ∧
        (select (.ofStore reading secondsUntilNextMidnight stored) w clientId
         provider).world.rrIndexByScope =
          Function.update w.rrIndexByScope { clientId, provider } (position + 1) := by
      have hempty : (w.db.keys.select (inScope clientId provider)).isEmpty = false :=
        List.isEmpty_eq_false_iff_exists_mem.mpr ⟨row, hmem⟩
      have hactive :
          (w.db.keys.select (inScope clientId provider)).any (fun row => row.2.isActive) =
            true := by
        refine List.any_eq_true.mpr ⟨row, hmem, ?_⟩
        rw [isDisabled, Bool.or_eq_false_iff, Bool.not_eq_false'] at henabled
        exact henabled.1
      rw [select]
      simp only [hempty, hactive, Bool.false_eq_true, Bool.not_true, if_false]
      generalize scan (.ofStore reading secondsUntilNextMidnight stored) (cyclicFrom
        (w.rrIndexByScope { clientId, provider } %
         (w.db.keys.select (inScope clientId provider)).length)
        (w.db.keys.select (inScope clientId provider))) = scanned at hscanned
      obtain ⟨scanEnd, examined⟩ := scanned
      obtain rfl := hscanned
      exact ⟨rfl, rfl⟩
    obtain ⟨hresult, hindex⟩ := hselect
    refine ⟨hresult, (select_ok hresult).1, hindex, fun passed later horder => ?_⟩
    obtain ⟨id, key⟩ := row
    exact select_later hresult horder
  · next hfind =>
    rw [hfind] at hscanned
    have hnone :
        ∀ row ∈ w.db.keys.select (inScope clientId provider),
          isAvailable reading stored row = false := by
      intro row hrow
      obtain ⟨visit, hvisit, rfl⟩ := exists_mem_cyclicFrom
        (w.rrIndexByScope { clientId, provider } %
         (w.db.keys.select (inScope clientId provider)).length) hrow
      simpa using List.find?_eq_none.mp hfind visit hvisit
    rw [select]
    simp only
    split
    · next hempty =>
      have hnil : w.db.keys.select (inScope clientId provider) = [] := List.isEmpty_iff.mp hempty
      exact ⟨_, rfl, hnil ▸ noKey_refuses rfl⟩
    next hempty =>
    have hne : w.db.keys.select (inScope clientId provider) ≠ [] :=
      fun hnil => hempty (by rw [hnil]; rfl)
    split
    · next hinactive =>
      refine ⟨_, rfl, disabled_refuses rfl hne fun row hrow => ?_⟩
      rw [Bool.not_eq_true', List.any_eq_false] at hinactive
      simp [isDisabled, hinactive row hrow]
    · next hactive =>
      generalize hscan : scan (.ofStore reading secondsUntilNextMidnight stored) (cyclicFrom
        (w.rrIndexByScope { clientId, provider } %
         (w.db.keys.select (inScope clientId provider)).length)
        (w.db.keys.select (inScope clientId provider))) = scanned at hscanned
      obtain ⟨scanEnd, examined⟩ := scanned
      obtain ⟨rfl, hverdicts⟩ := hscanned
      refine ⟨_, rfl, exhaustedError_refuses _ _ hne (fun verdict => ?_) hnone⟩
      rw [show examined.map Examined.verdict = _ from hverdicts, List.mem_map]
      constructor
      · rintro ⟨visit, hvisit, heq⟩
        exact ⟨visit.1, mem_cyclicFrom hvisit, heq⟩
      · rintro ⟨row, hrow, heq⟩
        obtain ⟨visit, hvisit, rfl⟩ := exists_mem_cyclicFrom
          (w.rrIndexByScope { clientId, provider } %
           (w.db.keys.select (inScope clientId provider)).length) hrow
        exact ⟨visit, hvisit, heq⟩

end Meets

end Fcam

import Mathlib.Algebra.Order.Field.Rat
import Mathlib.Tactic.Positivity
import Mathlib.Tactic.FieldSimp
import Mathlib.Tactic.Linarith
import Fcam.Base.Run
import Fcam.Proof.Counting
import Fcam.Proof.CreditReports
import Fcam.Proof.FetchSnapshot

/-!
# The range of usage percentages

A percentage compares the cached credits of a key with its plan, or else with the credits its oldest
successful snapshot shows. It stays between 0 and 100 as long as no fetch and no clean-up puts the
cache above what it is compared with.
-/

namespace Fcam

attribute [local instance] instantOrder

theorem usagePercentage_bounds {total remaining : Int} (hnonneg : 0 ≤ remaining)
    (hle : remaining ≤ total) :
    0 ≤ usagePercentage total remaining ∧ usagePercentage total remaining ≤ 100 := by
  rw [usagePercentage]
  split
  · exact ⟨le_refl 0, by norm_num⟩
  · next hne =>
    have hpos : 0 < (total : Rat) := by exact_mod_cast (by omega : 0 < total)
    have hused : (0 : Rat) ≤ ((total - remaining : Int) : Rat) := by
      exact_mod_cast (by omega : 0 ≤ total - remaining)
    have hbelow : ((total - remaining : Int) : Rat) ≤ total := by
      exact_mod_cast (by omega : total - remaining ≤ total)
    have hone := (div_le_one hpos).mpr hbelow
    have hzero := div_nonneg hused hpos.le
    constructor
    · exact mul_nonneg hzero (by norm_num)
    · linarith

/-! ### Keys within their totals -/

/-- The cached credits of a key are not below 0 and not above its total. -/
def WithinTotal (w : World) (id : Nat) (key : ApiKey) : Prop :=
  0 ≤ (keyUsage w id key).remainingCredits ∧ (keyUsage w id key).remainingCredits ≤
    (keyUsage w id key).totalCredits

/-- Those of every key. -/
def AllWithinTotals (w : World) : Prop := ∀ id key, w.key? id = some key → WithinTotal w id key

/-- Every percentage reported of a client or of one of its keys is between 0 and 100. -/
def UsageInRange (w : World) : Prop :=
  ∀ clientId usage, aggregateClientCredits clientId w = .ok usage →
    (0 ≤ usage.usagePercentage ∧ usage.usagePercentage ≤ 100) ∧
      ∀ entry ∈ usage.keys, 0 ≤ entry.usagePercentage ∧ entry.usagePercentage ≤ 100

theorem sums_within {details : List KeyUsage}
    (hwithin : ∀ entry ∈ details, 0 ≤ entry.remainingCredits ∧
      entry.remainingCredits ≤ entry.totalCredits) :
    0 ≤ (details.map KeyUsage.remainingCredits).sum ∧
      (details.map KeyUsage.remainingCredits).sum ≤ (details.map KeyUsage.totalCredits).sum := by
  induction details with
  | nil => exact ⟨le_refl 0, le_refl 0⟩
  | cons entry rest ih =>
    obtain ⟨hnonneg, hle⟩ :=
      ih fun other hother => hwithin other (List.mem_cons_of_mem entry hother)
    obtain ⟨hentry, hentry'⟩ := hwithin entry List.mem_cons_self
    simp only [List.map_cons, List.sum_cons]
    omega

theorem AllWithinTotals.inRange {w : World} (hwithin : AllWithinTotals w) : UsageInRange w := by
  intro clientId usage husage
  rw [aggregateClientCredits] at husage
  split at husage
  · cases husage
  · cases husage
    have hdetails :
        ∀ entry ∈ (w.db.keys.select fun key => key.clientId == some clientId && key.isActive).map
          fun row => keyUsage w row.1 row.2,
        0 ≤ entry.remainingCredits ∧ entry.remainingCredits ≤ entry.totalCredits := by
      intro entry hentry
      obtain ⟨row, hrow, rfl⟩ := List.mem_map.mp hentry
      exact hwithin row.1 row.2 (Table.mem_select.mp hrow).1
    obtain ⟨hnonneg, hle⟩ := sums_within hdetails
    refine ⟨usagePercentage_bounds hnonneg hle, ?_⟩
    intro entry hentry
    obtain ⟨row, hrow, rfl⟩ := List.mem_map.mp hentry
    obtain ⟨hnonneg, hle⟩ := hwithin row.1 row.2 (Table.mem_select.mp hrow).1
    exact usagePercentage_bounds hnonneg hle

/-- No credits are known yet. -/
def Unfetched (w : World) : Prop :=
  w.db.creditSnapshots = .empty ∧
    ∀ id key, w.key? id = some key → key.cachedRemainingCredits = none ∧
      key.cachedPlanCredits = none

theorem Unfetched.allWithinTotals {w : World} (h : Unfetched w) : AllWithinTotals w := by
  intro id key hkey
  obtain ⟨hremaining, hplan⟩ := h.2 id key hkey
  have hfirst : firstSnapshot id w = none := by rw [firstSnapshot, snapshotsOf, h.1]; rfl
  rw [WithinTotal, keyUsage_totalCredits, initialCredits, hfirst, keyUsage]
  simp only [hremaining, hplan]
  decide

/-! ### What a step changes -/

section

variable {config : AppConfig} {w w' : World} {id : Nat} {key : ApiKey}

/-- The credits an outcome brings. -/
def Outcome.credits : Outcome → Option (Int × Int)
  | response r =>
    if r.statusCode = 200 then
      match r.json.map creditAnswer with
      | some (.credits remaining plan) => some (remaining, plan)
      | _ => none
    else none
  | _ => none

theorem withinTotal_congr {key' : ApiKey}
    (hremaining : key'.cachedRemainingCredits = key.cachedRemainingCredits)
    (hplan : key'.cachedPlanCredits = key.cachedPlanCredits)
    (hfirst : firstSnapshot id w' = firstSnapshot id w) :
    WithinTotal w' id key' ↔ WithinTotal w id key := by
  simp only [WithinTotal, keyUsage, hremaining, hplan, hfirst]

/-- Every key has its numbers and its oldest successful snapshot in both states. -/
def SameNumbers (w w' : World) : Prop :=
  ∀ id, firstSnapshot id w' = firstSnapshot id w ∧
    ∀ key', w'.key? id = some key' → ∃ key, w.key? id = some key ∧
      key'.cachedRemainingCredits = key.cachedRemainingCredits ∧
        key'.cachedPlanCredits = key.cachedPlanCredits

theorem AllWithinTotals.of_same (hwithin : AllWithinTotals w) (hsame : SameNumbers w w') :
    AllWithinTotals w' := by
  intro id key' hkey'
  obtain ⟨hfirst, hkeys⟩ := hsame id
  obtain ⟨key, hkey, hremaining, hplan⟩ := hkeys key' hkey'
  exact (withinTotal_congr hremaining hplan hfirst).mpr (hwithin id key hkey)

theorem sameNumbers_refl (w : World) : SameNumbers w w := by
  intro id
  exact ⟨rfl, fun key hkey => ⟨key, hkey, rfl, rfl⟩⟩

theorem snapshotsOf_addSnapshot (p : CreditSnapshot → Bool) (snapshot : CreditSnapshot) :
    snapshotsOf id p (w.addSnapshot snapshot) =
      snapshotsOf id p w ++ if (snapshot.apiKeyId == id && p snapshot) = true then [snapshot]
        else [] := by
  rw [snapshotsOf, snapshotsOf, World.addSnapshot, Table.select, Table.select, Table.insert,
    List.filter_append, List.map_append]
  congr 1
  rw [List.filter_singleton]
  cases snapshot.apiKeyId == id && p snapshot <;> rfl

theorem sameNumbers_failed (t : Instant) : SameNumbers w (w.addSnapshot (failedSnapshot id t)) := by
  intro other
  constructor
  · rw [firstSnapshot, snapshotsOf_addSnapshot, if_neg (by simp [failedSnapshot]), List.append_nil,
      firstSnapshot]
  · intro key hkey
    exact ⟨key, hkey, rfl, rfl⟩

theorem SameNumbers.modifyKey (hsame : SameNumbers w w') {f : ApiKey → ApiKey}
    (hf : ∀ key, creditCache (f key) = creditCache key) : SameNumbers w (w'.modifyKey id f) := by
  intro other
  obtain ⟨hfirst, hkeys⟩ := hsame other
  refine ⟨hfirst, ?_⟩
  intro key' hkey'
  rw [World.key?_modifyKey] at hkey'
  split at hkey'
  · obtain ⟨key, hkey, rfl⟩ := Option.map_eq_some_iff.mp hkey'
    obtain ⟨before, hbefore, hremaining, hplan⟩ := hkeys key hkey
    have hcache := hf key
    simp only [creditCache, Prod.mk.injEq] at hcache
    exact ⟨before, hbefore, hcache.1.trans hremaining, hcache.2.1.trans hplan⟩
  · exact hkeys key' hkey'

theorem settleFetch_sameNumbers {env : FetchEnv} (hnone : env.outcome.credits = none) :
    SameNumbers w (settleFetch config env id w).2 := by
  cases houtcome : env.outcome with
  | timeout =>
    simp only [settleFetch, houtcome]
    exact sameNumbers_failed _
  | httpError text =>
    simp only [settleFetch, houtcome]
    exact sameNumbers_refl w
  | exception text =>
    simp only [settleFetch, houtcome]
    exact sameNumbers_refl w
  | unsent text =>
    simp only [settleFetch, houtcome]
    exact sameNumbers_refl w
  | response r =>
    rw [houtcome, Outcome.credits] at hnone
    simp only [settleFetch, houtcome]
    by_cases hok : r.statusCode = 200
    · rw [if_pos hok] at hnone
      simp only [if_pos hok]
      cases hanswer : r.json.map creditAnswer with
      | none => exact sameNumbers_failed _
      | some answer =>
        cases answer with
        | notAnObject => exact sameNumbers_refl w
        | unreadable => exact sameNumbers_refl w
        | unsuccessful => exact sameNumbers_failed _
        | credits remaining plan => simp [hanswer] at hnone
    · simp only [if_neg hok]
      split
      · exact (sameNumbers_failed _).modifyKey fun _ => rfl
      · split
        · exact (sameNumbers_failed _).modifyKey fun _ => rfl
        · exact sameNumbers_failed _

theorem settleFetch_credits {env : FetchEnv} {remaining plan : Int}
    (hcredits : env.outcome.credits = some (remaining, plan)) :
    (settleFetch config env id w).2 =
      (w.addSnapshot
          { apiKeyId := id
            remainingCredits := remaining
            planCredits := plan
            snapshotAt := env.writtenAt
            fetchSuccess := true }).modifyKey id
        (fetchSucceeded config env.now env.writtenAt w.db.creditSnapshots.nextId remaining
         plan) := by
  cases houtcome : env.outcome with
  | response r =>
    rw [houtcome, Outcome.credits] at hcredits
    split at hcredits
    · next hok =>
      split at hcredits
      · next hanswer =>
        obtain ⟨rfl, rfl⟩ := Prod.mk.inj (Option.some.inj hcredits)
        simp only [settleFetch, houtcome, if_pos hok, hanswer]
      · cases hcredits
    · cases hcredits
  | _ => rw [houtcome] at hcredits; cases hcredits

theorem firstSnapshot_modifyKey {other : Nat} {f : ApiKey → ApiKey} :
    firstSnapshot other (w.modifyKey id f) = firstSnapshot other w := rfl

theorem firstSnapshot_addSnapshot_of_ne {snapshot : CreditSnapshot} {other : Nat}
    (hne : snapshot.apiKeyId ≠ other) :
    firstSnapshot other (w.addSnapshot snapshot) = firstSnapshot other w := by
  rw [firstSnapshot, snapshotsOf_addSnapshot, if_neg (by simp [hne]), List.append_nil,
    firstSnapshot]

/-- After a success the oldest successful snapshot is the one before, unless the new one is
older. -/
theorem firstSnapshot_addSnapshot {snapshot : CreditSnapshot} (hown : snapshot.apiKeyId = id)
    (hsuccess : snapshot.fetchSuccess = true) :
    firstSnapshot id (w.addSnapshot snapshot) = some snapshot ∨
      ∃ first ∈ firstSnapshot id w, first.snapshotAt ≤ snapshot.snapshotAt ∧
        firstSnapshot id (w.addSnapshot snapshot) = some first := by
  rw [firstSnapshot, snapshotsOf_addSnapshot, if_pos (by simp [hown, hsuccess]), List.argmin_concat]
  cases hfirst :
    (snapshotsOf id CreditSnapshot.fetchSuccess w).argmin CreditSnapshot.snapshotAt with
  | none => exact .inl rfl
  | some first =>
    dsimp only
    split
    · exact .inl rfl
    · next hle => exact .inr ⟨first, hfirst, Int.not_lt.mp hle, rfl⟩

/-- A step keeps every key within its total if a fetch brings no more credits than its plan or,
without one, than the oldest successful snapshot that is not newer shows, and no clean-up leaves a
key without a plan an oldest successful snapshot with fewer credits than it has. -/
def KeepsWithin (config : AppConfig) (w : World) : CreditStep → Prop
  | .fetch id env => ∀ remaining plan, env.outcome.credits = some (remaining, plan) →
      if 0 < plan then remaining ≤ plan
      else ∀ first ∈ firstSnapshot id w, first.snapshotAt ≤ env.writtenAt →
        remaining ≤ first.remainingCredits
  | .deduct _ _ _ _ => True
  | .cleanUp now => ∀ id key, w.key? id = some key → key.cachedPlanCredits.getD 0 ≤ 0 →
      ∀ first ∈ ((snapshotsOf id CreditSnapshot.fetchSuccess w).filter (isKept config now)).argmin
        CreditSnapshot.snapshotAt, key.cachedRemainingCredits.getD 0 ≤ first.remainingCredits

/-- The upstream reports no negative credits. -/
def CreditStep.Nonnegative : CreditStep → Prop
  | .fetch _ env =>
    ∀ remaining plan, env.outcome.credits = some (remaining, plan) → 0 ≤ remaining ∧ 0 ≤ plan
  | _ => True

theorem fetch_within {env : FetchEnv} (hwithin : AllWithinTotals w)
    (hnonneg : (CreditStep.fetch id env).Nonnegative)
    (hkeeps : KeepsWithin config w (.fetch id env)) :
    AllWithinTotals (settleFetch config env id w).2 := by
  cases hcredits : env.outcome.credits with
  | none => exact hwithin.of_same (settleFetch_sameNumbers hcredits)
  | some numbers =>
    obtain ⟨remaining, plan⟩ := numbers
    obtain ⟨hremaining, -⟩ := hnonneg remaining plan hcredits
    have hbound := hkeeps remaining plan hcredits
    rw [settleFetch_credits hcredits]
    intro other key hkey
    rw [World.key?_modifyKey, World.key?_addSnapshot] at hkey
    by_cases hother : other = id
    · subst hother
      rw [if_pos rfl] at hkey
      obtain ⟨before, -, rfl⟩ := Option.map_eq_some_iff.mp hkey
      rw [WithinTotal]
      refine ⟨hremaining, ?_⟩
      show remaining ≤ if 0 < plan then plan else _
      by_cases hpos : 0 < plan
      · rw [if_pos hpos]
        rwa [if_pos hpos] at hbound
      · rw [if_neg hpos]
        rw [if_neg hpos] at hbound
        rw [firstSnapshot_modifyKey]
        rcases @firstSnapshot_addSnapshot w other
          { apiKeyId := other, remainingCredits := remaining, planCredits := plan,
            snapshotAt := env.writtenAt,
            fetchSuccess := true } rfl rfl with hnew | ⟨first, hfirst, hle, hold⟩
        · rw [hnew]
        · rw [hold]
          exact hbound first hfirst hle
    · rw [if_neg hother] at hkey
      apply (withinTotal_congr rfl rfl _).mpr (hwithin other key hkey)
      exact firstSnapshot_addSnapshot_of_ne (Ne.symm hother)

theorem deduct_within (hwithin : AllWithinTotals w) (method upstreamPath : String)
    (r : UpstreamResponse) :
    AllWithinTotals (w.modifyKey id (deductCredits (localCost config method upstreamPath r))) := by
  intro other key hkey
  rw [World.key?_modifyKey] at hkey
  split at hkey
  · obtain ⟨before, hbefore, rfl⟩ := Option.map_eq_some_iff.mp hkey
    have hold := hwithin other before hbefore
    cases hcost : localCost config method upstreamPath r with
    | none => exact hold
    | some cost =>
      cases hcached : before.cachedRemainingCredits with
      | none =>
        have hsame : deductCredits (some cost) before = before := by
          simp only [deductCredits, hcached]
        rw [hsame]
        exact hold
      | some remaining =>
        have hpos := localCost_pos hcost
        simp only [WithinTotal, keyUsage, deductCredits, hcached, firstSnapshot_modifyKey,
          Option.getD_some] at hold ⊢
        refine ⟨le_max_left _ _, ?_⟩
        by_cases hplan : 0 < before.cachedPlanCredits.getD 0
        · rw [if_pos hplan] at hold ⊢
          omega
        · rw [if_neg hplan] at hold ⊢
          revert hold
          cases firstSnapshot other w with
          | none => exact fun _ => le_refl _
          | some first =>
            intro hold
            dsimp only at hold ⊢
            omega
  · exact hwithin other key hkey

theorem cleanUp_within {now : Instant} (hwithin : AllWithinTotals w)
    (hkeeps : KeepsWithin config w (.cleanUp now)) :
    AllWithinTotals (cleanupOldSnapshots config now w) := by
  intro other key hkey
  rw [key?_cleanupOldSnapshots] at hkey
  have hold := hwithin other key hkey
  have hbound := hkeeps other key hkey
  simp only [WithinTotal, keyUsage] at hold ⊢
  refine ⟨hold.1, ?_⟩
  by_cases hpos : 0 < key.cachedPlanCredits.getD 0
  · rw [if_pos hpos]
    rw [if_pos hpos] at hold
    exact hold.2
  · rw [if_neg hpos, firstSnapshot, snapshotsOf_cleanup]
    cases hfirst :
      ((snapshotsOf other CreditSnapshot.fetchSuccess w).filter (isKept config now)).argmin
        CreditSnapshot.snapshotAt with
    | none => exact le_refl _
    | some first => exact hbound (Int.not_lt.mp hpos) first hfirst

/-- In every run whose steps keep keys within their totals every percentage reported is between 0
and 100. -/
theorem usage_in_range {last : World} {steps : List CreditStep} (hstart : Unfetched w)
    (hmeets : Meets (CreditStep.next config)
      (fun w step => step.Nonnegative ∧ KeepsWithin config w step) w steps)
    (hexec : exec (CreditStep.next config) w steps = some last) : UsageInRange last := by
  have hstep : ∀ w step w', AllWithinTotals w → step.Nonnegative ∧ KeepsWithin config w step →
      CreditStep.next config w step = some w' → AllWithinTotals w' := by
    rintro w step w' hwithin ⟨hnonneg, hkeeps⟩ hnext
    cases step with
    | fetch id env =>
      cases hnext
      exact fetch_within hwithin hnonneg hkeeps
    | deduct id method upstreamPath r =>
      cases hnext
      exact deduct_within hwithin method upstreamPath r
    | cleanUp now =>
      cases hnext
      exact cleanUp_within hwithin hkeeps
  exact (exec_invariant_of_meets hstep hmeets hexec hstart.allWithinTotals).inRange

end

/-- A client with a key that has not been fetched. -/
def unfetchedWorld : World :=
  { db := { clients := Table.empty.insert {}, keys := Table.empty.insert { clientId := some 1 } } }

/-- The upstream answers with credits. -/
def creditsAnswered (remaining plan : Int) : FetchEnv :=
  { outcome := .response
      { statusCode := 200
        json := some (.obj
          [(PyStr.ofString "success", .bool true),
            (PyStr.ofString "data", .obj
              [(PyStr.ofString "remainingCredits", .int remaining),
                (PyStr.ofString "planCredits", .int plan)])]) }
    now := 0
    writtenAt := 0 }

theorem unfetchedWorld_unfetched : Unfetched unfetchedWorld := by
  refine ⟨rfl, ?_⟩
  intro id key hkey
  rw [World.key?, unfetchedWorld, Table.get?_insert] at hkey
  split at hkey
  · obtain rfl := Option.some.inj hkey
    exact ⟨rfl, rfl⟩
  · cases hkey

/-- An account with 300 of the 1000 credits of its plan is fetched, charged for a scrape, fetched
again, not reached, and cleaned up. -/
def planRun : List CreditStep :=
  [.fetch 1 (creditsAnswered 300 1000), .deduct 1 "POST" "/v2/scrape" { statusCode := 200 },
    .fetch 1 (creditsAnswered 250 1000),
    .fetch 1 { outcome := .timeout, now := 60000, writtenAt := 60000 }, .cleanUp 120000]

theorem plan_usage_in_range :
    ∃ last, exec (CreditStep.next {}) unfetchedWorld planRun = some last ∧ UsageInRange last := by
  have hfetch : ∀ (w : World) (env : FetchEnv) (remaining plan : Int),
      env.outcome.credits = some (remaining, plan) → 0 ≤ remaining ∧ 0 < plan ∧ remaining ≤ plan →
        (CreditStep.fetch 1 env).Nonnegative ∧ KeepsWithin {} w (.fetch 1 env) := by
    intro w env remaining plan hcredits hbounds
    refine ⟨fun remaining' plan' hnumbers => ?_, fun remaining' plan' hnumbers => ?_⟩
    · obtain ⟨rfl, rfl⟩ := Prod.mk.inj (Option.some.inj (hcredits.symm.trans hnumbers))
      exact ⟨hbounds.1, Int.le_of_lt hbounds.2.1⟩
    · obtain ⟨rfl, rfl⟩ := Prod.mk.inj (Option.some.inj (hcredits.symm.trans hnumbers))
      rw [if_pos hbounds.2.1]
      exact hbounds.2.2
  have hmeets : Meets (CreditStep.next {})
      (fun w step => step.Nonnegative ∧ KeepsWithin {} w step) unfetchedWorld planRun := by
    refine ⟨hfetch _ _ 300 1000 rfl (by decide), fun w₁ hw₁ => ⟨⟨trivial, trivial⟩, fun w₂ hw₂ =>
      ⟨hfetch _ _ 250 1000 rfl (by decide), fun w₃ hw₃ => ⟨⟨?_, ?_⟩, fun w₄ hw₄ =>
        ⟨⟨trivial, ?_⟩, fun _ _ => trivial⟩⟩⟩⟩⟩
    · intro remaining plan hnumbers
      cases hnumbers
    · intro remaining plan hnumbers
      cases hnumbers
    · -- The key has a plan.
      cases hw₁
      cases hw₂
      cases hw₃
      cases hw₄
      intro id key hkey hplan
      have hall : ∀ row ∈ ((exec (CreditStep.next {}) unfetchedWorld (planRun.take 4)).elim []
          fun w => w.db.keys.rows), 0 < row.2.cachedPlanCredits.getD 0 := by decide
      have hpositive : 0 < key.cachedPlanCredits.getD 0 :=
        hall (id, key) (Table.get?_eq_some_iff.mp hkey)
      omega
  exact ⟨_, rfl, usage_in_range unfetchedWorld_unfetched hmeets rfl⟩

/-- One with more credits left than its plan has. -/
theorem topped_up_below_zero :
    ((exec (CreditStep.next {}) unfetchedWorld [.fetch 1 (creditsAnswered 150 100)]).bind
      fun last =>
      (aggregateClientCredits 1 last).toOption).map ClientUsage.usagePercentage = some (-50) := by
  decide +kernel

end Fcam

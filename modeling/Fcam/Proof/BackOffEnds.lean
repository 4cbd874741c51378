import Fcam.Model.KeyTest
import Fcam.Proof.SelectSpec

/-!
# Where a back-off ends

A selection counts back-off in whole seconds. A key in the last second of its back-off is therefore
returned, and the time after which a refused selection may be tried again is that of keys whose
quota may be exhausted.
-/

namespace Fcam

section

variable (reading : Reading) (stored : Nat → Option Int)

/-- The key is backing off: until an instant yet to come, or as the store reports. -/
def IsHeldBack (row : Nat × ApiKey) : Prop :=
  backsOff row.2 = true ∧
    ((∃ ends, row.2.cooldownUntil = some ends ∧ reading.now < ends) ∨
      (row.2.status = .cooling ∧ ∃ ttl, stored row.1 = some ttl ∧ 0 < ttl))

/-- Less than a second of the back-off is left, and nothing in the store. -/
structure InLastSecond (row : Nat × ApiKey) : Prop where
  backs : backsOff row.2 = true
  last : ∃ ends, row.2.cooldownUntil = some ends ∧ reading.now < ends ∧ ends < reading.now + 1000000
  store : row.2.status = .cooling → ∀ ttl, stored row.1 = some ttl → ttl ≤ 0

end

section

variable {reading : Reading} {stored : Nat → Option Int}

theorem isAvailable_iff {row : Nat × ApiKey} :
    isAvailable reading stored row = true ↔
      isDisabled row.2 = false ∧ backOff reading stored (ofToday reading row) ≤ 0 ∧
      (ofToday reading row).2.dailyUsage < (ofToday reading row).2.dailyQuota := by
  cases hdisabled : isDisabled row.2 with
  | true => simp [isAvailable, hdisabled]
  | false => simp [isAvailable, isBackingOff, hdisabled]

theorem max_tdiv_le_iff {later now s : Int} (hs : 0 ≤ s) :
    max ((later - now).tdiv 1000000) 0 ≤ s ↔ later < now + (s + 1) * 1000000 := by
  by_cases hpast : later < now
  · have hnonpos : (later - now).tdiv 1000000 = -((now - later) / 1000000) := by
      rw [show later - now = -(now - later) by omega, Int.neg_tdiv,
        Int.tdiv_eq_ediv_of_nonneg (by omega)]
    rw [hnonpos]
    omega
  · rw [Int.tdiv_eq_ediv_of_nonneg (by omega)]
    omega

theorem cooldownRemainingSeconds_le_iff {key : ApiKey} {now : Instant} {s : Int} (hs : 0 ≤ s) :
    cooldownRemainingSeconds key now ≤ s ↔
      ∀ ends, key.cooldownUntil = some ends → ends < now + (s + 1) * 1000000 := by
  rw [cooldownRemainingSeconds]
  cases hends : key.cooldownUntil with
  | none => simpa using hs
  | some ends =>
    simp only [Option.some.injEq, forall_eq']
    exact max_tdiv_le_iff hs

theorem lazyReset_backsOff (today : Day) (key : ApiKey) :
    backsOff (lazyReset today key) = backsOff key := by
  rw [lazyReset]
  split
  · rfl
  · by_cases hexceeded : key.status = .quotaExceeded
    · simp only [backsOff, hexceeded, if_true]
      rfl
    · simp only [backsOff, hexceeded, if_false]

theorem lazyReset_cooling (today : Day) (key : ApiKey) :
    (lazyReset today key).status = .cooling ↔ key.status = .cooling := by
  rw [lazyReset]
  split
  · rfl
  · by_cases hexceeded : key.status = .quotaExceeded
    · simp [hexceeded]
    · simp [hexceeded]

/-- A key in back-off has no whole second of it left if and only if it ends within a second, in the
store as well. -/
theorem backOff_le_zero_iff {row : Nat × ApiKey} (hbacks : backsOff row.2 = true) :
    backOff reading stored (ofToday reading row) ≤ 0 ↔
      (∀ ends, row.2.cooldownUntil = some ends → ends < reading.now + 1000000) ∧
        (row.2.status = .cooling → ∀ ttl, stored row.1 = some ttl → ttl ≤ 0) := by
  have hends : cooldownRemainingSeconds (ofToday reading row).2 reading.now ≤ 0 ↔
      ∀ ends, row.2.cooldownUntil = some ends → ends < reading.now + 1000000 := by
    rw [cooldownRemainingSeconds_le_iff (Int.le_refl 0), ofToday, lazyReset_cooldownUntil]
    simp
  have hbacks' : backsOff (ofToday reading row).2 = true := by
    rw [ofToday, lazyReset_backsOff, hbacks]
  rw [backsOff, Bool.or_eq_true, beq_iff_eq, beq_iff_eq] at hbacks'
  rw [backOff]
  by_cases hcooling : row.2.status = .cooling
  · have hsame : (ofToday reading row).2.status = .cooling := (lazyReset_cooling _ _).mpr hcooling
    rw [if_pos hsame, Int.max_le, hends]
    refine and_congr_right fun _ => ?_
    cases hstored : stored row.1 with
    | none => simp [ofToday, hstored]
    | some ttl => simp [ofToday, hstored, hcooling]
  · have hnot : (ofToday reading row).2.status ≠ .cooling :=
      fun h => hcooling ((lazyReset_cooling _ _).mp h)
    rw [if_neg hnot, if_pos (hbacks'.resolve_left hnot), hends]
    exact (and_iff_left fun h => absurd h hcooling).symm

variable {secondsUntilNextMidnight : Int} {w : World} {clientId : Option Nat} {provider : Provider}

/-- A selected key is available. -/
theorem select_ok_available {id : Nat} {key : ApiKey}
    (h : (select (.ofStore reading secondsUntilNextMidnight stored) w clientId provider).result =
      .ok (id, key)) :
    ∃ row ∈ w.db.keys.select (inScope clientId provider),
      row.1 = id ∧ isAvailable reading stored row = true := by
  have hspec := select_meets_spec reading secondsUntilNextMidnight stored w clientId provider
  rw [SelectSpec] at hspec
  split at hspec
  · next row position hfind =>
    rw [h] at hspec
    obtain ⟨hid, _⟩ := Prod.mk.inj (Except.ok.inj hspec.1)
    have havailable :=
      List.find?_some (p := fun visit : (Nat × ApiKey) × Nat => isAvailable reading stored visit.1)
        hfind
    exact ⟨row, mem_cyclicFrom (List.mem_of_find?_eq_some hfind), hid.symm, havailable⟩
  · obtain ⟨error, herror, _⟩ := hspec
    rw [h] at herror
    cases herror

/-- An available key is found. -/
theorem select_isOk {row : Nat × ApiKey} (hmem : row ∈ w.db.keys.select (inScope clientId provider))
    (havailable : isAvailable reading stored row = true) :
    ∃ id key, (select (.ofStore reading secondsUntilNextMidnight stored) w clientId
      provider).result = .ok (id, key) := by
  have hspec := select_meets_spec reading secondsUntilNextMidnight stored w clientId provider
  rw [SelectSpec] at hspec
  split at hspec
  · exact ⟨_, _, hspec.1⟩
  · next hfind =>
    obtain ⟨visit, hvisit, rfl⟩ := exists_mem_cyclicFrom
      (w.rrIndexByScope { clientId, provider } %
       (w.db.keys.select (inScope clientId provider)).length) hmem
    exact absurd havailable (List.find?_eq_none.mp hfind visit hvisit)

/-- From its own position an available key is the one that is found. -/
theorem select_from_position {row : Nat × ApiKey}
    (hmem : row ∈ w.db.keys.select (inScope clientId provider))
    (havailable : isAvailable reading stored row = true) :
    ∃ rrIndexByScope key,
      (select (.ofStore reading secondsUntilNextMidnight stored) { w with rrIndexByScope } clientId
      provider).result = .ok (row.1, key) := by
  obtain ⟨position, hposition, hget⟩ := List.getElem_of_mem hmem
  have hspec :=
    select_meets_spec reading secondsUntilNextMidnight stored
      { w with rrIndexByScope := fun _ => position }
    clientId provider
  have horder :
      ∃ rest, cyclicFrom (position % (w.db.keys.select (inScope clientId provider)).length)
        (w.db.keys.select (inScope clientId provider)) = (row, position) :: rest := by
    have hlength : position < (w.db.keys.select (inScope clientId provider)).zipIdx.length := by
      rwa [List.length_zipIdx]
    have hentry :
        (w.db.keys.select (inScope clientId provider)).zipIdx[position] = (row, position) := by
      rw [List.getElem_zipIdx, hget, Nat.zero_add]
    rw [Nat.mod_eq_of_lt hposition, cyclicFrom,
      List.rotate_eq_drop_append_take (Nat.le_of_lt hlength), List.drop_eq_getElem_cons hlength,
      hentry, List.cons_append]
    exact ⟨_, rfl⟩
  obtain ⟨rest, horder⟩ := horder
  rw [SelectSpec] at hspec
  simp only [horder, List.find?_cons_of_pos, havailable] at hspec
  exact ⟨_, _, hspec.1⟩

/-- A selected key has no back-off to wait for, whichever key comes first, if and only if no enabled
key below its quota is in the last second of its back-off. -/
theorem never_held_back_iff :
    (∀ rrIndexByScope id key row, w.key? id = some row →
      (select (.ofStore reading secondsUntilNextMidnight stored) { w with rrIndexByScope } clientId
        provider).result =
        .ok (id, key) → ¬IsHeldBack reading stored (id, row)) ↔
      ∀ row ∈ w.db.keys.select (inScope clientId provider), isDisabled row.2 = false →
        InLastSecond reading stored row →
        (ofToday reading row).2.dailyQuota ≤ (ofToday reading row).2.dailyUsage := by
  constructor
  · intro hnever row hmem henabled hlast
    by_contra hquota
    obtain ⟨ends, hends, hlater, hsoon⟩ := hlast.last
    have hover : backOff reading stored (ofToday reading row) ≤ 0 := by
      refine (backOff_le_zero_iff hlast.backs).mpr ⟨fun other hother => ?_, hlast.store⟩
      rw [hends] at hother
      exact Option.some.inj hother ▸ hsoon
    have havailable : isAvailable reading stored row = true :=
      isAvailable_iff.mpr ⟨henabled, hover, Nat.not_le.mp hquota⟩
    obtain ⟨rrIndexByScope, key, hselected⟩ := select_from_position hmem havailable
    exact hnever rrIndexByScope row.1 key row.2 (Table.mem_select.mp hmem).1 hselected
      ⟨hlast.backs, .inl ⟨ends, hends, hlater⟩⟩
  · rintro hquota rrIndexByScope id key row hrow hselected ⟨hbacks, hheld⟩
    obtain ⟨found, hmem, rfl, havailable⟩ := select_ok_available hselected
    obtain ⟨id, before⟩ := found
    obtain rfl : row = before := by
      have hfound : w.key? id = some before := (Table.mem_select.mp hmem).1
      rwa [hrow, Option.some.injEq] at hfound
    obtain ⟨henabled, hover, hbelow⟩ := isAvailable_iff.mp havailable
    obtain ⟨hends, hstore⟩ := (backOff_le_zero_iff hbacks).mp hover
    obtain ⟨ends, hset, hlater⟩ | ⟨hcooling, ttl, hstored, hpositive⟩ := hheld
    · have hexhausted :=
        hquota (id, row) hmem henabled ⟨hbacks, ⟨ends, hset, hlater, hends ends hset⟩, hstore⟩
      exact absurd hbelow (Nat.not_lt.mpr hexhausted)
    · exact absurd hpositive (Int.not_lt.mpr (hstore hcooling ttl hstored))

/-- Without a store, a key in back-off waits at most so many seconds if and only if its back-off
ends within the next. -/
theorem backOff_noStore_le_iff {row : Nat × ApiKey} (hbacks : backsOff row.2 = true) {s : Int}
    (hs : 0 ≤ s) :
    backOff reading (fun _ => none) (ofToday reading row) ≤ s ↔
      ∀ ends, row.2.cooldownUntil = some ends → ends < reading.now + (s + 1) * 1000000 := by
  have hends : cooldownRemainingSeconds (ofToday reading row).2 reading.now ≤ s ↔
      ∀ ends, row.2.cooldownUntil = some ends → ends < reading.now + (s + 1) * 1000000 := by
    rw [cooldownRemainingSeconds_le_iff hs, ofToday, lazyReset_cooldownUntil]
  have hbacks' : backsOff (ofToday reading row).2 = true := by
    rw [ofToday, lazyReset_backsOff, hbacks]
  rw [backsOff, Bool.or_eq_true, beq_iff_eq, beq_iff_eq] at hbacks'
  rw [backOff]
  by_cases hcooling : (ofToday reading row).2.status = .cooling
  · rw [if_pos hcooling, Int.max_le, hends, Option.getD_none]
    exact and_iff_left hs
  · rw [if_neg hcooling, if_pos (hbacks'.resolve_left hcooling), hends]

theorem isBackingOff_backsOff {row : Nat × ApiKey} (h : isBackingOff reading stored row = true) :
    isDisabled row.2 = false ∧ backsOff row.2 = true := by
  rw [isBackingOff, Bool.and_eq_true, Bool.not_eq_true', decide_eq_true_eq] at h
  refine ⟨h.1, ?_⟩
  by_contra hnot
  have hnone : backsOff (ofToday reading row).2 = false := by
    rw [ofToday, lazyReset_backsOff]
    exact Bool.eq_false_iff.mpr hnot
  have hzero : backOff reading stored (ofToday reading row) = 0 := backOff_of_not_backsOff hnone
  rw [hzero] at h
  exact absurd h.2 (Int.lt_irrefl 0)

/-- After the time of a refusal because all keys are cooling a selection succeeds if and only if a
key that waits the least is below its quota. -/
theorem retryAfter_honest_iff {error : FcamError} {seconds : Int}
    (hrefused : (select (.ofStore reading secondsUntilNextMidnight fun _ => none) w clientId
      provider).result = .error error) (hcode : error.code = .allKeysCooling)
    (hseconds : error.retryAfter = some seconds) :
    (∀ (later : Reading) (midnight : Int), reading.now + seconds * 1000000 ≤ later.now →
      later.today = reading.today →
      ∃ id key, (select (.ofStore later midnight fun _ => none)
        (select (.ofStore reading secondsUntilNextMidnight fun _ => none) w clientId provider).world
          clientId
        provider).result = .ok (id, key)) ↔
      ∃ row ∈ w.db.keys.select (inScope clientId provider), isDisabled row.2 = false ∧
        (∀ other ∈ w.db.keys.select (inScope clientId provider), isDisabled other.2 = false →
          backOff reading (fun _ => none) (ofToday reading row) ≤
            backOff reading (fun _ => none) (ofToday reading other)) ∧
        (ofToday reading row).2.dailyUsage < (ofToday reading row).2.dailyQuota := by
  have hspec :=
    select_meets_spec reading secondsUntilNextMidnight (fun _ => none) w clientId provider
  rw [(select_refused hrefused).1]
  rw [SelectSpec] at hspec
  split at hspec
  · rw [hspec.1] at hrefused
    cases hrefused
  obtain ⟨_, herror, hrefuses⟩ := hspec
  rw [hrefused] at herror
  obtain rfl := Except.error.inj herror
  obtain ⟨_, hset, hleast⟩ := hrefuses.least hcode
  rw [hseconds] at hset
  obtain rfl := Option.some.inj hset
  obtain ⟨⟨first, hfirst, hfirstEnabled, hfirstLeast⟩, hlower⟩ := hleast
  have hbacking := (hrefuses.cooling.mp hcode).2
  have hbacks : ∀ row ∈ w.db.keys.select (inScope clientId provider), isDisabled row.2 = false →
      backsOff row.2 = true :=
        fun row hrow henabled => (isBackingOff_backsOff (hbacking row hrow henabled)).2
  have hpositive : 0 ≤ seconds := by
    have hback := hbacking first hfirst hfirstEnabled
    rw [isBackingOff, Bool.and_eq_true, decide_eq_true_eq] at hback
    rw [← hfirstLeast]
    exact Int.le_of_lt hback.2
  constructor
  · intro hlater
    obtain ⟨id, key, hselected⟩ :=
      hlater ⟨reading.now + seconds * 1000000, reading.today⟩ 0 (Int.le_refl _) rfl
    obtain ⟨row, hrow, _, havailable⟩ := select_ok_available hselected
    obtain ⟨henabled, hover, hbelow⟩ := isAvailable_iff.mp havailable
    have hends := (backOff_noStore_le_iff (hbacks row hrow henabled) (Int.le_refl 0)).mp hover
    have hwaits : backOff reading (fun _ => none) (ofToday reading row) ≤ seconds := by
      refine (backOff_noStore_le_iff (hbacks row hrow henabled) hpositive).mpr fun ends hset => ?_
      have hsoon := hends ends hset
      simp only at hsoon
      rw [Int.add_mul, ← Int.add_assoc]
      simpa using hsoon
    exact ⟨row, hrow, henabled, fun other hother henabled' =>
      Int.le_trans hwaits (hlower ⟨other, hother, henabled', rfl⟩), hbelow⟩
  · rintro ⟨row, hrow, henabled, hwaits, hbelow⟩ later midnight hnow htoday
    have hwaits : backOff reading (fun _ => none) (ofToday reading row) ≤ seconds :=
      hfirstLeast ▸ hwaits first hfirst hfirstEnabled
    have hends := (backOff_noStore_le_iff (hbacks row hrow henabled) hpositive).mp hwaits
    have hover : backOff later (fun _ => none) (ofToday later row) ≤ 0 := by
      refine (backOff_noStore_le_iff (hbacks row hrow henabled) (Int.le_refl 0)).mpr
        fun ends hset => ?_
      have hsoon : ends < reading.now + (seconds * 1000000 + 1000000) := by
        simpa [Int.add_mul] using hends ends hset
      have hlater : reading.now + (seconds * 1000000 + 1000000) ≤ later.now + 1000000 := by
        rw [← Int.add_assoc]
        exact Int.add_le_add_right hnow _
      simpa using Int.lt_of_lt_of_le hsoon hlater
    have hbelow' : (ofToday later row).2.dailyUsage < (ofToday later row).2.dailyQuota := by
      rw [ofToday, htoday]
      exact hbelow
    exact select_isOk hrow (isAvailable_iff.mpr ⟨henabled, hover, hbelow'⟩)

end

/-- One key of a client that is cooling until an instant. -/
def coolingWorld (dailyQuota : Nat) (cooldownUntil : Instant) : World :=
  { db :=
      { keys :=
          Table.empty.insert
            { clientId := some 1
              apiKeyCiphertext := [107]
              dailyQuota
              quotaResetAt := some 0
              status := .cooling
              cooldownUntil := some cooldownUntil } } }

/-- Half a second before the end of its back-off a key is returned. -/
theorem last_second_selected :
    ∃ row key, (coolingWorld 1 500000).key? 1 = some row ∧
      IsHeldBack ⟨0, 0⟩ (fun _ => none) (1, row) ∧
      (select (.ofStore ⟨0, 0⟩ 0 fun _ => none) (coolingWorld 1 500000) (some 1)
        .firecrawl).result = .ok (1, key) :=
  ⟨_, _, rfl, ⟨rfl, .inl ⟨500000, rfl, by decide⟩⟩, rfl⟩

/-- A key cooling for five seconds more, below its quota, is returned after them. -/
theorem cooling_retryAfter_honest :
    ∃ id key, (select (.ofStore ⟨5000000, 0⟩ 0 fun _ => none)
      (select (.ofStore ⟨0, 0⟩ 0 fun _ => none) (coolingWorld 1 5000000) (some 1) .firecrawl).world
        (some 1)
      .firecrawl).result = .ok (id, key) := by
  have hrefused :
      (select (.ofStore ⟨0, 0⟩ 0 fun _ => none) (coolingWorld 1 5000000) (some 1)
       .firecrawl).result =
         .error
           { statusCode := 429
             code := .allKeysCooling
             message := "All keys cooling"
             retryAfter := some 5 } := rfl
  have hkeys :
      ∃ key, (coolingWorld 1 5000000).db.keys.select (inScope (some 1) .firecrawl) = [(1, key)] ∧
        isDisabled key = false ∧ (lazyReset 0 key).dailyUsage < (lazyReset 0 key).dailyQuota :=
    ⟨_, rfl, rfl, Nat.zero_lt_one⟩
  obtain ⟨key, hkeys, henabled, hbelow⟩ := hkeys
  have hhonest := retryAfter_honest_iff hrefused rfl rfl
  rw [hkeys] at hhonest
  refine hhonest.mpr ⟨(1, key), List.mem_singleton_self _, henabled, fun other hother _ => ?_,
    hbelow⟩ ⟨5000000, 0⟩ 0 (Int.le_refl _) rfl
  obtain rfl := List.mem_singleton.mp hother
  exact Int.le_refl _

/-- A key whose quota is used up is tested and cools: after its time it is still refused. -/
theorem exhausted_retryAfter_dishonest :
    let ok : UpstreamResponse := { statusCode := 200, headers := [], content := [], json := none }
    let limited : UpstreamResponse :=
      { statusCode := 429, headers := [("retry-after", "5")], content := [], json := none }
    let used := (forward defaultForwarder (fun _ => .unhindered 0 0 (.response ok))
      { clientId := 1, method := "POST", upstreamPath := "/v2/scrape" } (servedWorld 1)).world
    ∃ key, used.key? 1 = some key ∧
      let tested :=
        (testKey defaultForwarder { outcome := fun _ => .response limited, now := 0 } "" 1 used
         "scrape" [] key).world
      ∃ refused again,
        (select (.ofStore ⟨0, 0⟩ 0 fun _ => none) tested (some 1) .firecrawl).result =
          .error refused ∧ refused.code = .allKeysCooling ∧ refused.retryAfter = some 5 ∧
          (select (.ofStore ⟨5000000, 0⟩ 0 fun _ => none) tested (some 1) .firecrawl).result =
            .error again ∧
          again.code = .allKeysQuotaExceeded :=
  ⟨_, rfl, _, _, rfl, rfl, rfl, rfl, rfl⟩

end Fcam

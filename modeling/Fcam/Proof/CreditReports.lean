import Fcam.Proof.SnapshotPointer

/-!
# What is reported of a key's credits

A key's total is computed in three places, from its plan, its oldest successful snapshot or its
cache; two of them agree in every state. Retention removes old snapshots, and with them what the
total of a free account and the mark of an estimate rest on.
-/

namespace Fcam

attribute [local instance] instantOrder

/-! ### Newest and oldest of what is kept -/

section

variable {α : Type} {f : α → Int} {p : α → Bool}

theorem argmax_filter (hmono : ∀ a b, f a ≤ f b → p a = true → p b = true) (l : List α) :
    (l.filter p).argmax f = (l.argmax f).filter p := by
  induction l using List.reverseRecOn with
  | nil => rfl
  | append_singleton l a ih =>
    rw [List.filter_append, List.argmax_concat]
    by_cases ha : p a = true
    · rw [List.filter_cons_of_pos ha, List.filter_nil, List.argmax_concat, ih]
      cases hl : l.argmax f with
      | none => exact (Option.filter_some_pos ha).symm
      | some c =>
        by_cases hc : p c = true
        · rw [Option.filter_some_pos hc]
          dsimp only
          split
          · exact (Option.filter_some_pos ha).symm
          · exact (Option.filter_some_pos hc).symm
        · have hlt : f c < f a := by
            by_contra hle
            exact hc (hmono a c (Int.not_lt.mp hle) ha)
          rw [Option.filter_some_neg (Bool.eq_false_of_not_eq_true hc)]
          dsimp only
          rw [if_pos hlt, Option.filter_some_pos ha]
    · rw [List.filter_cons_of_neg ha, List.filter_nil, List.append_nil, ih]
      cases hl : l.argmax f with
      | none => exact (Option.filter_some_neg (Bool.eq_false_of_not_eq_true ha)).symm
      | some c =>
        dsimp only
        split
        · next hlt =>
          have hc : ¬p c = true := fun hc => ha (hmono c a (Int.le_of_lt hlt) hc)
          rw [Option.filter_some_neg (Bool.eq_false_of_not_eq_true hc),
            Option.filter_some_neg (Bool.eq_false_of_not_eq_true ha)]
        · rfl

theorem filter_eq_of_argmin {m : α} {l : List α}
    (hmono : ∀ a b, f a ≤ f b → p a = true → p b = true) (hm : m ∈ l.argmin f)
    (hkept : p m = true) : l.filter p = l := by
  rw [List.filter_eq_self]
  intro a ha
  exact hmono m a (List.le_of_mem_argmin ha hm) hkept

end

/-! ### The three totals of a key -/

section

variable {w : World} {id clientId : Nat} {key : ApiKey} {client : Client}

/-- What a key's total is without a plan. -/
def initialCredits (id : Nat) (key : ApiKey) (w : World) : Option Int :=
  ((firstSnapshot id w).map CreditSnapshot.remainingCredits).or key.cachedRemainingCredits

theorem keyItemTotalCredits_eq : keyItemTotalCredits id key w = initialCredits id key w := by
  rw [keyItemTotalCredits, initialCredits]
  cases firstSnapshot id w <;> rfl

theorem getKeyCredits_eq (hkey : w.key? id = some key) :
    ∃ credits, getKeyCredits id w = .ok credits ∧
      credits.remainingCredits = key.cachedRemainingCredits ∧
      credits.totalCredits = (key.cachedPlanCredits.filter (0 < ·)).or (initialCredits id key w) ∧
        credits.isEstimated =
          match key.cachedRemainingCredits, latestSnapshot id key w with
          | some remaining, some snapshot => remaining != snapshot.remainingCredits
          | _, _ => false := by
  rw [getKeyCredits, hkey]
  exact ⟨_, rfl, rfl, rfl, rfl⟩

theorem keyUsage_totalCredits :
    (keyUsage w id key).totalCredits =
      ((key.cachedPlanCredits.filter (0 < ·)).or (initialCredits id key w)).getD 0 := by
  rw [keyUsage, initialCredits]
  dsimp only
  cases hplan : key.cachedPlanCredits with
  | none =>
    rw [Option.getD_none, if_neg (Int.lt_irrefl 0), Option.filter_none, Option.none_or]
    cases firstSnapshot id w <;> rfl
  | some plan =>
    rw [Option.getD_some]
    split
    · next hpos =>
        rw [Option.filter_some, if_pos (decide_eq_true hpos), Option.some_or, Option.getD_some]
    · next hpos =>
      rw [Option.filter_some, if_neg (by rwa [decide_eq_true_eq]), Option.none_or]
      cases firstSnapshot id w <;> rfl

/-- A key's entry in what is reported of its client. -/
theorem keyUsage_mem_aggregate (hkey : w.key? id = some key)
    (hclient : w.db.clients.get? clientId = some client) (howner : key.clientId = some clientId)
    (hactive : key.isActive = true) :
    ∃ usage, aggregateClientCredits clientId w = .ok usage ∧ keyUsage w id key ∈ usage.keys := by
  have hmem :
      (id, key) ∈ w.db.keys.select fun key => key.clientId == some clientId && key.isActive := by
    rw [Table.mem_select]
    exact ⟨hkey, by rw [howner, hactive, beq_self_eq_true, Bool.and_self]⟩
  rw [aggregateClientCredits, hclient]
  exact ⟨_, rfl, List.mem_map_of_mem hmem⟩

/-- The three places that compute the total of a key of a client find the same. -/
def TotalsAgree (clientId id : Nat) (key : ApiKey) (w : World) : Prop :=
  ∃ credits usage, getKeyCredits id w = .ok credits ∧ aggregateClientCredits clientId w =
    .ok usage ∧ keyItemTotalCredits id key w = credits.totalCredits ∧
      ∃ entry ∈ usage.keys, entry.apiKeyId = id ∧ credits.totalCredits = some entry.totalCredits

/-- For a key whose credits are initialised they do exactly where it has no plan, or a plan of as
many credits as its oldest successful snapshot or, without one, its cache shows. -/
theorem key_totals_agree_iff (hkey : w.key? id = some key)
    (hclient : w.db.clients.get? clientId = some client) (howner : key.clientId = some clientId)
    (hactive : key.isActive = true) (hcached : key.cachedRemainingCredits.isSome = true) :
    TotalsAgree clientId id key w ↔
      ∀ plan ∈ key.cachedPlanCredits, 0 < plan → initialCredits id key w = some plan := by
  obtain ⟨credits, hcredits, -, htotal, -⟩ := getKeyCredits_eq hkey
  obtain ⟨usage, husage, hmem⟩ := keyUsage_mem_aggregate hkey hclient howner hactive
  have hknown :
      ((key.cachedPlanCredits.filter (0 < ·)).or (initialCredits id key w)).isSome = true := by
    rw [initialCredits, Option.isSome_or, Option.isSome_or, hcached, Bool.or_true, Bool.or_true]
  have hagree : TotalsAgree clientId id key w ↔ initialCredits id key w = credits.totalCredits := by
    constructor
    · rintro ⟨credits', usage', hcredits', -, hitem, -⟩
      obtain rfl := Except.ok.inj (hcredits.symm.trans hcredits')
      rw [← keyItemTotalCredits_eq, hitem]
    · intro hitem
      refine ⟨credits, usage, hcredits, husage, keyItemTotalCredits_eq.trans hitem,
        keyUsage w id key, hmem, rfl, ?_⟩
      obtain ⟨total, hsome⟩ := Option.isSome_iff_exists.mp hknown
      rw [keyUsage_totalCredits, htotal, hsome, Option.getD_some]
  rw [hagree, htotal]
  cases hplan : key.cachedPlanCredits with
  | none => simp
  | some plan =>
    by_cases hpos : 0 < plan
    · simp [hpos, Option.filter_some]
    · simp [hpos, Option.filter_some]

end

/-- A key of a client, fetched once, with a plan of some size. -/
def fetchedOnce (plan : Int) : World :=
  { db :=
      { clients := Table.empty.insert {}
        keys := Table.empty.insert
          { clientId := some 1, cachedRemainingCredits := some 300, cachedPlanCredits := some plan,
            lastCreditSnapshotId := some 1 }
        creditSnapshots := Table.empty.insert
          { apiKeyId := 1, remainingCredits := 300, planCredits := plan, snapshotAt := 0,
            fetchSuccess := true } } }

def fetchedKey (plan : Int) : ApiKey :=
  { clientId := some 1
    cachedRemainingCredits := some 300
    cachedPlanCredits := some plan
    lastCreditSnapshotId := some 1 }

theorem free_key_totals_agree : TotalsAgree 1 1 (fetchedKey 0) (fetchedOnce 0) :=
  (key_totals_agree_iff (by rfl) (by rfl) (by rfl) (by rfl) (by rfl)).mpr (by decide)

/-- Of a plan of 1000 credits the key list shows 300. -/
theorem paid_key_totals_differ :
    keyItemTotalCredits 1 (fetchedKey 1000) (fetchedOnce 1000) = some 300 ∧
      (getKeyCredits 1 (fetchedOnce 1000)).toOption.bind KeyCredits.totalCredits = some 1000 := by
  decide

/-! ### Retention -/

section

variable {config : AppConfig} {now : Instant} {w : World} {id : Nat} {key : ApiKey}

/-- The snapshot stays. -/
def isKept (config : AppConfig) (now : Instant) (snapshot : CreditSnapshot) : Bool :=
  !expired config now snapshot

theorem isKept_mono (first second : CreditSnapshot) (hle : first.snapshotAt ≤ second.snapshotAt)
    (hkept : isKept config now first = true) : isKept config now second = true := by
  rw [isKept, expired] at hkept ⊢
  cases hcutoff : plusSeconds now (-(config.creditMonitoring.retentionDays * 86400)) with
  | none => rw [Bool.and_false, Bool.not_false]
  | some cutoff =>
    rw [hcutoff] at hkept
    simp only [Bool.not_and, Bool.or_eq_true, Bool.not_eq_true', decide_eq_false_iff_not,
      Int.not_lt] at hkept ⊢
    exact hkept.imp_right (le_trans · hle)

theorem snapshotsOf_cleanup (p : CreditSnapshot → Bool) :
    snapshotsOf id p (cleanupOldSnapshots config now w) =
      (snapshotsOf id p w).filter (isKept config now) := by
  have hselect :
      ∀ q : CreditSnapshot → Bool, (cleanupOldSnapshots config now w).db.creditSnapshots.select q =
        (w.db.creditSnapshots.deleteWhere fun _ snapshot => expired config now snapshot).select
          q := by
    intro q
    apply Table.select_eq
    intro other row _
    rw [cleanupOldSnapshots_snapshots]
  rw [snapshotsOf, snapshotsOf, hselect, Table.select_deleteWhere, List.filter_map]
  rfl

theorem newest_cleanup (p : CreditSnapshot → Bool) :
    (snapshotsOf id p (cleanupOldSnapshots config now w)).argmax CreditSnapshot.snapshotAt =
      ((snapshotsOf id p w).argmax CreditSnapshot.snapshotAt).filter (isKept config now) := by
  rw [snapshotsOf_cleanup, argmax_filter isKept_mono]

theorem firstSnapshot_cleanup (hkept :
    ∀ first ∈ firstSnapshot id w, isKept config now first = true) :
    firstSnapshot id (cleanupOldSnapshots config now w) = firstSnapshot id w := by
  rw [firstSnapshot, snapshotsOf_cleanup]
  cases hfirst : firstSnapshot id w with
  | none =>
    rw [firstSnapshot, List.argmin_eq_none] at hfirst
    rw [hfirst]
    rfl
  | some first =>
    rw [filter_eq_of_argmin isKept_mono hfirst (hkept first hfirst)]
    exact hfirst

theorem pointed_cleanup (p : Nat) :
    (cleanupOldSnapshots config now w).db.creditSnapshots.get? p =
      (w.db.creditSnapshots.get? p).filter (isKept config now) := by
  rw [cleanupOldSnapshots_snapshots, Table.get?_deleteWhere]
  rfl

/-- The numbers reported of a key. -/
def keyReport (id : Nat) (w : World) : Except String (Option Int × Option Int × Bool) :=
  (getKeyCredits id w).map fun credits =>
    (credits.remainingCredits, credits.totalCredits, credits.isEstimated)

/-- The newest snapshot of a key. -/
def newestSnapshot (id : Nat) (w : World) : Option CreditSnapshot :=
  (snapshotsOf id (fun _ => true) w).argmax CreditSnapshot.snapshotAt

/-- What a clean-up needs to leave a key's numbers: without a plan, where the oldest successful
snapshot goes, the oldest one kept, or else the cache, has the same credits; and where the snapshot
shown as the latest goes, the newest one, if it is kept, differs from the cache exactly if that one
did, and if it is not, that one did not. -/
structure RetentionSpares (config : AppConfig) (now : Instant) (id : Nat) (key : ApiKey)
    (w : World) : Prop where
  total : key.cachedPlanCredits.getD 0 ≤ 0 →
    ∀ first ∈ firstSnapshot id w, isKept config now first = false →
      ((((snapshotsOf id CreditSnapshot.fetchSuccess w).filter (isKept config now)).argmin
        CreditSnapshot.snapshotAt).map CreditSnapshot.remainingCredits).or
          key.cachedRemainingCredits =
      some first.remainingCredits
  estimate : ∀ remaining ∈ key.cachedRemainingCredits, ∀ shown ∈ latestSnapshot id key w,
    isKept config now shown = false →
      (remaining = shown.remainingCredits ↔
        ∀ newest ∈ newestSnapshot id w, isKept config now newest = true →
          remaining = newest.remainingCredits)

theorem initialCredits_cleanup_iff :
    initialCredits id key (cleanupOldSnapshots config now w) = initialCredits id key w ↔
      ∀ first ∈ firstSnapshot id w, isKept config now first = false →
        ((((snapshotsOf id CreditSnapshot.fetchSuccess w).filter (isKept config now)).argmin
            CreditSnapshot.snapshotAt).map CreditSnapshot.remainingCredits).or
              key.cachedRemainingCredits =
          some first.remainingCredits := by
  by_cases hkept : ∀ first ∈ firstSnapshot id w, isKept config now first = true
  · apply iff_of_true
    · rw [initialCredits, initialCredits, firstSnapshot_cleanup hkept]
    · intro first hfirst hgone
      rw [hkept first hfirst] at hgone
      cases hgone
  · push Not at hkept
    obtain ⟨first, hfirst, hgone⟩ := hkept
    rw [Option.mem_def] at hfirst
    rw [initialCredits, initialCredits, firstSnapshot, snapshotsOf_cleanup, hfirst, Option.map_some,
      Option.some_or]
    constructor
    · rintro hsame other hother -
      obtain rfl := Option.some.inj hother
      exact hsame
    · intro h
      exact h first rfl (Bool.eq_false_of_not_eq_true hgone)

theorem latestSnapshot_cleanup :
    latestSnapshot id key (cleanupOldSnapshots config now w) =
      (((key.lastCreditSnapshotId.filter (· ≠ 0)).bind w.db.creditSnapshots.get?).filter
        (isKept config now)).or
        ((newestSnapshot id w).filter (isKept config now)) := by
  rw [latestSnapshot, newestSnapshot, newest_cleanup]
  congr 1
  cases key.lastCreditSnapshotId.filter (· ≠ 0) with
  | none => rfl
  | some p => exact pointed_cleanup p

theorem latestSnapshot_kept {shown : CreditSnapshot} (hshown : latestSnapshot id key w = some shown)
    (hkept : isKept config now shown = true) :
    latestSnapshot id key (cleanupOldSnapshots config now w) = some shown := by
  rw [latestSnapshot_cleanup]
  rcases Option.or_eq_some_iff.mp hshown with hpointed | ⟨hpointed, hnewest⟩
  · rw [hpointed, Option.filter_some_pos hkept, Option.some_or]
  · rw [hpointed, Option.filter_none, Option.none_or, newestSnapshot, hnewest,
      Option.filter_some_pos hkept]

theorem latestSnapshot_gone {shown : CreditSnapshot} (hshown : latestSnapshot id key w = some shown)
    (hgone : isKept config now shown = false) :
    latestSnapshot id key (cleanupOldSnapshots config now w) = (newestSnapshot id w).filter
      (isKept config now) := by
  rw [latestSnapshot_cleanup]
  rcases Option.or_eq_some_iff.mp hshown with hpointed | ⟨hpointed, -⟩
  · rw [hpointed, Option.filter_some_neg hgone, Option.none_or]
  · rw [hpointed, Option.filter_none, Option.none_or]

theorem latestSnapshot_none (hshown : latestSnapshot id key w = none) :
    latestSnapshot id key (cleanupOldSnapshots config now w) = none := by
  rw [latestSnapshot_cleanup]
  obtain ⟨hpointed, hnewest⟩ := Option.or_eq_none_iff.mp hshown
  rw [hpointed, newestSnapshot, hnewest, Option.filter_none, Option.none_or]

theorem estimate_cleanup_iff :
    ((match key.cachedRemainingCredits, latestSnapshot id key
      (cleanupOldSnapshots config now w) with
        | some remaining, some snapshot => remaining != snapshot.remainingCredits
        | _, _ => false) =
      (match key.cachedRemainingCredits, latestSnapshot id key w with
        | some remaining, some snapshot => remaining != snapshot.remainingCredits
        | _, _ => false)) ↔
      ∀ remaining ∈ key.cachedRemainingCredits, ∀ shown ∈ latestSnapshot id key w,
        isKept config now shown = false →
        (remaining = shown.remainingCredits ↔
          ∀ newest ∈ newestSnapshot id w, isKept config now newest = true →
            remaining = newest.remainingCredits) := by
  cases key.cachedRemainingCredits with
  | none => simp
  | some remaining =>
    cases hshown : latestSnapshot id key w with
    | none => simp [latestSnapshot_none hshown]
    | some shown =>
      cases hkept : isKept config now shown with
      | true => simp [latestSnapshot_kept hshown hkept, hkept]
      | false =>
        rw [latestSnapshot_gone hshown hkept]
        cases hnewest : newestSnapshot id w with
        | none => simp [hkept]
        | some newest =>
          cases hnew : isKept config now newest with
          | true =>
            simp only [hnew, Option.filter_some, if_true, Option.mem_def, Option.some.injEq,
              forall_eq', hkept, true_imp_iff]
            rw [Bool.eq_iff_iff, bne_iff_ne, bne_iff_ne, not_iff_not]
            exact iff_comm
          | false => simp [hkept, hnew, Option.filter_some]

theorem keyReport_cleanup_iff (hkey : w.key? id = some key) :
    keyReport id (cleanupOldSnapshots config now w) = keyReport id w ↔
      RetentionSpares config now id key w := by
  have hkey' : (cleanupOldSnapshots config now w).key? id = some key := by
    rw [key?_cleanupOldSnapshots, hkey]
  obtain ⟨credits, hcredits, hremaining, htotal, hestimate⟩ := getKeyCredits_eq hkey
  obtain ⟨credits', hcredits', hremaining', htotal', hestimate'⟩ := getKeyCredits_eq hkey'
  have hreport : keyReport id (cleanupOldSnapshots config now w) = keyReport id w ↔
      credits'.totalCredits = credits.totalCredits ∧
        credits'.isEstimated = credits.isEstimated := by
    rw [keyReport, keyReport, hcredits, hcredits', Except.map, Except.map, hremaining, hremaining']
    simp
  have htotals : credits'.totalCredits = credits.totalCredits ↔
      (key.cachedPlanCredits.getD 0 ≤ 0 →
        initialCredits id key (cleanupOldSnapshots config now w) = initialCredits id key w) := by
    rw [htotal, htotal']
    cases hplan : key.cachedPlanCredits with
    | none => simp
    | some plan =>
      by_cases hpos : 0 < plan
      · simp [hpos, Option.filter_some]
      · simp [hpos, Option.filter_some, Int.not_lt.mp hpos]
  rw [hreport, htotals, hestimate, hestimate', estimate_cleanup_iff, initialCredits_cleanup_iff]
  constructor
  · rintro ⟨hspared, hsame⟩
    exact ⟨hspared, hsame⟩
  · rintro ⟨hspared, hsame⟩
    exact ⟨hspared, hsame⟩

theorem keyUsage_cleanup (hkey : w.key? id = some key)
    (hreport : keyReport id (cleanupOldSnapshots config now w) = keyReport id w) :
    keyUsage (cleanupOldSnapshots config now w) id key = keyUsage w id key := by
  have hkey' : (cleanupOldSnapshots config now w).key? id = some key := by
    rw [key?_cleanupOldSnapshots, hkey]
  obtain ⟨credits, hcredits, -, htotal, -⟩ := getKeyCredits_eq hkey
  obtain ⟨credits', hcredits', -, htotal', -⟩ := getKeyCredits_eq hkey'
  have hsame : credits'.totalCredits = credits.totalCredits := by
    rw [keyReport, keyReport, hcredits, hcredits', Except.map, Except.map, Except.ok.injEq,
      Prod.mk.injEq, Prod.mk.injEq] at hreport
    exact hreport.2.1
  have htotals : (keyUsage (cleanupOldSnapshots config now w) id key).totalCredits =
      (keyUsage w id key).totalCredits := by
    rw [keyUsage_totalCredits, keyUsage_totalCredits, ← htotal, ← htotal', hsame]
  have hrest : ∀ w : World, keyUsage w id key =
      { apiKeyId := id
        name := key.name
        remainingCredits := key.cachedRemainingCredits.getD 0
        planCredits := key.cachedPlanCredits.getD 0
        totalCredits := (keyUsage w id key).totalCredits
        usagePercentage :=
          usagePercentage (keyUsage w id key).totalCredits (key.cachedRemainingCredits.getD 0)
        lastUpdatedAt := key.lastCreditCheckAt } := fun _ => rfl
  rw [hrest, hrest w, htotals]

/-- What is reported of a client follows from what is reported of its keys. -/
theorem aggregate_cleanup (hkeys :
    ∀ id, keyReport id (cleanupOldSnapshots config now w) = keyReport id w) (clientId : Nat) :
    aggregateClientCredits clientId (cleanupOldSnapshots config now w) =
      aggregateClientCredits clientId w := by
  have hclients : (cleanupOldSnapshots config now w).db.clients = w.db.clients := by
    rw [cleanupOldSnapshots]
    split
    · rfl
    · split <;> rfl
  have hrows : (cleanupOldSnapshots config now w).db.keys = w.db.keys := by
    rw [cleanupOldSnapshots]
    split
    · rfl
    · split <;> rfl
  have hdetails :
      ∀ p, (w.db.keys.select p).map (fun row =>
        keyUsage (cleanupOldSnapshots config now w) row.1 row.2) =
          (w.db.keys.select p).map fun row => keyUsage w row.1 row.2 := by
    intro p
    apply List.map_congr_left
    intro row hrow
    exact keyUsage_cleanup (Table.mem_select.mp hrow).1 (hkeys row.1)
  simp only [aggregateClientCredits, hclients, hrows, hdetails]

/-- A clean-up leaves all numbers that are reported exactly where it spares those of every key. -/
theorem retention_keeps_reports_iff :
    ((∀ id, keyReport id (cleanupOldSnapshots config now w) = keyReport id w) ∧
        ∀ clientId,
          aggregateClientCredits clientId (cleanupOldSnapshots config now w) =
            aggregateClientCredits clientId w) ↔
      ∀ id key, w.key? id = some key → RetentionSpares config now id key w := by
  constructor
  · rintro ⟨hkeys, -⟩ id key hkey
    exact (keyReport_cleanup_iff hkey).mp (hkeys id)
  · intro hspares
    have hkeys : ∀ id, keyReport id (cleanupOldSnapshots config now w) = keyReport id w := by
      intro id
      cases hkey : w.key? id with
      | none => 
        have hkey' : (cleanupOldSnapshots config now w).key? id = none := by
          rw [key?_cleanupOldSnapshots, hkey]
        simp only [keyReport, getKeyCredits, hkey, hkey']
      | some key => exact (keyReport_cleanup_iff hkey).mpr (hspares id key hkey)
    exact ⟨hkeys, aggregate_cleanup hkeys⟩

end

/-- A free account that was given 1000 credits, fetched again after ninety days with 300 left. -/
def fetchedTwice : World :=
  { db :=
      { keys := Table.empty.insert
          { cachedRemainingCredits := some 300, cachedPlanCredits := some 0,
            lastCreditSnapshotId := some 2 }
        creditSnapshots := (Table.empty.insert
          { apiKeyId := 1, remainingCredits := 1000, planCredits := 0, snapshotAt := 0,
            fetchSuccess := true }).insert
          { apiKeyId := 1, remainingCredits := 300, planCredits := 0, snapshotAt := 90 * dayLength,
            fetchSuccess := true } } }

/-- A day later retention has made its total 300. -/
theorem initial_credits_forgotten :
    keyReport 1 fetchedTwice = .ok (some 300, some 1000, false) ∧
      keyReport 1 (cleanupOldSnapshots {} (91 * dayLength) fetchedTwice) =
        .ok (some 300, some 300, false) := by
  exact ⟨rfl, rfl⟩

end Fcam

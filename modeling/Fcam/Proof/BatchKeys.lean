import Fcam.Model.BatchKeys
import Fcam.Proof.AuditAtomic

/-!
# Batches against single changes

A batch of one id edits its key as the handlers of one key do. In a longer one every id whose edit
is committed writes the row of its key, and the others leave no trace but their entries.
-/

namespace Fcam

/-! ### One id -/

/-- Fields of a key to be changed, none of them to nothing. -/
structure KeyPatch where
  name : Option String := none
  planType : Option String := none
  dailyQuota : Option Nat := none
  maxConcurrent : Option Nat := none
  rateLimitPerMin : Option Nat := none
  isActive : Option Bool := none

/-- The patch of a batch. -/
def KeyPatch.batch (patch : KeyPatch) : BatchKeyPatch :=
  { name := patch.name.map some
    planType := patch.planType
    dailyQuota := patch.dailyQuota
    maxConcurrent := patch.maxConcurrent
    rateLimitPerMin := patch.rateLimitPerMin
    isActive := patch.isActive }

/-- The payload of `update_key`. -/
def KeyPatch.update (patch : KeyPatch) : UpdateKeyRequest :=
  { name := patch.name
    planType := patch.planType
    dailyQuota := patch.dailyQuota
    maxConcurrent := patch.maxConcurrent
    rateLimitPerMin := patch.rateLimitPerMin
    isActive := patch.isActive }

section

variable {req : BatchKeysRequest} {item : BatchItem} {w : World}

theorem batchRow_eq_updateRow (patch : KeyPatch) (hpatch : req.patch = some patch.batch)
    (hreset : req.resetCooldown = false) (hsoft : req.softDelete = false) (key : ApiKey) :
    batchRow req key = updateRow none patch.update key := by
  obtain ⟨name, planType, dailyQuota, maxConcurrent, rateLimitPerMin, isActive⟩ := patch
  rw [batchRow, hpatch, hreset, hsoft, updateRow]
  cases name <;> rfl

theorem batchRow_eq_disableKey (hpatch : req.patch = none) (hreset : req.resetCooldown = false)
    (hsoft : req.softDelete = true) :
    batchRow req = disableKey := by
  funext key
  rw [batchRow, hpatch, hreset, hsoft]
  rfl

/-! ### What an edit does -/

/-- The edit of the id is committed, or there is none to commit. -/
def BatchItem.commits (req : BatchKeysRequest) (w : World) (item : BatchItem) : Bool :=
  !item.faults.query && (w.key? item.id).isSome && !(req.changes && item.faults.commit)

theorem editItem_world :
    (editItem req item w).2 = if item.commits req w then w.modifyKey item.id (batchRow req)
      else w := by
  rw [editItem, BatchItem.commits]
  cases item.faults.query with
  | true => rfl
  | false =>
    cases w.key? item.id with
    | none => rfl
    | some key =>
      cases hchanges : req.changes with
      | false => exact (modifyKey_of_id (batchRow_of_not_changes hchanges) item.id w).symm
      | true =>
        cases item.faults.commit with
        | true => rfl
        | false => cases item.faults.refresh <;> rfl

theorem editItem_failed (hcommits : item.commits req w = false) :
    (editItem req item w).1.ok = false := by
  rw [editItem]
  rw [BatchItem.commits] at hcommits
  cases hquery : item.faults.query with
  | true => rfl
  | false =>
    cases hkey : w.key? item.id with
    | none => rfl
    | some key =>
      rw [hquery, hkey, Option.isSome_some, Bool.not_false, Bool.true_and, Bool.true_and,
        Bool.not_eq_false', Bool.and_eq_true] at hcommits
      simp only [hcommits.1, hcommits.2]
      rfl

theorem editItem_id : (editItem req item w).1.id = item.id := by
  rw [editItem]
  split
  · rfl
  split
  · rfl
  split
  · rfl
  split
  · rfl
  · dsimp only
    split <;> rfl

theorem commits_editItem (other : BatchItem) :
    other.commits req (editItem req item w).2 = other.commits req w := by
  rw [editItem_world]
  split
  · rw [BatchItem.commits, BatchItem.commits, World.key?_modifyKey]
    split
    · rw [Option.isSome_map]
    · rfl
  · rfl

end

/-! ### The loop -/

section

variable {req : BatchKeysRequest}

/-- Every entry is of the id of its item. -/
def OfIds (entries : List (BatchItem × BatchEntry)) (items : List BatchItem) : Prop :=
  entries.map Prod.fst = items ∧ ∀ pair ∈ entries, pair.2.id = pair.1.id

theorem OfIds.ids {entries : List (BatchItem × BatchEntry)} {items : List BatchItem}
    (h : OfIds entries items) :
    (entries.map Prod.snd).map BatchEntry.id = items.map BatchItem.id := by
  rw [← h.1, List.map_map, List.map_map]
  exact List.map_congr_left h.2

theorem OfIds.cons {entries : List (BatchItem × BatchEntry)} {items : List BatchItem}
    {item : BatchItem} {entry : BatchEntry} (h : OfIds entries items) (hid : entry.id = item.id) :
    OfIds ((item, entry) :: entries) (item :: items) := by
  refine ⟨by rw [List.map_cons, h.1], fun pair hmem => ?_⟩
  rcases List.mem_cons.mp hmem with rfl | hmem
  · exact hid
  · exact h.2 pair hmem

theorem editItems_ids (items : List BatchItem) (w : World) :
    OfIds (editItems req items w).1 items := by
  induction items generalizing w with
  | nil => exact ⟨rfl, fun _ hmem => absurd hmem List.not_mem_nil⟩
  | cons item rest ih => exact (ih _).cons editItem_id

/-- The items that are not kept have failed. -/
def OthersFailed (keep : BatchItem → Bool) (entries : List (BatchItem × BatchEntry)) : Prop :=
  ∀ pair ∈ entries, keep pair.1 = false → pair.2.ok = false

/-- The entries of the items that are kept. -/
def keptEntries (keep : BatchItem → Bool) (entries : List (BatchItem × BatchEntry)) :
    List (BatchItem × BatchEntry) :=
  entries.filter fun pair => keep pair.1

/-- The edits of the ids that are committed, one after the other. -/
def committedEdits (req : BatchKeysRequest) (items : List BatchItem) (w : World) : World :=
  items.foldl (fun w item => w.modifyKey item.id (batchRow req)) w

theorem editItems_committed (items : List BatchItem) (start w : World)
    (hsame : ∀ item : BatchItem, item.commits req w = item.commits req start) :
    let kept := items.filter fun item => item.commits req start
    (editItems req items w).2 = committedEdits req kept w ∧
      (editItems req items w).2 = (editItems req kept w).2 ∧
        keptEntries (fun item => item.commits req start) (editItems req items w).1 =
          (editItems req kept w).1 ∧
      OthersFailed (fun item => item.commits req start) (editItems req items w).1 := by
  induction items generalizing w with
  | nil => exact ⟨rfl, rfl, rfl, fun _ hmem => absurd hmem List.not_mem_nil⟩
  | cons item rest ih =>
    obtain ⟨hedits, hworld, hentries, hfailed⟩ := ih (editItem req item w).2 fun other =>
      (commits_editItem other).trans (hsame other)
    have hothers : item.commits req start = false → (editItem req item w).1.ok = false :=
      fun hcommits =>
      editItem_failed ((hsame item).trans hcommits)
    have hall :
        OthersFailed (fun item => item.commits req start) (editItems req (item :: rest) w).1 := by
      intro pair hmem
      rcases List.mem_cons.mp hmem with rfl | hmem
      · exact hothers
      · exact hfailed pair hmem
    cases hcommits : item.commits req start with
    | true =>
      have hitem : (editItem req item w).2 = w.modifyKey item.id (batchRow req) := by
        rw [editItem_world, hsame, hcommits, if_pos rfl]
      simp only [List.filter_cons, hcommits, if_true]
      refine ⟨?_, hworld, ?_, hall⟩
      · rw [committedEdits, List.foldl_cons, ← hitem]
        exact hedits
      · simp only [editItems, keptEntries, List.filter_cons, hcommits, if_true]
        rw [← hentries]
        rfl
    | false =>
      have hitem : (editItem req item w).2 = w := by
        rw [editItem_world, hsame, hcommits]
        exact if_neg Bool.false_ne_true
      rw [hitem] at hedits hworld hentries
      simp only [List.filter_cons, hcommits, Bool.false_eq_true, if_false]
      refine ⟨?_, ?_, ?_, hall⟩
      · simp only [editItems, hitem]
        exact hedits
      · simp only [editItems, hitem]
        exact hworld
      · simp only [editItems, keptEntries, List.filter_cons, hcommits, Bool.false_eq_true, if_false,
          hitem]
        exact hentries

end

/-! ### The tests -/

section

variable {fwd : Forwarder} {requestId mode : String} {testUrl : PyStr} {item : BatchItem}
  {entry : BatchEntry} {w : World}

theorem testItem_of_failed (hfailed : entry.ok = false) :
    testItem fwd requestId mode testUrl item entry w = (entry, w) := by
  rw [BatchEntry.ok] at hfailed
  rw [testItem]
  cases hresult : entry.result with
  | error error => rfl
  | ok key =>
    rw [hresult] at hfailed
    cases hfailed

theorem testItem_id (hid : entry.id = item.id) :
    (testItem fwd requestId mode testUrl item entry w).1.id = item.id := by
  rw [testItem]
  split
  · exact hid
  split
  · rfl
  dsimp only
  split
  · rfl
  · rfl
  split <;> rfl

theorem testItems_ids {items : List BatchItem} {entries : List (BatchItem × BatchEntry)}
    (hids : OfIds entries items) :
    OfIds (testItems fwd requestId mode testUrl entries w).1 items := by
  induction entries generalizing items w with
  | nil => exact hids
  | cons pair rest ih =>
    obtain ⟨hitems, hentries⟩ := hids
    subst hitems
    exact OfIds.cons (ih ⟨rfl, fun other hother => hentries other (List.mem_cons_of_mem _ hother)⟩)
      (testItem_id (hentries pair List.mem_cons_self))

/-- An id whose edit failed leaves no trace in the tests. -/
theorem testItems_kept {keep : BatchItem → Bool} {entries : List (BatchItem × BatchEntry)}
    (hfailed : OthersFailed keep entries) :
    (testItems fwd requestId mode testUrl entries w).2 =
        (testItems fwd requestId mode testUrl (keptEntries keep entries) w).2 ∧
      keptEntries keep (testItems fwd requestId mode testUrl entries w).1 =
        (testItems fwd requestId mode testUrl (keptEntries keep entries) w).1 ∧
      OthersFailed keep (testItems fwd requestId mode testUrl entries w).1 := by
  induction entries generalizing w with
  | nil => exact ⟨rfl, rfl, hfailed⟩
  | cons pair rest ih =>
    obtain ⟨item, entry⟩ := pair
    have hrest : OthersFailed keep rest :=
      fun other hother => hfailed other (List.mem_cons_of_mem _ hother)
    obtain ⟨hworld, hkept, hothers⟩ :=
      @ih (testItem fwd requestId mode testUrl item entry w).2 hrest
    cases hkeep : keep item with
    | true =>
      simp only [testItems, keptEntries, List.filter_cons, hkeep, if_true]
      refine ⟨hworld, congrArg _ hkept, fun other hmem hother => ?_⟩
      rcases List.mem_cons.mp hmem with rfl | hmem
      · exact absurd (hkeep.symm.trans hother) (by decide)
      · exact hothers other hmem hother
    | false =>
      have hentry : entry.ok = false := hfailed (item, entry) List.mem_cons_self hkeep
      have htested := @testItem_of_failed fwd requestId mode testUrl item entry w hentry
      rw [htested] at hworld hkept hothers
      simp only [testItems, keptEntries, List.filter_cons, hkeep, Bool.false_eq_true, if_false,
        htested]
      refine ⟨hworld, hkept, fun other hmem hother => ?_⟩
      rcases List.mem_cons.mp hmem with rfl | hmem
      · exact hentry
      · exact hothers other hmem hother

end

/-! ### Whole batches -/

/-- The state the tests of a batch leave, if it has any. -/
def testedWorld (fwd : Forwarder) (requestId : String) (req : BatchKeysRequest)
    (entries : List (BatchItem × BatchEntry)) (w : World) : World :=
  match req.test with
  | none => w
  | some (mode, testUrl) => (testItems fwd requestId mode testUrl entries w).2

/-- What a batch that is answered does: it has an entry for every id, edits and tests the keys of
the ids whose edits are committed, and goes on as if the others, which fail, were absent. -/
structure BatchDone (fwd : Forwarder) (requestId : String) (req : BatchKeysRequest)
    (items : List BatchItem) (w : World) (report : BatchReport) (after : World) : Prop where
  ids : report.results.map BatchEntry.id = items.map BatchItem.id
  requested : report.requested = items.length
  total : report.succeeded + report.failed = report.requested
  edited : after = testedWorld fwd requestId req
    (editItems req (items.filter fun item => item.commits req w) w).1
      (committedEdits req (items.filter fun item => item.commits req w) w)
  failed : ∀ pair ∈ items.zip report.results, pair.1.commits req w = false → pair.2.ok = false
  absent : ∃ reduced, batchKeysReport fwd requestId req (items.filter fun item =>
    item.commits req w) w = (.ok reduced, after) ∧
      reduced.results = ((items.zip report.results).filter fun pair => pair.1.commits req w).map
        Prod.snd

section

variable {fwd : Forwarder} {requestId : String} {req : BatchKeysRequest} {items : List BatchItem}
  {w after : World} {report : BatchReport}

theorem batchReport_total (entries : List (BatchItem × BatchEntry)) :
    (batchReport entries).succeeded + (batchReport entries).failed =
      (batchReport entries).requested := by
  have hle := List.length_filter_le BatchEntry.ok (entries.map Prod.snd)
  simp only [batchReport, List.length_map] at hle ⊢
  omega

theorem mixedProviders_of_subset {ids more : List Nat} (hsubset : ∀ id ∈ ids, id ∈ more)
    (hmixed : mixedProviders ids w = true) :
    mixedProviders more w = true := by
  simp only [mixedProviders, Bool.and_eq_true, List.contains_iff_mem, List.mem_map,
    List.mem_filter] at hmixed ⊢
  obtain ⟨⟨first, ⟨hfirst, hfirstId⟩, hfirecrawl⟩, second, ⟨hsecond, hsecondId⟩, hexa⟩ := hmixed
  exact ⟨⟨first, ⟨hfirst, hsubset _ hfirstId⟩, hfirecrawl⟩, second, ⟨hsecond, hsubset _ hsecondId⟩,
    hexa⟩

/-- What a batch does once its entries are known, with those of the ids whose edits are
committed. -/
theorem batchDone_of_entries {entries kept : List (BatchItem × BatchEntry)}
    (hids : OfIds entries items)
    (hkept : keptEntries (fun item => item.commits req w) entries = kept)
    (hfailed : OthersFailed (fun item => item.commits req w) entries)
    (hedited : after = testedWorld fwd requestId req
      (editItems req (items.filter fun item => item.commits req w) w).1
      (committedEdits req (items.filter fun item => item.commits req w) w))
    (habsent : batchKeysReport fwd requestId req (items.filter fun item => item.commits req w) w =
      (.ok (batchReport kept), after)) :
    BatchDone fwd requestId req items w (batchReport entries) after := by
  have hzip : items.zip (batchReport entries).results = entries :=
    (List.zip_of_prod hids.1 rfl).symm
  refine ⟨hids.ids, ?_, batchReport_total entries, hedited, ?_, batchReport kept, habsent, ?_⟩
  · rw [← hids.1, List.length_map]
    rfl
  · rw [hzip]
    exact hfailed
  · rw [hzip, ← hkept]
    rfl

theorem batchKeysReport_untested (htest : req.test = none) (items : List BatchItem) :
    batchKeysReport fwd requestId req items w =
      (.ok (batchReport (editItems req items w).1), (editItems req items w).2) := by
  rw [batchKeysReport, htest]

theorem batchKeysReport_tested {mode : String} {testUrl : PyStr}
    (htest : req.test = some (mode, testUrl)) (hmode : mode = "scrape")
    (hmixed : (decide (1 < items.length) && mixedProviders (items.map BatchItem.id) w) = false) :
    batchKeysReport fwd requestId req items w =
      (.ok (batchReport
        (testItems fwd requestId mode testUrl (editItems req items w).1
          (editItems req items w).2).1),
        (testItems fwd requestId mode testUrl (editItems req items w).1
          (editItems req items w).2).2) := by
  rw [batchKeysReport, htest]
  simp only [hmode, ne_eq, not_true_eq_false, if_false, hmixed, Bool.false_eq_true]

/-- A batch with tests that is answered was to be tested in a mode there is, and its keys are of one
provider. -/
theorem accepted_of_report {mode : String} {testUrl : PyStr}
    (htest : req.test = some (mode, testUrl))
    (hreport : batchKeysReport fwd requestId req items w = (.ok report, after)) :
    mode = "scrape" ∧ (decide (1 < items.length) && mixedProviders (items.map BatchItem.id) w) =
      false := by
  rw [batchKeysReport, htest] at hreport
  by_cases hmode : mode = "scrape"
  · refine ⟨hmode, ?_⟩
    cases hmixed : decide (1 < items.length) && mixedProviders (items.map BatchItem.id) w with
    | false => rfl
    | true =>
      simp only [hmode, ne_eq, not_true_eq_false, if_false, hmixed, if_true] at hreport
      cases hreport
  · simp only [ne_eq, hmode, not_false_eq_true, if_true] at hreport
    cases hreport

theorem batchDone (hreport : batchKeysReport fwd requestId req items w = (.ok report, after)) :
    BatchDone fwd requestId req items w report after := by
  obtain ⟨hedits, hworld, hkept, hfailed⟩ := @editItems_committed req items w w fun _ => rfl
  have hids := @editItems_ids req items w
  cases htest : req.test with
  | none =>
    rw [batchKeysReport_untested htest, Prod.mk.injEq, Except.ok.injEq] at hreport
    obtain ⟨rfl, rfl⟩ := hreport
    apply batchDone_of_entries hids hkept hfailed
    · rw [testedWorld, htest]
      exact hedits
    · rw [batchKeysReport_untested htest, ← hworld]
  | some test =>
    obtain ⟨mode, testUrl⟩ := test
    obtain ⟨hmode, hmixed⟩ := accepted_of_report htest hreport
    have hfewer : (decide (1 < (items.filter fun item => item.commits req w).length) &&
        mixedProviders ((items.filter fun item => item.commits req w).map BatchItem.id) w) =
          false := by
      rw [Bool.and_eq_false_iff] at hmixed ⊢
      rcases hmixed with hshort | hone
      · have hle := List.length_filter_le (fun item => item.commits req w) items
        rw [decide_eq_false_iff_not] at hshort ⊢
        exact .inl (by omega)
      · refine .inr (Bool.eq_false_iff.mpr fun hmany => ?_)
        refine absurd (mixedProviders_of_subset ?_ hmany) (Bool.eq_false_iff.mp hone)
        intro id hid
        obtain ⟨item, hitem, rfl⟩ := List.mem_map.mp hid
        exact List.mem_map_of_mem (List.mem_filter.mp hitem).1
    rw [batchKeysReport_tested htest hmode hmixed, Prod.mk.injEq, Except.ok.injEq] at hreport
    obtain ⟨rfl, rfl⟩ := hreport
    obtain ⟨htested, htestedKept, htestedFailed⟩ :=
      @testItems_kept fwd requestId mode testUrl (editItems req items w).2 _ _ hfailed
    rw [hkept] at htested htestedKept
    apply batchDone_of_entries (testItems_ids hids) htestedKept htestedFailed
    · rw [testedWorld, htest, ← hedits]
      exact htested
    · rw [batchKeysReport_tested htest hmode hfewer, ← hworld, ← htested]

/-! ### Both handlers -/

theorem batchOne_world (htest : req.test = none) {item : BatchItem} (hfaults : item.faults = {}) :
    (batchKeysReport fwd requestId req [item] w).2 =
      if (w.key? item.id).isSome then w.modifyKey item.id (batchRow req) else w := by
  have hcommits : item.commits req w = (w.key? item.id).isSome := by
    rw [BatchItem.commits, hfaults, Bool.not_false, Bool.true_and, Bool.and_false, Bool.not_false,
      Bool.and_true]
  rw [batchKeysReport_untested htest, ← hcommits]
  exact editItem_world

/-- What a batch for one id does to the key, for a patch and for a soft deletion, the handlers of
one key do; and a batch that is answered leaves out the ids whose edits are not committed. -/
theorem batch_keys_agree (fwd : Forwarder) (requestId : String) (w : World) :
    (∀ (patch : KeyPatch) (item : BatchItem) (nonce : Bytes), item.faults = {} →
      (batchKeysReport fwd requestId { ids := [item.id], patch := some patch.batch } [item] w).2 =
        (updateKey fwd.security fwd.masterKey nonce item.id patch.update w).2) ∧
      (∀ item : BatchItem, item.faults = {} →
        (batchKeysReport fwd requestId { ids := [item.id], softDelete := true } [item] w).2 =
          (deleteKey item.id w).2) ∧
      ∀ req items report after, batchKeysReport fwd requestId req items w = (.ok report, after) →
        BatchDone fwd requestId req items w report after := by
  refine ⟨?_, ?_, fun req items report after hreport => batchDone hreport⟩
  · intro patch item nonce hfaults
    rw [batchOne_world rfl hfaults, updateKey]
    cases hkey : w.key? item.id with
    | none => rfl
    | some key =>
      show w.withKeys (w.db.keys.modify item.id (batchRow _)) =
        w.withKeys (w.db.keys.modify item.id fun _ => updateRow none patch.update key)
      refine congrArg w.withKeys (Table.modify_congr fun row hrow => ?_)
      obtain rfl : key = row := Option.some.inj (hkey.symm.trans hrow)
      exact batchRow_eq_updateRow patch rfl rfl rfl key
  · intro item hfaults
    rw [batchOne_world rfl hfaults, deleteKey, batchRow_eq_disableKey rfl rfl rfl]
    cases w.key? item.id with
    | none => rfl
    | some key => rfl

/-! ### The batch without faults -/

/-- An id around which nothing fails. -/
def calmItem (env : Nat → TestEnv) (id : Nat) : BatchItem := { id, env := env id }

/-- The results of the plain loop with the entries they stand for. -/
def SameResults (env : Nat → TestEnv) : List (Nat × Except FcamError ApiKey) →
    List (BatchItem × BatchEntry) → Prop :=
  List.Forall₂ fun result entry => entry.1 = calmItem env result.1 ∧ entry.2.ok = result.2.isOk

theorem editItems_calm (env : Nat → TestEnv) (ids : List Nat) (w : World) :
    (editItems req (ids.map (calmItem env)) w).2 = (batchLoop req ids w).2 ∧
      SameResults env (batchLoop req ids w).1 (editItems req (ids.map (calmItem env)) w).1 := by
  induction ids generalizing w with
  | nil => exact ⟨rfl, .nil⟩
  | cons id rest ih =>
    rw [List.map_cons, editItems, batchLoop]
    have hworld := @editItem_world req (calmItem env id) w
    have hcommits : (calmItem env id).commits req w = (w.key? id).isSome := by
      rw [BatchItem.commits, calmItem, Bool.not_false, Bool.true_and, Bool.and_false,
        Bool.not_false, Bool.and_true]
    rw [hcommits] at hworld
    dsimp only
    rw [hworld]
    cases hkey : w.key? id with
    | none =>
      have hfailed := editItem_failed (hcommits.trans (congrArg Option.isSome hkey))
      exact ⟨(ih w).1, .cons ⟨rfl, hfailed⟩ (ih w).2⟩
    | some key =>
      have hok : (editItem req (calmItem env id) w).1.ok = true := by
        simp only [editItem, calmItem, Bool.false_eq_true, if_false, hkey]
        split <;> rfl
      exact ⟨(ih _).1, .cons ⟨rfl, hok⟩ (ih _).2⟩

theorem testItem_calm {env : Nat → TestEnv} {id : Nat} {entry : BatchEntry} (hok : entry.ok = true)
    (w : World) :
    (testItem fwd requestId mode testUrl (calmItem env id) entry w).2 =
      (w.key? id).elim w fun key =>
        (testKey fwd (env id) requestId id w mode testUrl key).world := by
  rw [BatchEntry.ok] at hok
  rw [testItem]
  split at hok
  · next row hrow =>
    rw [hrow, calmItem]
    dsimp only
    cases w.key? id with
    | none => rfl
    | some key =>
      dsimp only [Option.elim_some]
      split
      · rfl
      · rfl
      · rfl
  · cases hok

theorem testItems_calm (env : Nat → TestEnv) {results : List (Nat × Except FcamError ApiKey)}
    {entries : List (BatchItem × BatchEntry)} (hsame : SameResults env results entries)
    (w : World) :
    (testItems fwd requestId mode testUrl entries w).2 =
      (batchTests fwd env requestId mode testUrl results w).2 := by
  induction hsame generalizing w with
  | nil => rfl
  | @cons result entry results entries hhead _ ih =>
    obtain ⟨id, result⟩ := result
    obtain ⟨item, entry⟩ := entry
    obtain ⟨hitem, hok⟩ := hhead
    dsimp only at hitem hok
    subst hitem
    rw [testItems]
    dsimp only
    rw [ih]
    cases result with
    | error error => rw [testItem_of_failed hok, batchTests]
    | ok row =>
      rw [testItem_calm hok, batchTests]
      cases w.key? id with
      | none => rfl
      | some key => rfl

/-- Where nothing fails a batch leaves the state that the plain model of the handler does. -/
theorem batchKeysReport_calm (env : Nat → TestEnv) (w : World) :
    (batchKeysReport fwd requestId req (req.ids.map (calmItem env)) w).2 =
      (batchKeys fwd env requestId req w).2 := by
  have hids : (req.ids.map (calmItem env)).map BatchItem.id = req.ids := by
    rw [List.map_map]
    exact List.map_id _
  obtain ⟨hworld, hsame⟩ := @editItems_calm req env req.ids w
  rw [batchKeysReport, batchKeys, hids, List.length_map]
  cases req.test with
  | none => exact hworld
  | some test =>
    dsimp only
    split
    · rfl
    split
    · rfl
    · dsimp only
      rw [hworld]
      exact testItems_calm env hsame _

end

/-- What tests meet where no upstream answers. -/
def silentEnv : TestEnv := { outcome := fun _ => .timeout, now := 0 }

/-- One key. -/
def singleKeyWorld : World :=
  { db := { keys := Table.empty.insert { apiKeyHash := "k1", dailyQuota := 5 } } }

/-- A batch that renames the key and tests it. -/
def renamedAndTested : BatchKeysRequest :=
  { ids := [1], patch := some { name := some (some "renamed") },
    test := some ("scrape", PyStr.ofString "https://example.com") }

/-- Without a master key the test raises, and the id fails though its row has changed. -/
theorem failed_id_edited :
    ∃ report after, batchKeysReport { defaultForwarder with masterKey := none } "r" renamedAndTested
        [{ id := 1, env := silentEnv }] singleKeyWorld = (.ok report, after) ∧
      report.results.map BatchEntry.ok = [false] ∧ (after.key? 1).bind ApiKey.name =
        some "renamed" ∧
      (singleKeyWorld.key? 1).bind ApiKey.name = none :=
  ⟨_, _, rfl, rfl, rfl, rfl⟩

/-- A key twice, with one that is missing between. -/
def twiceWithMissing : List BatchItem :=
  [{ id := 1, env := silentEnv }, { id := 7, env := silentEnv }, { id := 1, env := silentEnv }]

/-- Renaming a key, deleting it, and a batch that names it twice. -/
theorem one_key_agrees :
    (batchKeysReport defaultForwarder "r"
      { ids := [1], patch := some (KeyPatch.batch { name := some "renamed" }) }
        [{ id := 1, env := silentEnv }] singleKeyWorld).2 =
      (updateKey defaultForwarder.security defaultForwarder.masterKey [] 1
       (KeyPatch.update { name := some "renamed" })
        singleKeyWorld).2 ∧
      (batchKeysReport defaultForwarder "r" { ids := [1], softDelete := true }
       [{ id := 1, env := silentEnv }] singleKeyWorld).2 =
        (deleteKey 1 singleKeyWorld).2 ∧
      ∃ report after, BatchDone defaultForwarder "r" { ids := [1, 7, 1], softDelete := true }
        twiceWithMissing singleKeyWorld report
        after := by
  obtain ⟨hpatch, hdelete, hdone⟩ := batch_keys_agree defaultForwarder "r" singleKeyWorld
  exact ⟨hpatch { name := some "renamed" } { id := 1, env := silentEnv } [] rfl,
    hdelete { id := 1, env := silentEnv } rfl, _, _,
    hdone { ids := [1, 7, 1], softDelete := true } twiceWithMissing _ _ rfl⟩

end Fcam

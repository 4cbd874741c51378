import Fcam.Model.AuditLogs
import Fcam.Model.Purge
import Fcam.Proof.LogPaging

/-!
# Paging while the tables change

Rows are logged, cleaned up and purged between the pages a client asks for. Whatever happens, a page
begins below the last id of the page before it, so nothing is got twice, and what stays is got
(`follow_walked`). Of the audit log since a time, the clean-ups that only delete what is older leave
the rows the pages are of, and these only grow (`follow_kept`).
-/

namespace Fcam

theorem checkLimit_pos {given : Int} {limit : Nat}
    (h : checkLimit given = .ok limit) : 0 < limit := by
  rw [checkLimit] at h
  split at h
  · cases h
  split at h
  · cases h
  · cases h
    omega

/-! ### The request logs -/

section

variable {text : LogText} {query : LogQuery} {limit : Nat} {level : Option LogLevel}
  {conditions : RequestLog → Condition}

/-- Whatever happens to the logs between the pages, whoever follows the cursors comes to an end,
gets no row twice, only rows the query selects as a table has them, and of every row that stays
and that it selects, however it is rewritten meanwhile, some version. -/
theorem walk_logs_changing (hlimit : checkLimit query.limit = .ok limit)
    (hlevel : parseLevel query.level = .ok level)
    (hconditions : queryConditions text query = .ok conditions) (tables : Nat → LogTables) :
    ∃ items, (∃ enough, ∀ requests, enough ≤ requests →
      walkLogs text query tables requests = some items) ∧
      Walked (selects level conditions)
        (fun i => (tables i).logs) 0 none (items.map LogItem.row) := by
  have hbound : ∀ row ∈ rowsBelow (selects level conditions) none (tables 0).logs,
      row.1 + 1 < (tables 0).logs.nextId + 1 := by
    intro row hrow
    have hlt := Table.lt_nextId_of_mem (mem_rowsBelow.mp hrow).1
    omega
  obtain ⟨items, hdone, hwalked⟩ := follow_walked (checkLimit_pos hlimit)
    (queryLogs_answers hlimit hlevel hconditions tables) _ 0 none hbound (Nat.succ_pos _)
  exact ⟨items, ⟨_, fun requests henough => follow_mono henough hdone⟩, hwalked⟩

end

/-- Three requests, all sent with the first key. -/
def keyLogs : Table RequestLog :=
  ((Table.empty.insert { answeredLog 404 with apiKeyId := some 1 }).insert
    { answeredLog 429 with apiKeyId := some 1 }).insert { answeredLog 404 with apiKeyId := some 1 }

/-- After the first page the first request is deleted, the key is purged, which takes its id from
the other two, and one more request is logged. -/
def deletedMeanwhile : Nat → LogTables
  | 0 => { logs := keyLogs, keys := .empty }
  | _ + 1 =>
    { logs := ((keyLogs.deleteWhere fun id _ => id == 1).updateWhere RequestLog.apiKeyId 1
        clearLogKey).insert (answeredLog 404)
      keys := .empty }

/-- Page by page, one row each, the third and the second are got. -/
theorem walk_deleted_meanwhile :
    ∃ items, (∃ enough, ∀ requests, enough ≤ requests →
        walkLogs asciiLogText (levelQuery 1 (some (PyStr.ofString " Warn "))) deletedMeanwhile
          requests = some items) ∧
      Walked (selects (some .warn) fun _ => .all (List.replicate 10 (some true)))
        (fun i => (deletedMeanwhile i).logs) 0 none (items.map LogItem.row) := by
  have hlimit : checkLimit (levelQuery 1 (some (PyStr.ofString " Warn "))).limit = .ok 1 := by
    decide
  have hlevel : parseLevel (some (PyStr.ofString " Warn ")) = .ok (some .warn) := by decide
  exact walk_logs_changing hlimit hlevel rfl deletedMeanwhile

-- The third is got with its key, the second without.
example : (walkLogs asciiLogText (levelQuery 1 (some (PyStr.ofString " Warn "))) deletedMeanwhile
    3).map (·.map fun item => (item.id, item.log.apiKeyId)) = some [(3, some 1), (2, none)] := by
  decide +kernel

/-! ### The audit log -/

/-- The row of an item. -/
def AuditItem.row (item : AuditItem) : Nat × AuditLog × Instant :=
  (item.id, item.log, item.createdAt)

/-- What is got from the first page on by following the cursors, the `i`th request being answered
from the `i`th tables. -/
def walkAuditLogs (text : LogText) (query : AuditQuery) (tables : Nat → RetentionTables)
    (requests : Nat) :
    Option (List AuditItem) :=
  follow (fun i cursor =>
    (queryAuditLogs text { query with cursor := cursor.map Int.ofNat }
     (tables i).auditLogs).toOption.map fun page => (page.items, page.nextCursor)) requests 0 none

/-- The entries a filter selects, the latest first. -/
def auditEntries (conditions : AuditLog × Instant → Condition) (t : RetentionTables) :
    List (Nat × AuditLog × Instant) :=
  (t.auditLogs.rows.filter fun row => (conditions row.2).holds).reverse

section

variable {text : LogText} {query : AuditQuery} {limit : Nat}
  {conditions : AuditLog × Instant → Condition} {since : Instant}

theorem auditCondition_holds (cursor : Option Nat) (row : Nat × AuditLog × Instant) :
    (auditCondition (cursor.map Int.ofNat) conditions row).holds =
      ((conditions row.2).holds && cursor.all (row.1 < ·)) := by
  have hcursor :
      (givenCondition (cursor.map Int.ofNat) fun cursor =>
       some (decide ((row.1 : Int) < cursor))).holds = cursor.all (row.1 < ·) := by
    cases cursor with
    | none => rfl
    | some last => simp
  simp only [auditCondition, Condition.holds_all, List.all_cons, List.all_nil, hcursor,
    Bool.and_true]
  exact Bool.and_comm _ _

/-- A page of the audit log holds the latest entries the query selects below the cursor, and names
the last of them if more follow. -/
theorem queryAuditLogs_page (hlimit : checkLimit query.limit = .ok limit)
    (hconditions : auditConditions text query = .ok conditions) (logs : Table (AuditLog × Instant))
    (cursor : Option Nat) :
    ∃ page, queryAuditLogs text { query with cursor := cursor.map Int.ofNat } logs = .ok page ∧
      page.nextCursor = pageNext (fun entry => (conditions entry).holds) limit cursor logs ∧
      page.items.map AuditItem.row = pageRows (fun entry => (conditions entry).holds) limit cursor
        logs := by
  have hsame :
      auditConditions text { query with cursor := cursor.map Int.ofNat } = .ok conditions :=
        hconditions
  have hkept :
      (logs.rows.filter fun row =>
       (auditCondition (cursor.map Int.ofNat) conditions row).holds).reverse =
         rowsBelow (fun entry => (conditions entry).holds) cursor logs := by
    rw [rowsBelow]
    congr 2
    funext row
    exact auditCondition_holds cursor row
  rw [queryAuditLogs]
  simp only [hlimit, hsame, bind, Except.bind, pure, Except.pure, hkept]
  refine ⟨_, rfl, ?_, ?_⟩
  · have hmore :
        limit < min (limit + 1)
          (rowsBelow (fun entry => (conditions entry).holds) cursor logs).length ↔
            limit < (rowsBelow (fun entry => (conditions entry).holds) cursor
              logs).length := by omega
    simp only [List.length_take, decide_eq_true_eq, hmore, pageNext, pageRows, List.take_take,
      List.getLast?_map, Option.map_map]
    rw [min_eq_left (Nat.le_succ limit)]
    rfl
  · simp only [List.map_map, List.take_take, pageRows]
    rw [min_eq_left (Nat.le_succ limit)]
    exact List.map_id' _

/-- What the query selects is since its time. -/
theorem since_of_holds {value : PyStr} (hfrom : query.from' = some value)
    (hsince : parseRfc3339 text value = .ok since)
    (hconditions : auditConditions text query = .ok conditions) {entry : AuditLog × Instant}
    (hholds : (conditions entry).holds = true) : since ≤ entry.2 := by
  rw [auditConditions, hfrom] at hconditions
  simp only [Option.mapM_some, hsince, bind, Except.bind, Functor.map, Except.map] at hconditions
  cases hto : query.to'.mapM (parseRfc3339 text) with
  | error error =>
    rw [hto] at hconditions
    cases hconditions
  | ok upTo =>
    rw [hto] at hconditions
    cases hconditions
    simp only [Condition.holds_all, List.all_cons, Bool.and_eq_true] at hholds
    have hsome : Condition.holds (some (decide (since ≤ entry.2))) = true := hholds.1
    rw [Condition.holds_some] at hsome
    exact of_decide_eq_true hsome

end

section

variable {retention : RetentionConfig} {since : Instant} {p : AuditLog × Instant → Bool}

/-- The entries since a time only grow. -/
theorem auditStep_grows (hp : ∀ entry, p entry = true → since ≤ entry.2) {step : AuditStep}
    (hspares : step.Spares retention since) (t : RetentionTables) :
    (t.auditLogs.keep p).Grows ((t.auditStep retention step).auditLogs.keep p) := by
  cases step with
  | logged entry createdAt =>
    refine ⟨[(t.auditLogs.nextId, entry, createdAt)].filter fun row => p row.2, ?_⟩
    rw [Table.keep_rows, Table.keep_rows]
    exact List.filter_append _ _
  | cleanedUp now =>
    refine ⟨[], ?_⟩
    rw [List.append_nil, Table.keep_rows, Table.keep_rows, RetentionTables.auditStep,
      RetentionTables.cleanupRetention]
    split
    · next deleted logs count entries _ hdelete =>
      rw [deleteOlder] at hdelete
      split at hdelete
      · cases hdelete
        rfl
      · next hdays =>
        obtain ⟨threshold, hthreshold, hdeleted⟩ := Option.map_eq_some_iff.mp hdelete
        cases hdeleted
        have hle : threshold ≤ since := hspares (by omega) threshold hthreshold
        show (t.auditLogs.rows.filter _).filter _ = _
        rw [List.filter_filter]
        apply List.filter_congr
        intro row _
        cases hrow : p row.2 with
        | false => rfl
        | true =>
          have hsince := hp row.2 hrow
          have hstays : ¬row.2.2 < threshold := Int.not_lt.mpr (Int.le_trans hle hsince)
          simp [hstays]
    · rfl

theorem auditSteps_grows (hp : ∀ entry, p entry = true → since ≤ entry.2) (steps : List AuditStep)
    (hspares : ∀ step ∈ steps, step.Spares retention since) (t : RetentionTables) :
    (t.auditLogs.keep p).Grows
      ((steps.foldl (RetentionTables.auditStep retention) t).auditLogs.keep p) := by
  induction steps generalizing t with
  | nil => exact ⟨[], (List.append_nil _).symm⟩
  | cons step rest ih =>
    obtain ⟨first, hfirst⟩ := auditStep_grows hp (hspares step List.mem_cons_self) t
    obtain ⟨second, hsecond⟩ :=
      ih (fun other hother => hspares other (List.mem_cons_of_mem _ hother))
        (t.auditStep retention step)
    refine ⟨first ++ second, ?_⟩
    rw [List.foldl_cons, hsecond, hfirst, List.append_assoc]

/-- Following the cursors of a query since a time gets the entries it selects that are there at the
first request, each once and the latest first, whatever is logged between the pages and whatever the
retention clean-up deletes that is older. -/
theorem walk_since_exact {text : LogText} {query : AuditQuery} {limit : Nat} {value : PyStr}
    {conditions : AuditLog × Instant → Condition} (start : RetentionTables)
    (between : Nat → List AuditStep) (hlimit : checkLimit query.limit = .ok limit)
    (hfrom : query.from' = some value) (hsince : parseRfc3339 text value = .ok since)
    (hconditions : auditConditions text query = .ok conditions)
    (hspares : ∀ i, ∀ step ∈ between i, step.Spares retention since) :
    ∃ items, (∃ enough, ∀ requests, enough ≤ requests →
        walkAuditLogs text query (start.atRequest retention between) requests = some items) ∧
      items.map AuditItem.row = auditEntries conditions start ∧
      (items.map AuditItem.id).Pairwise (· > ·) := by
  have hanswers := Paged.of_query fun i => queryAuditLogs_page hlimit hconditions
    (start.atRequest retention between i).auditLogs
  have hgrows :=
    fun i => auditSteps_grows (fun entry => since_of_holds hfrom hsince hconditions) (between i)
      (hspares i)
    (start.atRequest retention between i)
  obtain ⟨items, hwalk, hitems⟩ := follow_kept (checkLimit_pos hlimit) hgrows hanswers
  have hids : items.map AuditItem.id = (items.map AuditItem.row).map Prod.fst := by
    rw [List.map_map]
    rfl
  have hentries :
      rowsBelow (fun entry => (conditions entry).holds) none start.auditLogs =
        auditEntries conditions start := by
    rw [rowsBelow, auditEntries]
    simp only [Option.all_none, Bool.and_true]
  refine ⟨items, hwalk, hitems.trans hentries, ?_⟩
  rw [hids, hitems, List.pairwise_map]
  exact rowsBelow_pairwise

end

/-- Ninety days after the epoch. -/
def ninetyDays : Instant := 7776000000000

/-- Reads this one time. -/
def ninetyDaysText : LogText :=
  { asciiLogText with
    fromIsoformat :=
      fun value => if value = PyStr.ofString "1970-04-01T00:00:00+00:00" then some ninetyDays
        else none }

def sinceNinetyDays : AuditQuery :=
  { limit := 1, from' := some (PyStr.ofString "1970-04-01T00:00:00Z") }

/-- A key was created at the epoch, and is rotated and deleted after the ninety days. -/
def keyEntries : RetentionTables :=
  { auditLogs := ((Table.empty.insert (audit {} "key.create" "api_key:firecrawl" "1", 0)).insert
      (audit {} "key.rotate" "api_key:firecrawl" "1", ninetyDays)).insert
      (audit {} "key.delete" "api_key:firecrawl" "1", ninetyDays + 10) }

/-- It is purged before the second page, and then the first entry is past its ninety days. -/
def purgedMeanwhile : Nat → List AuditStep
  | 0 =>
    [.logged (audit {} "key.purge" "api_key:firecrawl" "1") (ninetyDays + 20),
      .cleanedUp (2 * ninetyDays)]
  | _ + 1 => []

theorem walk_purged_meanwhile :
    ∃ items, (∃ enough, ∀ requests, enough ≤ requests →
        walkAuditLogs ninetyDaysText sinceNinetyDays (keyEntries.atRequest {} purgedMeanwhile)
          requests = some items) ∧
      items.map AuditItem.row =
        auditEntries
          (fun entry => .all (some (decide (ninetyDays ≤ entry.2)) :: List.replicate 5 (some true)))
        keyEntries ∧
      (items.map AuditItem.id).Pairwise (· > ·) := by
  have hlimit : checkLimit sinceNinetyDays.limit = .ok 1 := by decide
  have hsince :
      parseRfc3339 ninetyDaysText (PyStr.ofString "1970-04-01T00:00:00Z") =
        .ok ninetyDays := by decide
  have hconditions : auditConditions ninetyDaysText sinceNinetyDays = .ok fun entry =>
      .all (some (decide (ninetyDays ≤ entry.2)) :: List.replicate 5 (some true)) := by
    rw [auditConditions, sinceNinetyDays]
    simp only [Option.mapM_some, Option.mapM_none, hsince]
    rfl
  have hspares : ∀ i, ∀ step ∈ purgedMeanwhile i, step.Spares {} ninetyDays := by
    intro i step hstep
    cases i with
    | zero =>
      rcases List.mem_pair.mp hstep with rfl | rfl
      · trivial
      · intro _ threshold hthreshold
        rw [plusSeconds_eq_some hthreshold]
        decide
    | succ i => cases hstep
  exact walk_since_exact keyEntries purgedMeanwhile hlimit rfl hsince hconditions hspares

-- The clean-up deletes the first entry, and the pages are of the other two.
example : (walkAuditLogs ninetyDaysText sinceNinetyDays (keyEntries.atRequest {} purgedMeanwhile)
    3).map
    (·.map AuditItem.id) = some [3, 2] := by
  decide +kernel

end Fcam

import Fcam.Base.Paging
import Fcam.Model.RequestLogs

/-!
# Paging through the logs

The filter of a query for a level holds of the rows whose level is that one, so a page of the logs
is a page of these rows, and whoever follows the cursors gets them all.
-/

namespace Fcam

/-- The row of an item. -/
def LogItem.row (item : LogItem) : Nat × RequestLog := (item.id, item.log)

@[simp] theorem logItem_row (row : (Nat × RequestLog) × Option String) :
    (logItem row).row = row.1 := rfl

@[simp] theorem logItem_id (row : (Nat × RequestLog) × Option String) :
    (logItem row).id = row.1.1 := rfl

@[simp] theorem holds_given {α : Type} (given : Option α) (condition : α → Condition) :
    (givenCondition given condition).holds = given.all fun value => (condition value).holds := by
  cases given <;> rfl

theorem requestLogLevel_none (success : Option Bool) : requestLogLevel none success = .error := by
  rw [requestLogLevel, if_neg (by simp), if_neg (by simp)]

theorem requestLogLevel_low {code : Int} (hlow : code < 400) (success : Option Bool) :
    requestLogLevel (some code) success = if success.getD false then .info else .error := by
  have hnot : ¬400 ≤ code := by omega
  rcases success with _ | _ | _ <;> simp [requestLogLevel, hlow, hnot]

theorem requestLogLevel_middle {code : Int} (hlow : 400 ≤ code) (hhigh : code < 500)
    (success : Option Bool) :
    requestLogLevel (some code) success = .warn := by
  rw [requestLogLevel, if_neg (by simp [hlow]), if_pos (by simp [hlow, hhigh])]

theorem requestLogLevel_high {code : Int} (hhigh : 500 ≤ code) (success : Option Bool) :
    requestLogLevel (some code) success = .error := by
  have hlow : 400 ≤ code := by omega
  rw [requestLogLevel, if_neg (by simp [hlow]), if_neg (by simp [hhigh])]

theorem levelCondition_holds (level : LogLevel) (log : RequestLog) :
    (levelCondition level log).holds = (requestLogLevel log.statusCode log.success == level) := by
  cases hcode : log.statusCode with
  | none =>
    rw [requestLogLevel_none]
    cases level <;> simp [levelCondition, hcode]
  | some code =>
    rcases Int.lt_or_le code 400 with hlow | hlow
    · have hnot : ¬400 ≤ code := by omega
      have hnothigh : ¬500 ≤ code := by omega
      rw [requestLogLevel_low hlow]
      rcases hsuccess : log.success with _ | _ | _ <;> cases level <;>
        simp [levelCondition, hcode, hsuccess, hlow, hnot, hnothigh]
    · have hnot : ¬code < 400 := by omega
      rcases Int.lt_or_le code 500 with hhigh | hhigh
      · have hnothigh : ¬500 ≤ code := by omega
        rw [requestLogLevel_middle hlow hhigh]
        cases level <;> simp [levelCondition, hcode, hlow, hhigh, hnot, hnothigh]
      · have hnothigh : ¬code < 500 := by omega
        rw [requestLogLevel_high hhigh]
        cases level <;> simp [levelCondition, hcode, hlow, hhigh, hnot, hnothigh]

section

variable {text : LogText} {query : LogQuery} {limit : Nat} {level : Option LogLevel}
  {conditions : RequestLog → Condition}

/-- What a query selects rows by, besides the cursor. -/
def selects (level : Option LogLevel) (conditions : RequestLog → Condition)
    (log : RequestLog) : Bool :=
  (conditions log).holds && level.all fun level =>
    requestLogLevel log.statusCode log.success == level

theorem logCondition_holds (cursor : Option Nat) (row : Nat × RequestLog) :
    (logCondition (cursor.map Int.ofNat) conditions level row).holds =
      (selects level conditions row.2 && cursor.all (row.1 < ·)) := by
  have hcursor :
      (givenCondition (cursor.map Int.ofNat) fun cursor =>
       some (decide ((row.1 : Int) < cursor))).holds = cursor.all (row.1 < ·) := by
    cases cursor with
    | none => rfl
    | some last => simp
  simp only [logCondition, Condition.holds_all, List.all_cons, List.all_nil, hcursor, holds_given,
    levelCondition_holds, Bool.and_true]
  exact Bool.and_comm _ _

/-- The rows of the query are those below the cursor it selects. -/
theorem kept_rows (db : LogTables) (cursor : Option Nat) :
    ((db.logs.rows.map (joinKey db.keys)).filter fun row =>
        (logCondition (cursor.map Int.ofNat) conditions level row.1).holds).reverse =
      (rowsBelow (selects level conditions) cursor db.logs).map (joinKey db.keys) := by
  rw [List.filter_map, ← List.map_reverse, rowsBelow]
  congr 2
  apply List.filter_congr
  intro row _
  exact logCondition_holds cursor row

/-- A page of the logs holds the latest rows the query selects below the cursor, and names the last
of them if more follow. -/
theorem queryLogs_page (hlimit : checkLimit query.limit = .ok limit)
    (hlevel : parseLevel query.level = .ok level)
    (hconditions : queryConditions text query = .ok conditions) (db : LogTables)
    (cursor : Option Nat) :
    ∃ page, queryLogs text { query with cursor := cursor.map Int.ofNat } db = .ok page ∧
      page.nextCursor = pageNext (selects level conditions) limit cursor db.logs ∧
      page.items.map LogItem.row = pageRows (selects level conditions) limit cursor db.logs := by
  have hsame :
      queryConditions text { query with cursor := cursor.map Int.ofNat } = .ok conditions :=
        hconditions
  rw [queryLogs]
  simp only [hlimit, hlevel, hsame, bind, Except.bind, pure, Except.pure, kept_rows]
  refine ⟨_, rfl, ?_, ?_⟩
  · have hmore :
        limit < min (limit + 1) (rowsBelow (selects level conditions) cursor db.logs).length ↔
          limit < (rowsBelow (selects level conditions) cursor db.logs).length := by omega
    simp only [List.length_take, List.length_map, decide_eq_true_eq, hmore, pageNext, pageRows,
      List.take_take, List.getLast?_map, ← List.map_take, Option.map_map]
    rw [min_eq_left (Nat.le_succ limit)]
    rfl
  · simp only [List.map_map, ← List.map_take, List.take_take, pageRows]
    rw [min_eq_left (Nat.le_succ limit)]
    exact List.map_id' _

end

/-! ### Walks -/

/-- A query for a level. -/
def levelQuery (limit : Int) (level : Option PyStr) : LogQuery := { limit, level }

/-- What is got from the first page on by following the cursors, the `i`th request being answered
from the `i`th tables. -/
def walkLogs (text : LogText) (query : LogQuery) (tables : Nat → LogTables) (requests : Nat) :
    Option (List LogItem) :=
  follow (fun i cursor =>
    (queryLogs text { query with cursor := cursor.map Int.ofNat } (tables i)).toOption.map
      fun page =>
    (page.items, page.nextCursor)) requests 0 none

/-- The rows of a level, the latest first. -/
def rowsOfLevel (level : Option LogLevel) (logs : Table RequestLog) : List (Nat × RequestLog) :=
  (logs.rows.filter fun row =>
   level.all (requestLogLevel row.2.statusCode row.2.success == ·)).reverse

section

variable {text : LogText} {query : LogQuery} {limit : Nat} {level : Option LogLevel}
  {conditions : RequestLog → Condition} {tables : Nat → LogTables}

theorem queryLogs_answers (hlimit : checkLimit query.limit = .ok limit)
    (hlevel : parseLevel query.level = .ok level)
    (hconditions : queryConditions text query = .ok conditions) (tables : Nat → LogTables) :
    Paged
      (fun i cursor =>
        (queryLogs text { query with cursor := cursor.map Int.ofNat } (tables i)).toOption.map
          fun page => (page.items, page.nextCursor))
      (selects level conditions) limit (fun i => (tables i).logs) LogItem.row :=
  .of_query fun i => queryLogs_page hlimit hlevel hconditions (tables i)

/-- Whatever the filters, a walk gets the rows they select of the tables it begins with. -/
theorem walkLogs_selects (hlimit : checkLimit query.limit = .ok limit) (hpositive : 0 < limit)
    (hlevel : parseLevel query.level = .ok level)
    (hconditions : queryConditions text query = .ok conditions)
    (hgrows : ∀ i, (tables i).logs.Grows (tables (i + 1)).logs) :
    ∃ items, (∃ enough, ∀ requests, enough ≤ requests →
      walkLogs text query tables requests = some items) ∧
      items.map LogItem.row = rowsBelow (selects level conditions) none (tables 0).logs := by
  obtain ⟨items, hdone, hitems⟩ := follow_rowsBelow hpositive hgrows
    (queryLogs_answers hlimit hlevel hconditions tables)
    ((rowsBelow (selects level conditions) none (tables 0).logs).length + 1) 0 none
      (fun _ hid => by cases hid)
    (Nat.lt_succ_self _)
  exact ⟨items, ⟨_, fun requests henough => follow_mono henough hdone⟩, hitems⟩

/-- Following the cursors of a query for a level gets the rows of this level that are there at the
first request, each once and the latest first, whatever is logged meanwhile. -/
theorem walk_exact {pageLimit : Int} {name : Option PyStr} (hpositive : 1 ≤ pageLimit)
    (hmost : pageLimit ≤ 200) (hlevel : parseLevel name = .ok level)
    (hgrows : ∀ i, (tables i).logs.Grows (tables (i + 1)).logs) :
    ∃ items, (∃ enough, ∀ requests, enough ≤ requests →
        walkLogs text (levelQuery pageLimit name) tables requests = some items) ∧
      items.map LogItem.row = rowsOfLevel level (tables 0).logs ∧
      (items.map LogItem.id).Pairwise (· > ·) := by
  have hlimit : checkLimit (levelQuery pageLimit name).limit = .ok pageLimit.toNat := by
    show checkLimit pageLimit = _
    rw [checkLimit, if_neg (by omega), if_neg (by omega)]
  have hconditions :
      queryConditions text (levelQuery pageLimit name) = .ok fun _ =>
        .all (List.replicate 10 (some true)) := rfl
  obtain ⟨items, hwalk, hitems⟩ := walkLogs_selects hlimit (by omega) hlevel hconditions hgrows
  have hsame :
      rowsBelow (selects level fun _ => .all (List.replicate 10 (some true))) none (tables 0).logs =
        rowsOfLevel level (tables 0).logs := by
    rw [rowsBelow, rowsOfLevel]
    congr 2
    funext row
    simp [selects, Condition.holds_all]
  refine ⟨items, hwalk, hitems.trans hsame, ?_⟩
  have hids : items.map LogItem.id = (items.map LogItem.row).map Prod.fst := by
    rw [List.map_map]
    rfl
  rw [hids, hitems, List.pairwise_map]
  exact rowsBelow_pairwise

end

/-- The log of a request that was answered with a status. -/
def answeredLog (statusCode : Int) : RequestLog :=
  { requestId := PyStr.ofString "req-00000001"
    endpoint := PyStr.ofString "scrape"
    method := PyStr.ofString "POST"
    statusCode := some statusCode
    success := some (decide (200 ≤ statusCode ∧ statusCode < 300))
    createdAt := 0 }

/-- Two requests are logged before the first page is asked for, and one before the second. -/
def loggedMeanwhile : Nat → LogTables
  | 0 => { logs := (Table.empty.insert (answeredLog 404)).insert (answeredLog 429), keys := .empty }
  | _ + 1 =>
    { logs := ((Table.empty.insert (answeredLog 404)).insert (answeredLog 429)).insert
        (answeredLog 404), keys := .empty }

/-- Text of ASCII letters; no datetime is read. -/
def asciiLogText : LogText :=
  { fromIsoformat := fun _ => none
    pyLower := asciiLower
    sqlLower := asciiLower
    like := fun pattern column => decide ((pattern.drop 1).dropLast <:+: column) }

/-- Page by page, one row each, two of three warnings are got. -/
theorem walk_meanwhile :
    ∃ items, (∃ enough, ∀ requests, enough ≤ requests →
        walkLogs asciiLogText (levelQuery 1 (some (PyStr.ofString " Warn "))) loggedMeanwhile
          requests = some items) ∧
      items.map LogItem.row = rowsOfLevel (some .warn) (loggedMeanwhile 0).logs ∧
      (items.map LogItem.id).Pairwise (· > ·) := by
  apply walk_exact
  · decide
  · decide
  · decide
  · intro i
    cases i with
    | zero => exact ⟨[(3, answeredLog 404)], rfl⟩
    | succ i => exact ⟨[], (List.append_nil _).symm⟩

end Fcam

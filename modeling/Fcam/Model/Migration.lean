import Fcam.Base.Table
import Fcam.Model.Text
import Fcam.Model.Time

/-!
# Moving a SQLite database to Postgres

`migrate_sqlite_to_postgres.py`: which tables are selected, in which order they are copied, and what
is verified. Rows are lists of columns with their values, so that nothing depends on the columns of
a table besides those the tool reads. What Postgres makes of a row it is given, and which rows it
refuses, is a parameter.
-/

namespace Fcam

/-- The tables of `Base.metadata`. -/
inductive TableName where
  | clients
  | apiKeys
  | idempotencyRecords
  | requestLogs
  | auditLogs
  | creditSnapshots
  | upstreamResourceBindings
deriving DecidableEq, Repr

def TableName.text : TableName → String
  | clients => "clients"
  | apiKeys => "api_keys"
  | idempotencyRecords => "idempotency_records"
  | requestLogs => "request_logs"
  | auditLogs => "audit_logs"
  | creditSnapshots => "credit_snapshots"
  | upstreamResourceBindings => "upstream_resource_bindings"

/-- A value of a column. -/
inductive SqlValue where
  | null
  | int (n : Int)
  | bool (b : Bool)
  | text (s : String)
  | bytes (b : Bytes)
  | day (d : Day)
  | instant (t : Instant)
deriving DecidableEq, Repr

/-- The columns of a row besides its id. -/
abbrev SqlRow := List (String × SqlValue)

abbrev SourceDb := TableName → Table SqlRow

/-- The rows of the target, and the next id of each table's sequence. -/
structure TargetDb where
  rows : TableName → List (Nat × SqlRow) := fun _ => []
  nextId : TableName → Nat := fun _ => 1

/-- The columns that hold ids, and the tables the ids are of; the last one is no foreign key. -/
def idColumns : List (TableName × String × TableName) :=
  [(.apiKeys, "client_id", .clients), (.requestLogs, "client_id", .clients),
    (.requestLogs, "api_key_id", .apiKeys), (.creditSnapshots, "api_key_id", .apiKeys),
    (.idempotencyRecords, "client_id", .clients),
    (.upstreamResourceBindings, "client_id", .clients),
    (.upstreamResourceBindings, "api_key_id", .apiKeys),
    (.apiKeys, "last_credit_snapshot_id", .creditSnapshots)]

/-- The foreign keys of the schema. -/
def foreignKeys : List (TableName × String × TableName) :=
  idColumns.filter fun column => column.2.2 ≠ .creditSnapshots

/-- Postgres: the row it keeps of a row it is given, and the rows it accepts for a table. -/
structure Postgres where
  kept : TableName → SqlRow → SqlRow
  accepts : TargetDb → TableName → List (Nat × SqlRow) → Bool

inductive MigrationError where
  | notInitialized (label : String)
  | notAtHead (label : String)
  | unknownTables (names : List String)
  | noTables
  | missingDependencies (table : TableName) (missing : List TableName)
  | notEmpty (tables : List (TableName × Nat))
  | truncateRefused
  | insertRefused (table : TableName)
  | sequenceRefused (table : TableName)
  | countsDiffer (table : TableName)
  | sampleMissing (table : TableName) (id : Nat)
  | sampleDiffers (table : TableName) (id : Nat) (column : String)
deriving DecidableEq, Repr

/-- The arguments of the tool. -/
structure MigrateArgs where
  dryRun : Bool := false
  truncate : Bool := false
  include' : Option (List String) := none
  exclude : Option (List String) := none
  batchSize : Int := 1000
  verify : Bool := true

/-- The revisions of the migrations and of the two databases. -/
structure Revisions where
  head : String
  sqlite : Option String
  postgres : Option String

structure TableSummary where
  table : TableName
  sourceRows : Nat
  migratedRows : Nat
deriving DecidableEq, Repr

/-! ### Selecting tables -/

/-- `TABLE_ORDER`. -/
def tableOrder : List TableName :=
  [.clients, .apiKeys, .idempotencyRecords, .requestLogs, .auditLogs]

/-- `DEPENDENCIES`. -/
def dependencies : List (TableName × List TableName) :=
  [(.apiKeys, [.clients]), (.idempotencyRecords, [.clients]), (.requestLogs, [.clients, .apiKeys])]

/-- `SAMPLE_COLUMNS`, besides the id. -/
def sampleColumns : TableName → List String
  | .clients => ["name", "token_hash", "is_active"]
  | .apiKeys =>
    ["client_id", "api_key_hash", "api_key_last4", "plan_type", "is_active", "api_key_ciphertext",
      "account_password_ciphertext"]
  | .idempotencyRecords => ["client_id", "idempotency_key", "request_hash", "status"]
  | .requestLogs =>
    ["request_id", "client_id", "api_key_id", "endpoint", "method", "status_code", "success",
      "retry_count"]
  | .auditLogs => ["actor_type", "action", "resource_type", "resource_id"]
  | _ => []

/-- `_require_alembic_at_head`. -/
def requireAtHead (head : String) (label : String) (revision : Option String) :
    Except MigrationError Unit :=
  match revision with
  | none => .error (.notInitialized label)
  | some revision => if revision = head then .ok () else .error (.notAtHead label)

/-- `_resolve_tables`. -/
def resolveTables (include' exclude : Option (List String)) :
    Except MigrationError (List TableName) :=
  let unknown :=
    (include'.getD [] ++ exclude.getD []).filter fun name =>
      !(tableOrder.map TableName.text).contains name
  let included := tableOrder.filter fun table => include'.all (·.contains table.text)
  let tables := included.filter fun table => !(exclude.getD []).contains table.text
  if unknown ≠ [] then .error (.unknownTables unknown)
  else if tables = [] then .error .noTables
  else .ok tables

/-- `_validate_table_selection`. -/
def validateTableSelection (selected : List TableName) : Except MigrationError Unit :=
  dependencies.forM fun (table, required) =>
    let missing := required.filter fun name => !selected.contains name
    if selected.contains table && !missing.isEmpty then .error (.missingDependencies table missing)
    else .ok ()

/-! ### Copying -/

/-- `_truncate_tables`: Postgres refuses while a table that is not truncated refers to one that
is. -/
def truncateTables (tables : List TableName) (target : TargetDb) : Except MigrationError TargetDb :=
  if foreignKeys.any fun (table, _, referred) =>
    tables.contains referred && !tables.contains table then
    .error .truncateRefused
  else
    .ok
      { rows := fun name => if tables.contains name then [] else target.rows name
        nextId := fun name => if tables.contains name then 1 else target.nextId name }

section

variable (postgres : Postgres)

/-- One insert of a batch. -/
def insertBatch (name : TableName) (batch : List (Nat × SqlRow)) (target : TargetDb) :
    Except MigrationError TargetDb :=
  if postgres.accepts target name batch then
    let kept := batch.map fun row => (row.1, postgres.kept name row.2)
    .ok { target with rows := Function.update target.rows name (target.rows name ++ kept) }
  else .error (.insertRefused name)

/-- The loop of `_migrate_one_table`, with the batch so far and the number of rows inserted. -/
def insertRows (batchSize : Int) (name : TableName) :
    List (Nat × SqlRow) → List (Nat × SqlRow) → Nat → TargetDb →
      Except MigrationError (Nat × TargetDb)
  | [], [], migrated, target => .ok (migrated, target)
  | [], batch, migrated, target => do
    let target ← insertBatch postgres name batch target
    return (migrated + batch.length, target)
  | row :: rest, batch, migrated, target => do
    let batch := batch ++ [row]
    if batchSize ≤ batch.length then
      let target ← insertBatch postgres name batch target
      insertRows batchSize name rest [] (migrated + batch.length) target
    else insertRows batchSize name rest batch migrated target

/-- `_fix_postgres_sequence`: a sequence cannot be set below 1. -/
def fixPostgresSequence (name : TableName) (target : TargetDb) : Except MigrationError TargetDb :=
  match ((target.rows name).map Prod.fst).max? with
  | none => .ok { target with nextId := Function.update target.nextId name 1 }
  | some 0 => .error (.sequenceRefused name)
  | some largest => .ok { target with nextId := Function.update target.nextId name (largest + 1) }

/-- `_migrate_one_table`. -/
def migrateOneTable (source : SourceDb) (batchSize : Int) (dryRun : Bool) (name : TableName)
    (target : TargetDb) :
    Except MigrationError (TableSummary × TargetDb) := do
  let sourceRows := (source name).rows.length
  if dryRun then return ({ table := name, sourceRows, migratedRows := 0 }, target)
  else
    let (migratedRows, target) ← insertRows postgres batchSize name (source name).rows [] 0 target
    let target ← fixPostgresSequence name target
    return ({ table := name, sourceRows, migratedRows }, target)

def migrateTables (source : SourceDb) (batchSize : Int) (dryRun : Bool) :
    List TableName → TargetDb → Except MigrationError (List TableSummary × TargetDb)
  | [], target => .ok ([], target)
  | name :: rest, target => do
    let (summary, target) ← migrateOneTable postgres source batchSize dryRun name target
    let (summaries, target) ← migrateTables source batchSize dryRun rest target
    return (summary :: summaries, target)

/-! ### Verifying -/

/-- `_verify_counts`. -/
def verifyCounts (source : SourceDb) (tables : List TableName) (target : TargetDb) :
    Except MigrationError Unit :=
  tables.forM fun name =>
    if (source name).rows.length = (target.rows name).length then .ok ()
    else .error (.countsDiffer name)

/-- The comparison of one column of a sampled row: a secret must also not be empty. -/
def sampleAgrees (column : String) (source target : SqlRow) : Bool :=
  if (column.toList.tails.any "ciphertext".toList.isPrefixOf) then
    match source.lookup column, target.lookup column with
    | some .null, some .null => true
    | some (.bytes b), some (.bytes b') => b != [] && b == b'
    | _, _ => false
  else source.lookup column == target.lookup column

/-- `_verify_samples` for one table. -/
def verifySamplesOf (source : SourceDb) (target : TargetDb) (sampleSize : Nat) (name : TableName) :
    Except MigrationError Unit :=
  ((source name).rows.take sampleSize).forM fun (id, row) =>
    match (target.rows name).lookup id with
    | none => .error (.sampleMissing name id)
    | some row' =>
      match (sampleColumns name).find? fun column => !sampleAgrees column row row' with
      | some column => .error (.sampleDiffers name id column)
      | none => .ok ()

/-! ### The tool -/

/-- `main`: the summaries and the target of a run that returns 0. -/
def migrate (args : MigrateArgs) (revisions : Revisions) (source : SourceDb) (target : TargetDb) :
    Except MigrationError (List TableSummary × TargetDb) := do
  requireAtHead revisions.head "SQLite" revisions.sqlite
  requireAtHead revisions.head "Postgres" revisions.postgres
  let tables ← resolveTables args.include' args.exclude
  validateTableSelection tables
  let target ←
    if args.truncate then if args.dryRun then .ok target else truncateTables tables target
    else
      let nonEmpty := tables.filter fun name => target.rows name ≠ []
      if nonEmpty ≠ [] then
        .error (.notEmpty (nonEmpty.map fun name => (name, (target.rows name).length)))
      else .ok target
  let (summaries, target) ← migrateTables postgres source args.batchSize args.dryRun tables target
  if !args.dryRun && args.verify then
    verifyCounts source tables target
    tables.forM (verifySamplesOf source target 10)
  return (summaries, target)

end

end Fcam

import Fcam.Model.Migration

/-!
# What a migration leaves behind

The tables that are copied arrive row by row, as Postgres keeps the rows. Two tables of the schema
are not in the list of those that are copied, so a migration is complete where these are empty.
-/

namespace Fcam

/-- The target holds the rows of the source, and the ids in them that could be looked up can still
be. -/
structure MigrationComplete (source : SourceDb) (target : TargetDb) : Prop where
  rows : ∀ name, List.Perm (target.rows name) (source name).rows
  ids : ∀ name column referred, (name, column, referred) ∈ idColumns →
    ∀ row ∈ target.rows name, ∀ id : Nat,
      row.2.lookup column = some (.int id) → ((source referred).get? id).isSome →
      ∃ found ∈ target.rows referred, found.1 = id

theorem bind_eq_ok {ε α β : Type} {x : Except ε α} {f : α → Except ε β} {b : β}
    (h : x >>= f = .ok b) :
    ∃ a, x = .ok a ∧ f a = .ok b := by
  cases x with
  | error error => cases h
  | ok a => exact ⟨a, rfl, h⟩

section

variable {postgres : Postgres} {source : SourceDb} {batchSize : Int} {name : TableName}

/-- The rows as Postgres keeps them. -/
def keptRows (postgres : Postgres) (name : TableName) (rows : List (Nat × SqlRow)) :
    List (Nat × SqlRow) :=
  rows.map fun row => (row.1, postgres.kept name row.2)

theorem insertBatch_rows {batch : List (Nat × SqlRow)} {target last : TargetDb}
    (h : insertBatch postgres name batch target = .ok last) :
    last.rows = Function.update target.rows name
      (target.rows name ++ keptRows postgres name batch) := by
  rw [insertBatch] at h
  split at h
  · cases h
    rfl
  · cases h

theorem update_append (rows : TableName → List (Nat × SqlRow))
    (first second : List (Nat × SqlRow)) :
    Function.update (Function.update rows name (rows name ++ first)) name
        (Function.update rows name (rows name ++ first) name ++ second) =
      Function.update rows name (rows name ++ (first ++ second)) := by
  rw [Function.update_self, Function.update_idem, List.append_assoc]

/-- However the rows are cut into batches, they arrive in order. -/
theorem insertRows_rows {rows batch : List (Nat × SqlRow)} {migrated count : Nat}
    {target last : TargetDb}
    (h : insertRows postgres batchSize name rows batch migrated target = .ok (count, last)) :
    last.rows = Function.update target.rows name
      (target.rows name ++ keptRows postgres name (batch ++ rows)) := by
  induction rows generalizing batch migrated target with
  | nil =>
    rw [List.append_nil]
    cases batch with
    | nil =>
      cases h
      rw [keptRows, List.map_nil, List.append_nil, Function.update_eq_self]
    | cons row batch =>
      obtain ⟨mid, hinsert, hlast⟩ := bind_eq_ok h
      cases hlast
      exact insertBatch_rows hinsert
  | cons row rest ih =>
    have hsplit : batch ++ row :: rest = (batch ++ [row]) ++ rest := by simp
    rw [insertRows] at h
    split at h
    · obtain ⟨mid, hinsert, hrest⟩ := bind_eq_ok h
      rw [ih hrest, insertBatch_rows hinsert, update_append, hsplit, List.nil_append, keptRows,
        keptRows, keptRows, ← List.map_append]
    · rw [ih h, hsplit]

theorem fixPostgresSequence_rows {target last : TargetDb}
    (h : fixPostgresSequence name target = .ok last) :
    last.rows = target.rows := by
  rw [fixPostgresSequence] at h
  split at h
  · cases h
    rfl
  · cases h
  · cases h
    rfl

theorem migrateOneTable_rows {summary : TableSummary} {target last : TargetDb}
    (h : migrateOneTable postgres source batchSize false name target = .ok (summary, last)) :
    last.rows = Function.update target.rows name
      (target.rows name ++ keptRows postgres name (source name).rows) := by
  rw [migrateOneTable, if_neg Bool.false_ne_true] at h
  obtain ⟨⟨count, mid⟩, hinsert, h⟩ := bind_eq_ok h
  obtain ⟨last', hfix, hlast⟩ := bind_eq_ok h
  cases hlast
  rw [fixPostgresSequence_rows hfix]
  exact insertRows_rows hinsert

/-- Each of the tables arrives, the others stay as they are. -/
theorem migrateTables_rows {tables : List TableName} (hnodup : tables.Nodup)
    {summaries : List TableSummary} {target last : TargetDb}
    (h : migrateTables postgres source batchSize false tables target = .ok (summaries, last))
    (name : TableName) :
    last.rows name =
      if name ∈ tables then target.rows name ++ keptRows postgres name (source name).rows
        else target.rows name := by
  induction tables generalizing summaries target with
  | nil =>
    cases h
    rfl
  | cons first rest ih =>
    obtain ⟨hfirst, hrest⟩ := List.nodup_cons.mp hnodup
    obtain ⟨⟨summary, mid⟩, hone, h⟩ := bind_eq_ok h
    obtain ⟨⟨others, last'⟩, hothers, h⟩ := bind_eq_ok h
    cases h
    rw [ih hrest hothers, migrateOneTable_rows hone]
    by_cases heq : name = first
    · subst heq
      rw [if_neg hfirst, if_pos List.mem_cons_self, Function.update_self]
    · simp only [Function.update_of_ne heq, List.mem_cons, heq, false_or]

theorem resolveTables_default : resolveTables none none = .ok tableOrder := rfl

theorem truncateTables_refused (target : TargetDb) :
    truncateTables tableOrder target = .error .truncateRefused := rfl

/-- What a run that returns 0, with the default selection and no dry run, leaves of an empty
target. -/
theorem migrate_rows {args : MigrateArgs} {revisions : Revisions} {target last : TargetDb}
    {summaries : List TableSummary} (hinclude : args.include' = none)
    (hexclude : args.exclude = none) (hdry : args.dryRun = false)
    (hempty : args.truncate = true ∨ ∀ name, target.rows name = [])
    (h : migrate postgres args revisions source target = .ok (summaries, last)) (name : TableName) :
    last.rows name = if name ∈ tableOrder then keptRows postgres name (source name).rows
      else [] := by
  simp only [migrate, hinclude, hexclude, hdry, resolveTables_default] at h
  obtain ⟨_, _, h⟩ := bind_eq_ok h
  obtain ⟨_, _, h⟩ := bind_eq_ok h
  obtain ⟨tables, htables, h⟩ := bind_eq_ok h
  obtain rfl := Except.ok.inj htables
  obtain ⟨_, _, h⟩ := bind_eq_ok h
  cases htruncate : args.truncate with
  | true =>
    rw [htruncate, if_pos rfl, if_neg Bool.false_ne_true, truncateTables_refused] at h
    cases h
  | false =>
    rw [htruncate, if_neg Bool.false_ne_true] at h
    have hempty : ∀ name, target.rows name = [] :=
      hempty.resolve_left (by rw [htruncate]; exact Bool.false_ne_true)
    have hlast : ∃ summaries, migrateTables postgres source args.batchSize false tableOrder target =
        .ok (summaries, last) := by
      split at h
      · cases h
      · obtain ⟨mid, hmid, h⟩ := bind_eq_ok h
        obtain rfl := Except.ok.inj hmid
        obtain ⟨⟨summaries, last'⟩, htables, h⟩ := bind_eq_ok h
        split at h
        · obtain ⟨_, _, h⟩ := bind_eq_ok h
          obtain ⟨_, _, h⟩ := bind_eq_ok h
          cases h
          exact ⟨_, htables⟩
        · cases h
          exact ⟨_, htables⟩
    obtain ⟨summaries, htables⟩ := hlast
    rw [migrateTables_rows (by decide) htables, hempty, List.nil_append]

/-- A run that returns 0, with the default selection and no dry run, has moved an empty target
everything if and only if the tables that are not copied are empty and Postgres keeps the rows of
the others as they are. -/
theorem migration_complete_iff {args : MigrateArgs} {revisions : Revisions} {target last : TargetDb}
    {summaries : List TableSummary} (hinclude : args.include' = none)
    (hexclude : args.exclude = none) (hdry : args.dryRun = false)
    (hempty : args.truncate = true ∨ ∀ name, target.rows name = [])
    (h : migrate postgres args revisions source target = .ok (summaries, last)) :
    MigrationComplete source last ↔
      (source .creditSnapshots).rows = [] ∧ (source .upstreamResourceBindings).rows = [] ∧
        ∀ name ∈ tableOrder, ∀ row ∈ (source name).rows, postgres.kept name row.2 = row.2 := by
  have hrows := migrate_rows hinclude hexclude hdry hempty h
  have hnot :
      ∀ name, name ∉ tableOrder ↔ name = .creditSnapshots ∨ name = .upstreamResourceBindings := by
    intro name
    cases name <;> decide
  constructor
  · intro hcomplete
    have hskipped : ∀ name, name ∉ tableOrder → (source name).rows = [] := by
      intro name hname
      have hperm := hcomplete.rows name
      rw [hrows, if_neg hname] at hperm
      exact hperm.nil_eq.symm
    refine ⟨hskipped _ (by decide), hskipped _ (by decide), fun name hname row hrow => ?_⟩
    have hperm := hcomplete.rows name
    rw [hrows, if_pos hname] at hperm
    have hmem : (row.1, postgres.kept name row.2) ∈ (source name).rows :=
      hperm.subset (List.mem_map_of_mem hrow)
    have hsame := Table.get?_of_mem hrow
    rw [Table.get?_of_mem hmem, Option.some.injEq] at hsame
    exact hsame
  · rintro ⟨hsnapshots, hbindings, hkept⟩
    have hsame : ∀ name, last.rows name = (source name).rows := by
      intro name
      rw [hrows]
      split
      · next hname =>
        have hid : ∀ row ∈ (source name).rows, (row.1, postgres.kept name row.2) = row :=
          fun row hrow =>
          Prod.ext rfl (hkept name hname row hrow)
        rw [keptRows, List.map_congr_left hid, List.map_id']
      · next hname =>
        rcases (hnot name).mp hname with rfl | rfl
        · exact hsnapshots.symm
        · exact hbindings.symm
    refine ⟨fun name => .of_eq (hsame name), fun name column referred _ row _ id _ hresolves => ?_⟩
    obtain ⟨found, hfound⟩ := Option.isSome_iff_exists.mp hresolves
    exact ⟨(id, found), hsame referred ▸ Table.get?_eq_some_iff.mp hfound, rfl⟩

end

/-! ### One table -/

/-- A target with the rows of one table replaced. -/
def TargetDb.withRows (target : TargetDb) (name : TableName)
    (rows : List (Nat × SqlRow)) : TargetDb :=
  { target with rows := Function.update target.rows name rows }

/-- Postgres takes the rows of a table in any batches, in order, and keeps them as they are. -/
structure Postgres.Takes (postgres : Postgres) (name : TableName) (target : TargetDb)
    (rows : List (Nat × SqlRow)) :
    Prop where
  kept : ∀ row ∈ rows, postgres.kept name row.2 = row.2
  accepts : ∀ done batch rest, rows = done ++ batch ++ rest →
    postgres.accepts (target.withRows name done) name batch = true

section

variable {postgres : Postgres} {source : SourceDb} {batchSize : Int} {name : TableName}
  {target : TargetDb} {rows : List (Nat × SqlRow)}

theorem insertBatch_ok (htakes : postgres.Takes name target rows)
    {done batch rest : List (Nat × SqlRow)} (hrows : rows = done ++ batch ++ rest) :
    insertBatch postgres name batch (target.withRows name done) =
      .ok (target.withRows name (done ++ batch)) := by
  have hkept : (batch.map fun row => (row.1, postgres.kept name row.2)) = batch := by
    conv_rhs => rw [← List.map_id batch]
    apply List.map_congr_left
    intro row hrow
    have hmem : row ∈ rows := by
      rw [hrows]
      exact List.mem_append_left _ (List.mem_append_right _ hrow)
    rw [htakes.kept row hmem, id]
  rw [insertBatch, if_pos (htakes.accepts done batch rest hrows)]
  simp only [hkept, TargetDb.withRows, Function.update_self, Function.update_idem]

/-- What is inserted, what waits in the batch and what is still to come are the rows of the source,
in order; the rest of the loop inserts what is left of them. -/
theorem insertRows_ok (htakes : postgres.Takes name target rows)
    {done batch rest : List (Nat × SqlRow)} {migrated : Nat}
    (hrows : rows = done ++ batch ++ rest) :
    insertRows postgres batchSize name rest batch migrated (target.withRows name done) =
      .ok (migrated + batch.length + rest.length, target.withRows name rows) := by
  induction rest generalizing done batch migrated with
  | nil =>
    cases batch with
    | nil =>
      rw [hrows, List.append_nil, List.append_nil]
      rfl
    | cons row batch =>
      have hall : done ++ row :: batch = rows := by rw [hrows, List.append_nil]
      rw [insertRows, insertBatch_ok htakes hrows, hall]
      · rfl
      · exact List.cons_ne_nil _ _
  | cons row rest ih =>
    have hnext : rows = done ++ (batch ++ [row]) ++ rest := by
      rw [hrows, List.append_assoc, List.append_assoc, List.append_assoc]
      rfl
    have hlength : (batch ++ [row]).length = batch.length + 1 := by
      rw [List.length_append, List.length_singleton]
    rw [insertRows]
    split
    · -- The batch is full: it is inserted, and an empty one is begun.
      have hflushed : rows = (done ++ (batch ++ [row])) ++ [] ++ rest := by
        rw [List.append_nil, hnext]
      rw [insertBatch_ok htakes hnext]
      show insertRows postgres batchSize name rest []
        _ (target.withRows name (done ++ (batch ++ [row]))) = _
      rw [ih hflushed, hlength, List.length_nil, List.length_cons]
      congr 2
      omega
    · rw [ih hnext, hlength, List.length_cons]
      congr 2
      omega

theorem fixPostgresSequence_ok (hids :
    target.rows name = [] ∨ ∃ row ∈ target.rows name, 0 < row.1) :
    ∃ next, fixPostgresSequence name target =
    .ok { target with nextId := Function.update target.nextId name next } ∧
      (∀ row ∈ target.rows name, row.1 < next) ∧ (target.rows name = [] → next = 1) := by
  rw [fixPostgresSequence]
  cases hmax : ((target.rows name).map Prod.fst).max? with
  | none =>
    have hempty : target.rows name = [] := by
      rw [List.max?_eq_none_iff, List.map_eq_nil_iff] at hmax
      exact hmax
    refine ⟨1, rfl, ?_, fun _ => rfl⟩
    rw [hempty]
    intro row hrow
    cases hrow
  | some largest =>
    obtain ⟨hmem, hle⟩ := List.max?_eq_some_iff.mp hmax
    have hne : target.rows name ≠ [] := by
      intro hempty
      rw [hempty] at hmem
      cases hmem
    obtain ⟨row, hrow, hpos⟩ := hids.resolve_left hne
    cases largest with
    | zero => exact absurd (hle row.1 (List.mem_map_of_mem hrow)) (by omega)
    | succ largest =>
      refine ⟨largest + 1 + 1, rfl, ?_, fun hempty => absurd hempty hne⟩
      intro row hrow
      have hrow := hle row.1 (List.mem_map_of_mem hrow)
      omega

/-- A table is copied into an empty one row by row, whatever the size of the batches, and ids go on
above its own. -/
theorem table_migrated (hempty : target.rows name = [])
    (htakes : postgres.Takes name target (source name).rows)
    (hids : (source name).rows = [] ∨ ∃ row ∈ (source name).rows, 0 < row.1) :
    ∃ last, migrateOneTable postgres source batchSize false name target =
        .ok (
          { table := name
            sourceRows := (source name).rows.length
            migratedRows := (source name).rows.length },
          last) ∧
      last.rows = Function.update target.rows name (source name).rows ∧
      (∀ row ∈ (source name).rows, row.1 < last.nextId name) ∧
      ((source name).rows = [] → last.nextId name = 1) ∧
      ∀ other ≠ name, last.nextId other = target.nextId other := by
  have hstart : target = target.withRows name [] := by
    rw [TargetDb.withRows, ← hempty, Function.update_eq_self]
  have hinsert : insertRows postgres batchSize name (source name).rows [] 0 target =
      .ok ((source name).rows.length, target.withRows name (source name).rows) := by
    have hinsert := @insertRows_ok postgres batchSize name target _ htakes [] [] _ 0 rfl
    rwa [← hstart, List.length_nil, Nat.zero_add] at hinsert
  have hself : (target.withRows name (source name).rows).rows name = (source name).rows :=
    Function.update_self ..
  have hids : (target.withRows name (source name).rows).rows name = [] ∨
      ∃ row ∈ (target.withRows name (source name).rows).rows name, 0 < row.1 := by rwa [hself]
  obtain ⟨next, hfix, hlt, hone⟩ := fixPostgresSequence_ok hids
  rw [hself] at hlt hone
  have hmigrate : migrateOneTable postgres source batchSize false name target =
      .ok (
        { table := name
          sourceRows := (source name).rows.length
          migratedRows := (source name).rows.length },
        { target.withRows name (source name).rows with
          nextId := Function.update target.nextId name next }) := by
    rw [migrateOneTable, if_neg Bool.false_ne_true, hinsert]
    show (fixPostgresSequence name (target.withRows name (source name).rows) >>= _) = _
    rw [hfix]
    rfl
  have hself : Function.update target.nextId name next name = next := Function.update_self ..
  refine ⟨_, hmigrate, rfl, ?_, ?_, ?_⟩
  · intro row hrow
    exact Nat.lt_of_lt_of_eq (hlt row hrow) hself.symm
  · intro hnone
    exact hself.trans (hone hnone)
  · intro other hother
    exact Function.update_of_ne hother _ _

end

/-- A Postgres that accepts every row and keeps it as it is. -/
def faithfulPostgres : Postgres := { kept := fun _ row => row, accepts := fun _ _ _ => true }

def atHead : Revisions := { head := "0010", sqlite := some "0010", postgres := some "0010" }

/-- A client with a key, whose credits have been fetched if there is a snapshot. -/
def gatewayDb (snapshots : Table SqlRow) : SourceDb := fun name =>
  match name with
  | .clients => Table.empty.insert [("name", .text "client")]
  | .apiKeys =>
    Table.empty.insert
      [("client_id", .int 1), ("api_key_ciphertext", .bytes [107]),
        ("account_password_ciphertext", .null),
        ("last_credit_snapshot_id", if snapshots.rows.isEmpty then .null else .int 1)]
  | .creditSnapshots => snapshots
  | _ => .empty

/-- Without snapshots and bindings everything is moved, and checked. -/
theorem gatewayDb_complete :
    ∃ summaries last, migrate faithfulPostgres {} atHead (gatewayDb .empty)
      {} = .ok (summaries, last) ∧
      MigrationComplete (gatewayDb .empty) last := by
  have hmigrate :
      ∃ summaries last, migrate faithfulPostgres {} atHead (gatewayDb .empty) {} =
        .ok (summaries, last) :=
    ⟨_, _, rfl⟩
  obtain ⟨summaries, last, h⟩ := hmigrate
  exact ⟨summaries, last, h, (migration_complete_iff rfl rfl rfl (.inr fun _ => rfl) h).mpr
    ⟨rfl, rfl, fun _ _ _ _ => rfl⟩⟩

/-- A snapshot stays behind, and the key that points to it arrives with a pointer to nothing. -/
theorem snapshot_left_behind :
    let source := gatewayDb (Table.empty.insert [("api_key_id", .int 1)])
    ∃ summaries last, migrate faithfulPostgres {} atHead source {} = .ok (summaries, last) ∧
      ¬MigrationComplete source last ∧
      ∃ row ∈ last.rows .apiKeys, row.2.lookup "last_credit_snapshot_id" = some (.int 1) ∧
        ((source .creditSnapshots).get? 1).isSome ∧
        ¬∃ found ∈ last.rows .creditSnapshots, found.1 = 1 := by
  refine ⟨_, _, rfl, fun hcomplete => ?_, _, List.mem_singleton_self _, rfl, rfl, ?_⟩
  · exact absurd (hcomplete.rows .creditSnapshots).nil_eq nofun
  · rintro ⟨found, hfound, _⟩
    cases hfound

/-- The one client of `gatewayDb`, with batches of no rows. -/
theorem gatewayDb_client_migrated :
    ∃ last, migrateOneTable faithfulPostgres (gatewayDb .empty) 0 false .clients {} =
        .ok ({ table := .clients, sourceRows := 1, migratedRows := 1 }, last) ∧
      last.rows .clients = [(1, [("name", .text "client")])] ∧ 1 < last.nextId .clients := by
  obtain ⟨last, hmigrate, hrows, hnext, _⟩ :=
    @table_migrated faithfulPostgres (gatewayDb .empty) 0 .clients {} rfl ⟨fun _ _ => rfl,
      fun _ _ _ _ => rfl⟩
    (.inr ⟨_, List.mem_singleton_self _, Nat.one_pos⟩)
  refine ⟨last, hmigrate, ?_, hnext _ (List.mem_singleton_self _)⟩
  rw [hrows, Function.update_self]
  rfl

/-- A client with the id 0: the rows can be inserted, but the sequence cannot be set to 0. -/
def zeroIdDb : SourceDb := fun name =>
  match name with
  | .clients => { rows := [(0, [("name", .text "client")])], sorted := List.pairwise_singleton _ _ }
  | _ => .empty

theorem zero_id_refused :
    faithfulPostgres.Takes .clients {} (zeroIdDb .clients).rows ∧
      migrateOneTable faithfulPostgres zeroIdDb 1000 false .clients {} =
        .error (.sequenceRefused .clients) :=
  ⟨⟨fun _ _ => rfl, fun _ _ _ _ => rfl⟩, rfl⟩

end Fcam

import Mathlib.Data.List.Sort
import Mathlib.Order.Lattice.Nat
import WebPipe.Lib.Links
import WebPipe.Slices

/-!
# Migrations

`migrations/mod.rs`: the files of the `migrations` directory, the table of the versions that are applied, and `migrate up` and
`migrate down`. What the SQL of a migration does to the rest of the database is a parameter.
-/

namespace WebPipe

open Links

/-- What the standard library reads off the Unicode tables; on ASCII they say what ASCII says. -/
structure UnicodeTable where
  /-- `char::to_uppercase`. -/
  toUppercase : Char → List Char
  /-- `char::is_numeric`. -/
  isNumeric : Char → Bool
  ascii : ∀ c : Char, c.toNat < 128 → toUppercase c = [c.toUpper]

/-- How a command on migrations fails. -/
inductive MigrateFailure where
  | error (text : String)
  /-- A text is sliced where it cannot be. -/
  | panic
deriving DecidableEq, Repr

/-- `Migration`. -/
structure Migration where
  /-- The time of its creation, as fourteen digits. -/
  version : String
  name : String
  filename : String
  upSql : String
  downSql : String
deriving DecidableEq, Repr

/-! ## Migration files -/

/-- An entry of the directory. -/
structure DirEntry where
  filename : String
  isFile : Bool
  /-- The text of the file, or why it cannot be read. -/
  content : Except String String

/-- The slice of a text, or a panic. -/
def orPanic (l : Option (List Char)) : Except MigrateFailure String :=
  match l with
  | none => .error .panic
  | some l => .ok (String.ofList l)

def upMarker : List Char := "-- UP --".toList

def downMarker : List Char := "-- DOWN --".toList

section Files

variable (unicode : UnicodeTable)

/-- `str::to_uppercase`. -/
def UnicodeTable.upper (l : List Char) : List Char := l.flatMap unicode.toUppercase

/-- `parse_migration_content`: the markers are looked for in the upper-cased text, and the text is cut at their offsets. -/
def parseMigrationContent (content : String) : Except MigrateFailure (String × String) :=
  let contentUpper := unicode.upper content.toList
  match findText upMarker contentUpper with
  | none => .error (.error "Missing -- UP -- marker")
  | some upStart =>
    match findText downMarker contentUpper with
    | none => .error (.error "Missing -- DOWN -- marker")
    | some downStart =>
      if downStart ≤ upStart then .error (.error "-- DOWN -- must come after -- UP --")
      else do
        let upSql ← orPanic (slice (upStart + utf8Len upMarker) downStart content.toList)
        let downSql ← orPanic (sliceFrom (downStart + utf8Len downMarker) content.toList)
        pure (Text.trim upSql, Text.trim downSql)

/-- `str::trim_end_matches`. -/
def trimEndMatches (suffix s : String) : String := (fun s => (Text.stripSuffix suffix s).getD s)^[s.length] s

/-- One turn of the loop of `scan_migration_files`: the migration of an entry, or nothing where the entry is passed over. -/
def readMigration (entry : DirEntry) : Except MigrateFailure (Option Migration) :=
  if entry.isFile = false ∨ (PathBuf.ofText entry.filename).extension ≠ some "sql" then .ok none
  else
    match Text.splitOnce "_" entry.filename with
    | none => .ok none
    | some (version, rest) =>
      if utf8Len version.toList ≠ 14 ∨ version.toList.all unicode.isNumeric = false then .ok none
      else
        match entry.content with
        | .error e => .error (.error e)
        | .ok content => do
          let (upSql, downSql) ← parseMigrationContent unicode content
          pure (some { version, name := trimEndMatches ".sql" rest, filename := entry.filename, upSql, downSql })

/-- `scan_migration_files`; there may be no directory. -/
def scanMigrationFiles (dir : Option (List DirEntry)) : Except MigrateFailure (List Migration) :=
  match dir with
  | none => .ok []
  | some entries => do
    let migrations ← entries.mapM (readMigration unicode)
    pure (migrations.reduceOption.insertionSort fun a b => a.version ≤ b.version)

end Files

/-! ## The database -/

/-- A row of `_wp_migrations`. -/
structure MigrationRow where
  version : String
  name : String
deriving DecidableEq, Repr

/-- A database: the table of the applied migrations, where a version stands once, and everything else. -/
structure Database (D : Type) where
  rows : List MigrationRow
  unique : (rows.map MigrationRow.version).Nodup
  tables : D

/-- The server of a database. -/
structure Postgres (D : Type) where
  /-- Run the SQL of a migration in a transaction. -/
  execute : String → D → Except String D
  /-- What it says when a version is inserted twice. -/
  duplicateKey : String

section Database

variable {D : Type}

/-- The versions that are applied. -/
def Database.applied (db : Database D) : List String := db.rows.map MigrationRow.version

/-- The row of a migration. -/
def Migration.row (m : Migration) : MigrationRow := { version := m.version, name := m.name }

theorem nodup_insertRow {rows : List MigrationRow} (h : (rows.map MigrationRow.version).Nodup) {m : Migration}
    (hm : m.version ∉ rows.map MigrationRow.version) : ((rows ++ [m.row]).map MigrationRow.version).Nodup := by
  rw [List.map_append, List.nodup_append]
  refine ⟨h, by simp, ?_⟩
  rintro a ha b hb rfl
  rw [List.map_singleton, List.mem_singleton] at hb
  rw [hb] at ha
  exact hm ha

theorem nodup_deleteRow {rows : List MigrationRow} (h : (rows.map MigrationRow.version).Nodup) (p : MigrationRow → Bool) :
    ((rows.filter p).map MigrationRow.version).Nodup :=
  h.sublist (List.filter_sublist.map _)

variable (server : Postgres D)

/-- `apply_migration`: both statements happen, or none. -/
def applyMigration (m : Migration) (db : Database D) : Except MigrateFailure (Database D) :=
  match server.execute m.upSql db.tables with
  | .error e => .error (.error s!"Migration failed: {e}")
  | .ok tables =>
    if h : m.version ∈ db.rows.map MigrationRow.version then .error (.error server.duplicateKey)
    else .ok { rows := db.rows ++ [m.row], unique := nodup_insertRow db.unique h, tables }

/-- `rollback_migration`. -/
def rollbackMigration (m : Migration) (db : Database D) : Except MigrateFailure (Database D) :=
  match server.execute m.downSql db.tables with
  | .error e => .error (.error s!"Rollback failed: {e}")
  | .ok tables =>
    .ok { rows := db.rows.filter (·.version ≠ m.version), unique := nodup_deleteRow db.unique _, tables }

/-- Every migration in order, up to the first that fails. -/
def runMigrations (run : Migration → Database D → Except MigrateFailure (Database D)) :
    List Migration → Database D → Except MigrateFailure Unit × Database D
  | [], db => (.ok (), db)
  | m :: rest, db =>
    match run m db with
    | .error e => (.error e, db)
    | .ok db' => runMigrations run rest db'

variable (unicode : UnicodeTable) (dir : Option (List DirEntry))

/-- `get_pending_migrations`. -/
def getPendingMigrations (db : Database D) : Except MigrateFailure (List Migration) := do
  let all ← scanMigrationFiles unicode dir
  pure (all.filter fun m => m.version ∉ db.applied)

/-- `get_applied_migrations`. -/
def getAppliedMigrations (db : Database D) : Except MigrateFailure (List Migration) := do
  let all ← scanMigrationFiles unicode dir
  pure ((all.filter fun m => m.version ∈ db.applied).insertionSort fun a b => b.version ≤ a.version)

/-- `migrate_up`. -/
def migrateUp (steps : Option ℕ) (db : Database D) : Except MigrateFailure Unit × Database D :=
  match getPendingMigrations unicode dir db with
  | .error e => (.error e, db)
  | .ok pending =>
    if pending.isEmpty then (.ok (), db)
    else
      let toApply := match steps with
        | some n => pending.take (min n pending.length)
        | none => pending
      runMigrations (applyMigration server) toApply db

/-- `migrate_down`. -/
def migrateDown (steps : ℕ) (db : Database D) : Except MigrateFailure Unit × Database D :=
  match getAppliedMigrations unicode dir db with
  | .error e => (.error e, db)
  | .ok applied =>
    if applied.isEmpty then (.ok (), db)
    else runMigrations (rollbackMigration server) (applied.take (min steps applied.length)) db

end Database

end WebPipe

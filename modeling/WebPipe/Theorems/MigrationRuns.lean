import WebPipe.Lib.Runs
import WebPipe.Theorems.MigrationUndo

namespace WebPipe

open Front

/-! ## Runs of the two commands -/

/-- A command that moves migrations. -/
inductive MigrateCommand where
  | up (steps : Option ℕ)
  | down (steps : ℕ)
deriving DecidableEq, Repr

section Histories

variable {D : Type} {server : Postgres D} {unicode : UnicodeTable} {dir : Option (List DirEntry)} {files : List Migration}
  {initial : D} {db db' : Database D} {n : ℕ}

/-- The database after a command, failed or not. -/
def migrateStep (server : Postgres D) (unicode : UnicodeTable) (dir : Option (List DirEntry)) (db : Database D) :
    MigrateCommand → Database D
  | .up steps => (migrateUp server unicode dir steps db).2
  | .down steps => (migrateDown server unicode dir steps db).2

/-- What the up statements of migrations make of the tables, in order. -/
def buildTables (server : Postgres D) (ms : List Migration) (tables : D) : Except String D :=
  ms.foldlM (fun tables m => server.execute m.upSql tables) tables

theorem buildTables_snoc (server : Postgres D) (ms : List Migration) (m : Migration) (tables : D) :
    buildTables server (ms ++ [m]) tables = (buildTables server ms tables).bind (server.execute m.upSql) := by
  rw [buildTables, List.foldlM_append, ← buildTables]
  cases buildTables server ms tables with
  | error e => rfl
  | ok built => cases hexecute : server.execute m.upSql built <;> simp [hexecute, Except.bind, bind, pure, Except.pure]

/-- A rollback that succeeds takes back what its migration did. -/
def RollsBack (server : Postgres D) (files : List Migration) : Prop :=
  ∀ m ∈ files, ∀ before after restored, server.execute m.upSql before = .ok after → server.execute m.downSql after = .ok restored →
    restored = before

/-- The oldest `n` files are applied, in their order, and the tables are what their up statements built. -/
structure AppliedUpTo (server : Postgres D) (files : List Migration) (initial : D) (n : ℕ) (db : Database D) : Prop where
  known : n ≤ files.length
  applied : db.applied = (files.take n).map Migration.version
  tables : RollsBack server files → buildTables server (files.take n) initial = .ok db.tables

/-- The files up to the one after the first `n`. -/
theorem take_of_drop {m : Migration} {rest : List Migration} (h : files.drop n = m :: rest) :
    files.take (n + 1) = files.take n ++ [m] ∧ files.drop (n + 1) = rest ∧ n + 1 ≤ files.length := by
  have hlt : n < files.length := by
    by_contra hge
    rw [List.drop_eq_nil_of_le (Nat.not_lt.mp hge)] at h
    cases h
  rw [List.drop_eq_getElem_cons hlt] at h
  obtain ⟨rfl, rfl⟩ := List.cons.inj h
  exact ⟨by rw [List.take_succ_eq_append_getElem hlt], rfl, hlt⟩

/-- Applying the next file moves one further. -/
theorem AppliedUpTo.apply (h : AppliedUpTo server files initial n db) {m : Migration} {rest : List Migration}
    (hnext : files.drop n = m :: rest) (happly : applyMigration server m db = .ok db') :
    AppliedUpTo server files initial (n + 1) db' := by
  obtain ⟨htake, -, hknown⟩ := take_of_drop hnext
  obtain ⟨happlied, -⟩ := applied_of_applyMigration happly
  refine ⟨hknown, ?_, ?_⟩
  · rw [happlied, h.applied, htake, List.map_append, List.map_singleton]
  · intro hback
    unfold applyMigration at happly
    split at happly
    · cases happly
    · next tables hexecute =>
      split at happly
      · cases happly
      · cases happly
        rw [htake, buildTables_snoc, h.tables hback]
        exact hexecute

/-- Applying next files, up to one that fails, leaves the oldest files applied. -/
theorem AppliedUpTo.applyAll (ms : List Migration) :
    ∀ {n : ℕ} {db : Database D}, AppliedUpTo server files initial n db → ms <+: files.drop n →
      ∃ n', AppliedUpTo server files initial n' (runMigrations (applyMigration server) ms db).2 := by
  induction ms with
  | nil => intro n db h _; exact ⟨n, h⟩
  | cons m ms ih =>
    intro n db h hms
    obtain ⟨rest, hrest⟩ := hms
    rw [List.cons_append] at hrest
    unfold runMigrations
    cases happly : applyMigration server m db with
    | error e => exact ⟨n, h⟩
    | ok db' =>
      refine ih (h.apply hrest.symm happly) ?_
      rw [(take_of_drop hrest.symm).2.1]
      exact List.prefix_append _ _

/-- Rolling back the newest applied file moves one back. -/
theorem AppliedUpTo.rollback (hdistinct : (files.map Migration.version).Nodup) {m : Migration} {rest : List Migration} (hlast : files.drop n = m :: rest)
    (h : AppliedUpTo server files initial (n + 1) db) (hroll : rollbackMigration server m db = .ok db') :
    AppliedUpTo server files initial n db' := by
  obtain ⟨htake, -, hknown⟩ := take_of_drop hlast
  have hm : m ∈ files := List.mem_of_mem_drop (hlast ▸ List.mem_cons_self)
  have hnew : ∀ v ∈ (files.take n).map Migration.version, v ≠ m.version := by
    intro v hv hvm
    rw [← List.take_append_drop n files, hlast, List.map_append, List.map_cons, List.nodup_append] at hdistinct
    exact hdistinct.2.2 v hv m.version List.mem_cons_self hvm
  have happlied := h.applied
  rw [htake] at happlied
  unfold rollbackMigration at hroll
  split at hroll
  · cases hroll
  · next tables hexecute =>
    cases hroll
    refine ⟨Nat.le_of_succ_le hknown, ?_, ?_⟩
    · have hfilter : (db.rows.filter (·.version ≠ m.version)).map MigrationRow.version =
          db.applied.filter (· ≠ m.version) := by
        rw [Database.applied, List.filter_map]
        rfl
      rw [Database.applied, hfilter, happlied, List.map_append, List.filter_append, List.map_singleton]
      simpa using hnew
    · intro hback
      have htables := h.tables hback
      rw [htake, buildTables_snoc] at htables
      cases hbuilt : buildTables server (files.take n) initial with
      | error e =>
        rw [hbuilt] at htables
        cases htables
      | ok before =>
        rw [hbuilt] at htables
        rw [hback m hm before db.tables tables htables hexecute]

/-- Rolling back newest files, up to one that fails, leaves the oldest files applied. -/
theorem AppliedUpTo.rollbackAll (hdistinct : (files.map Migration.version).Nodup) (ms : List Migration) :
    ∀ {n : ℕ} {db : Database D}, AppliedUpTo server files initial n db → ms <+: (files.take n).reverse →
      ∃ n', AppliedUpTo server files initial n' (runMigrations (rollbackMigration server) ms db).2 := by
  induction ms with
  | nil => intro n db h _; exact ⟨n, h⟩
  | cons m ms ih =>
    intro n db h hms
    obtain ⟨rest, hrest⟩ := hms
    have hne : files.take n ≠ [] := by
      intro hnil
      rw [hnil] at hrest
      cases hrest
    obtain ⟨n, rfl⟩ : ∃ k, n = k + 1 := Nat.exists_eq_succ_of_ne_zero fun hzero => hne (by rw [hzero, List.take_zero])
    cases hdrop : files.drop n with
    | nil => exact absurd (List.drop_eq_nil_iff.mp hdrop) (Nat.not_le.mpr h.known)
    | cons last tail =>
      rw [(take_of_drop hdrop).1, List.reverse_append, List.reverse_singleton, List.singleton_append] at hrest
      obtain ⟨rfl, htail⟩ := List.cons.inj hrest
      unfold runMigrations
      cases hroll : rollbackMigration server m db with
      | error e => exact ⟨n + 1, h⟩
      | ok db' => exact ih (h.rollback hdistinct hdrop hroll) ⟨rest, htail⟩

/-- A command leaves the oldest files applied. -/
theorem AppliedUpTo.step (hscan : scanMigrationFiles unicode dir = .ok files) (hdistinct : (files.map Migration.version).Nodup)
    (h : ∃ n, AppliedUpTo server files initial n db) (command : MigrateCommand) :
    ∃ n, AppliedUpTo server files initial n (migrateStep server unicode dir db command) := by
  obtain ⟨n, h⟩ := h
  have hsplit : files.map Migration.version = (files.take n).map Migration.version ++ (files.drop n).map Migration.version := by
    rw [← List.map_append, List.take_append_drop]
  have htaken : ∀ m ∈ files.take n, m.version ∈ db.applied := by
    intro m hm
    rw [h.applied]
    exact List.mem_map_of_mem hm
  have hleft : ∀ m ∈ files.drop n, m.version ∉ db.applied := by
    intro m hm hin
    rw [h.applied] at hin
    rw [hsplit, List.nodup_append] at hdistinct
    exact hdistinct.2.2 _ hin _ (List.mem_map_of_mem hm) rfl
  cases command with
  | up steps =>
    have hpending : getPendingMigrations unicode dir db = .ok (files.drop n) := by
      rw [getPendingMigrations, hscan]
      refine congrArg Except.ok ?_
      rw [← List.take_append_drop n files, List.filter_append, List.filter_eq_nil_iff.mpr, List.filter_eq_self.mpr,
        List.nil_append, List.take_append_drop]
      · simpa using hleft
      · simpa using htaken
    rw [migrateStep, migrateUp, hpending]
    dsimp only
    split
    · exact ⟨n, h⟩
    · refine h.applyAll _ ?_
      cases steps with
      | none => exact List.prefix_refl _
      | some k => exact List.take_prefix _ _
  | down steps =>
    have happlied : getAppliedMigrations unicode dir db = .ok (files.take n).reverse := by
      have hsorted := sorted_of_scan hscan
      rw [getAppliedMigrations, hscan]
      refine congrArg Except.ok ?_
      have hfilter : (files.filter fun m => m.version ∈ db.applied) = files.take n := by
        rw [← List.take_append_drop n files, List.filter_append, List.filter_eq_self.mpr, List.filter_eq_nil_iff.mpr,
          List.append_nil, List.take_append_drop]
        · simpa using hleft
        · simpa using htaken
      rw [hfilter]
      exact sorted_falling (hsorted.sublist (List.take_sublist _ _)) (hdistinct.sublist ((List.take_sublist _ _).map _))
    rw [migrateStep, migrateDown, happlied]
    dsimp only
    split
    · exact ⟨n, h⟩
    · exact h.rollbackAll hdistinct _ (List.take_prefix _ _)

end Histories

/-- Over files of distinct versions, in every run of up and down commands from an empty table, the commands that fail midway
included, the applied versions are those of the oldest files, in their order; where each rollback takes back what its migration did,
the tables are what the up statements of these files build. -/
theorem migrations_stay_in_order {D : Type} {server : Postgres D} {unicode : UnicodeTable} {dir : Option (List DirEntry)}
    {files : List Migration} (hscan : scanMigrationFiles unicode dir = .ok files) (hdistinct : (files.map Migration.version).Nodup)
    (db : Database D) (hempty : db.rows = []) (commands : List MigrateCommand) :
    ∃ n, AppliedUpTo server files db.tables n (Runs.after (migrateStep server unicode dir) db commands) := by
  refine Runs.after_of_step (P := fun s => ∃ n, AppliedUpTo server files db.tables n s)
    (fun s a h => AppliedUpTo.step hscan hdistinct h a) ⟨0, Nat.zero_le _, ?_, fun _ => rfl⟩ commands
  rw [Database.applied, hempty]
  rfl

/-- Up by one, up by the rest and down by one, over two files. -/
theorem migrations_stay_in_order_users :
    ∃ n, AppliedUpTo silentServer [users, posts] () n
      (Runs.after (migrateStep silentServer asciiUnicode usersAndPosts) (appliedDb [] List.nodup_nil)
        [.up (some 1), .up none, .down 1]) :=
  migrations_stay_in_order scan_usersAndPosts (by decide) (appliedDb [] List.nodup_nil) rfl _

end WebPipe

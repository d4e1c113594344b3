import Mathlib.Data.String.Basic
import WebPipe.Lib.Front
import WebPipe.Migrations

/-!
# Up and down

`migrate up` takes the unapplied versions from the oldest on, `migrate down` the applied versions from the newest on. Down takes back
what up did exactly when no unapplied version was older than an applied one.
-/

namespace WebPipe

open Front

/-! ## Runs of migrations -/

section Runs

variable {D : Type} {server : Postgres D} {ms : List Migration} {db db' : Database D}

theorem applied_of_applyMigration {m : Migration} (h : applyMigration server m db = .ok db') :
    db'.applied = db.applied ++ [m.version] ∧ m.version ∉ db.applied := by
  unfold applyMigration at h
  split at h
  · cases h
  · split at h
    · cases h
    · next hnew =>
      cases h
      exact ⟨by simp [Database.applied, Migration.row], hnew⟩

theorem applied_of_rollbackMigration {m : Migration} (h : rollbackMigration server m db = .ok db') :
    ∀ v, v ∈ db'.applied ↔ v ∈ db.applied ∧ v ≠ m.version := by
  unfold rollbackMigration at h
  split at h
  · cases h
  · cases h
    intro v
    simp only [Database.applied, List.mem_map, List.mem_filter, decide_not, Bool.not_eq_true', decide_eq_false_iff_not]
    constructor
    · rintro ⟨row, ⟨hrow, hne⟩, rfl⟩
      exact ⟨⟨row, hrow, rfl⟩, hne⟩
    · rintro ⟨⟨row, hrow, rfl⟩, hne⟩
      exact ⟨row, ⟨hrow, hne⟩, rfl⟩

/-- A run that succeeds applies its migrations. -/
theorem applied_of_up (h : runMigrations (applyMigration server) ms db = (.ok (), db')) :
    db'.applied = db.applied ++ ms.map Migration.version := by
  induction ms generalizing db with
  | nil =>
    cases h
    simp
  | cons m ms ih =>
    rw [runMigrations] at h
    split at h
    · cases h
    · next db₁ hm =>
      rw [ih h, (applied_of_applyMigration hm).1]
      simp

/-- A run that succeeds takes its migrations back. -/
theorem applied_of_down (h : runMigrations (rollbackMigration server) ms db = (.ok (), db')) :
    ∀ v, v ∈ db'.applied ↔ v ∈ db.applied ∧ v ∉ ms.map Migration.version := by
  induction ms generalizing db with
  | nil =>
    cases h
    simp
  | cons m ms ih =>
    rw [runMigrations] at h
    split at h
    · cases h
    · next db₁ hm =>
      intro v
      rw [ih h v, applied_of_rollbackMigration hm v, List.map_cons, List.mem_cons, not_or, and_assoc]

end Runs

/-! ## The two commands -/

section Commands

variable {D : Type} {server : Postgres D} {unicode : UnicodeTable} {dir : Option (List DirEntry)} {files : List Migration}
  {db db' : Database D}

/-- Scanned files stand in the order of their versions. -/
theorem sorted_of_scan (h : scanMigrationFiles unicode dir = .ok files) : files.Pairwise fun a b => a.version ≤ b.version := by
  unfold scanMigrationFiles at h
  split at h
  · cases h
    exact List.Pairwise.nil
  · next entries =>
    cases hread : entries.mapM (readMigration unicode) with
    | error e =>
      rw [hread] at h
      cases h
    | ok migrations =>
      rw [hread] at h
      cases h
      exact pairwise_sorted (fun m : Migration => m.version) _

/-- The files that `migrate up` is to apply. -/
def unapplied (files : List Migration) (db : Database D) : List Migration := files.filter fun m => m.version ∉ db.applied

/-- What `migrate up` applies. -/
theorem applied_of_migrateUp (hscan : scanMigrationFiles unicode dir = .ok files) {steps : Option ℕ}
    (h : migrateUp server unicode dir steps db = (.ok (), db')) :
    ∃ k, db'.applied = db.applied ++ ((unapplied files db).take k).map Migration.version ∧
      (k = 0 → steps = some 0 ∨ unapplied files db = []) ∧ (steps = some 0 → k = 0) := by
  have hpending : getPendingMigrations unicode dir db = .ok (unapplied files db) := by
    rw [getPendingMigrations, hscan]
    rfl
  unfold migrateUp at h
  rw [hpending] at h
  dsimp only at h
  split at h
  · next hempty =>
    cases h
    have hnil : unapplied files db = [] := List.isEmpty_iff.mp hempty
    exact ⟨0, by simp, fun _ => Or.inr hnil, fun _ => rfl⟩
  · next hsome =>
    have hne : unapplied files db ≠ [] := fun hnil => hsome (List.isEmpty_iff.mpr hnil)
    have hlength : 0 < (unapplied files db).length := List.length_pos_iff.mpr hne
    cases steps with
    | none =>
      refine ⟨(unapplied files db).length, ?_, by omega, nofun⟩
      rw [List.take_length]
      exact applied_of_up h
    | some n =>
      refine ⟨min n (unapplied files db).length, applied_of_up h, ?_, ?_⟩
      · intro hzero
        left
        rw [(by omega : n = 0)]
      · rintro ⟨⟩
        exact Nat.zero_min _

/-- What `migrate down` takes back: the newest of the applied versions. -/
theorem applied_of_migrateDown (hscan : scanMigrationFiles unicode dir = .ok files) (hdistinct : (files.map Migration.version).Nodup)
    {k : ℕ} (h : migrateDown server unicode dir k db = (.ok (), db')) :
    ∃ newest : List String, newest.Pairwise (· > ·) ∧ (∀ v, v ∈ newest ↔ v ∈ db.applied ∧ v ∈ files.map Migration.version) ∧
      ∀ v, v ∈ db'.applied ↔ v ∈ db.applied ∧ v ∉ newest.take k := by
  obtain ⟨applied, happlied⟩ : ∃ applied, applied = (files.filter fun m => m.version ∈ db.applied).insertionSort
      fun a b => b.version ≤ a.version := ⟨_, rfl⟩
  have hget : getAppliedMigrations unicode dir db = .ok applied := by
    rw [getAppliedMigrations, hscan, happlied]
    rfl
  have hperm : applied.Perm (files.filter fun m => m.version ∈ db.applied) := happlied ▸ List.perm_insertionSort _ _
  have hsorted : (applied.map Migration.version).Pairwise (· ≥ ·) := by
    rw [List.pairwise_map, happlied]
    exact pairwise_sorted (fun m : Migration => OrderDual.toDual m.version) _
  have hnodup : (applied.map Migration.version).Nodup :=
    (hperm.map _).nodup_iff.mpr (hdistinct.sublist (List.filter_sublist.map _))
  refine ⟨applied.map Migration.version, ?_, ?_, ?_⟩
  · exact (hsorted.and hnodup).imp fun hab => lt_of_le_of_ne hab.1 hab.2.symm
  · intro v
    rw [(hperm.map _).mem_iff]
    simp only [List.mem_map, List.mem_filter, decide_eq_true_eq]
    constructor
    · rintro ⟨m, ⟨hm, hv⟩, rfl⟩
      exact ⟨hv, m, hm, rfl⟩
    · rintro ⟨hv, m, hm, rfl⟩
      exact ⟨m, ⟨hm, hv⟩, rfl⟩
  · unfold migrateDown at h
    rw [hget] at h
    dsimp only at h
    split at h
    · next hempty =>
      cases h
      simp [List.isEmpty_iff.mp hempty]
    · intro v
      rw [applied_of_down h v, ← List.take_eq_take_min, List.map_take]

/-- Up and then down by as many steps: exactly what was applied is applied again. -/
def Undone (db db' : Database D) : Prop := ∀ v, v ∈ db'.applied ↔ v ∈ db.applied

/-- Every file that is not applied is newer than every applied version. -/
def OnlyNewPending (files : List Migration) (db : Database D) : Prop :=
  ∀ m ∈ files, m.version ∉ db.applied → ∀ v ∈ db.applied, v < m.version

/-- Down takes back what up did exactly when up was to do nothing or found nothing older than what was applied. -/
theorem up_down_iff (hscan : scanMigrationFiles unicode dir = .ok files) (hdistinct : (files.map Migration.version).Nodup)
    {db up down : Database D} (hknown : ∀ v ∈ db.applied, v ∈ files.map Migration.version) {steps : Option ℕ}
    (hup : migrateUp server unicode dir steps db = (.ok (), up))
    (hdown : migrateDown server unicode dir (up.applied.length - db.applied.length) up = (.ok (), down)) :
    Undone db down ↔ steps = some 0 ∨ OnlyNewPending files db := by
  obtain ⟨k, happlied, hnone, hzero⟩ := applied_of_migrateUp hscan hup
  obtain ⟨newest, hfalling, hnewest, htaken⟩ := applied_of_migrateDown hscan hdistinct hdown
  -- the versions that were just applied
  obtain ⟨J, hJ⟩ : ∃ J, J = ((unapplied files db).take k).map Migration.version := ⟨_, rfl⟩
  rw [← hJ] at happlied
  have hsub : J.Sublist (files.map Migration.version) :=
    hJ ▸ ((List.take_sublist k _).trans List.filter_sublist).map Migration.version
  have hnew : ∀ j ∈ J, j ∉ db.applied := by
    intro j hj
    rw [hJ] at hj
    obtain ⟨m, hm, rfl⟩ := List.mem_map.mp hj
    simpa using (List.mem_filter.mp (List.mem_of_mem_take hm)).2
  have hcard : up.applied.length - db.applied.length = J.toFinset.card := by
    rw [List.toFinset_card_of_nodup (hdistinct.sublist hsub), happlied, List.length_append, Nat.add_sub_cancel_left]
  rw [hcard] at htaken
  have hmem : ∀ v, v ∈ newest ↔ v ∈ db.applied ∨ v ∈ J := by
    intro v
    rw [hnewest, happlied, List.mem_append]
    exact and_iff_left_of_imp fun h => h.elim (hknown v) fun hv => hsub.subset hv
  have hJnewest : ∀ j ∈ J.toFinset, j ∈ newest := fun j hj => (hmem j).mpr (Or.inr (List.mem_toFinset.mp hj))
  have hnodup : newest.Nodup := hfalling.imp fun hab => ne_of_gt hab
  calc Undone db down
      ↔ ∀ v ∈ newest.take J.toFinset.card, v ∈ J.toFinset := by
        constructor
        · intro hundone v hv
          have hgone : v ∉ db.applied := fun hold => ((htaken v).mp ((hundone v).mpr hold)).2 hv
          exact List.mem_toFinset.mpr (((hmem v).mp (List.mem_of_mem_take hv)).resolve_left hgone)
        · intro hfront v
          rw [htaken v, mem_take_iff hnodup hJnewest hfront, List.mem_toFinset, happlied, List.mem_append]
          constructor
          · rintro ⟨hold | hj, hnot⟩
            · exact hold
            · exact absurd hj hnot
          · intro hold
            exact ⟨Or.inl hold, fun hj => hnew v hj hold⟩
    _ ↔ ∀ a ∈ db.applied, ∀ j ∈ J, a < j := by
        rw [take_subset_iff hfalling hJnewest]
        simp only [List.mem_toFinset]
        constructor
        · intro h a ha j hj
          exact h a ((hmem a).mpr (Or.inl ha)) (fun haJ => hnew a haJ ha) j hj
        · intro h a ha haJ j hj
          exact h a (((hmem a).mp ha).resolve_right haJ) j hj
    _ ↔ steps = some 0 ∨ OnlyNewPending files db := by
        constructor
        · intro h
          cases hpending : unapplied files db with
          | nil =>
            refine Or.inr fun m hm hunapplied => ?_
            have hmem : m ∈ unapplied files db := List.mem_filter.mpr ⟨hm, by simpa using hunapplied⟩
            rw [hpending] at hmem
            cases hmem
          | cons first rest =>
            cases k with
            | zero => exact Or.inl ((hnone rfl).resolve_right (by simp [hpending]))
            | succ k =>
              refine Or.inr fun m hm hunapplied v hv => ?_
              have hfirst : v < first.version := h v hv _ (by simp [hJ, hpending])
              -- the first unapplied file is the oldest of them
              have hsorted := (sorted_of_scan hscan).sublist (List.filter_sublist (p := fun m => m.version ∉ db.applied))
              rw [unapplied] at hpending
              rw [hpending, List.pairwise_cons] at hsorted
              have hmem : m ∈ first :: rest := hpending ▸ List.mem_filter.mpr ⟨hm, by simpa using hunapplied⟩
              rcases List.mem_cons.mp hmem with rfl | hrest
              · exact hfirst
              · exact hfirst.trans_le (hsorted.1 m hrest)
        · rintro (hsteps | hnewer) a ha j hj
          · rw [hJ, hzero hsteps] at hj
            simp at hj
          · rw [hJ] at hj
            obtain ⟨m, hm, rfl⟩ := List.mem_map.mp hj
            have hunapplied := List.mem_filter.mp (List.mem_of_mem_take hm)
            exact hnewer m hunapplied.1 (by simpa using hunapplied.2) a ha

end Commands

/-! ## Two files -/

/-- Upper case and digits of ASCII alone. -/
def asciiUnicode : UnicodeTable where
  toUppercase c := [c.toUpper]
  isNumeric := Text.isDigit
  ascii _ _ := rfl

/-- A server on which every statement succeeds. -/
def silentServer : Postgres Unit where
  execute _ := .ok
  duplicateKey := "duplicate key value violates unique constraint"

def sqlFile (filename : String) : DirEntry :=
  { filename, isFile := true, content := .ok "-- UP --A-- DOWN --B" }

/-- The directory lists the newer of two files first. -/
def usersAndPosts : Option (List DirEntry) := some [sqlFile "20240202000000_posts.sql", sqlFile "20240101000000_users.sql"]

def users : Migration :=
  { version := "20240101000000", name := "users", filename := "20240101000000_users.sql", upSql := "A", downSql := "B" }

def posts : Migration :=
  { version := "20240202000000", name := "posts", filename := "20240202000000_posts.sql", upSql := "A", downSql := "B" }

theorem scan_usersAndPosts : scanMigrationFiles asciiUnicode usersAndPosts = .ok [users, posts] := by decide +kernel

/-- The migrations that are applied. -/
def appliedDb (ms : List Migration) (h : ((ms.map Migration.row).map MigrationRow.version).Nodup) : Database Unit :=
  { rows := ms.map Migration.row, unique := h, tables := () }

/-- With the older of two migrations applied, the newer goes up and down. -/
theorem newer_up_down : ∃ up down, migrateUp silentServer asciiUnicode usersAndPosts (some 1) (appliedDb [users] (by decide)) = (.ok (), up) ∧
    migrateDown silentServer asciiUnicode usersAndPosts 1 up = (.ok (), down) ∧ Undone (appliedDb [users] (by decide)) down := by
  have hup : migrateUp silentServer asciiUnicode usersAndPosts (some 1) (appliedDb [users] (by decide)) =
      (.ok (), appliedDb [users, posts] (by decide)) := by
    rw [migrateUp, getPendingMigrations, scan_usersAndPosts]
    rfl
  have hdown : migrateDown silentServer asciiUnicode usersAndPosts 1 (appliedDb [users, posts] (by decide)) =
      (.ok (), appliedDb [users] (by decide)) := by
    rw [migrateDown, getAppliedMigrations, scan_usersAndPosts]
    rfl
  refine ⟨_, _, hup, hdown, (up_down_iff scan_usersAndPosts (by decide) (by decide) hup hdown).mpr (Or.inr ?_)⟩
  intro m hm hunapplied v hv
  rw [List.mem_singleton.mp (hv : v ∈ ["20240101000000"])]
  rcases List.mem_pair.mp hm with rfl | rfl
  · exact absurd (List.mem_singleton_self _) hunapplied
  · decide +kernel

/-- With the newer of two migrations applied, the older goes up, and the newer goes down. -/
theorem newer_taken_back : ¬∀ {files : List Migration} {db up down : Database Unit} {steps : Option ℕ},
    scanMigrationFiles asciiUnicode usersAndPosts = .ok files → (files.map Migration.version).Nodup →
    (∀ v ∈ db.applied, v ∈ files.map Migration.version) →
    migrateUp silentServer asciiUnicode usersAndPosts steps db = (.ok (), up) →
    migrateDown silentServer asciiUnicode usersAndPosts (up.applied.length - db.applied.length) up = (.ok (), down) →
    Undone db down := by
  intro h
  have hup : migrateUp silentServer asciiUnicode usersAndPosts (some 1) (appliedDb [posts] (by decide)) =
      (.ok (), appliedDb [posts, users] (by decide)) := by
    rw [migrateUp, getPendingMigrations, scan_usersAndPosts]
    rfl
  have hdown : migrateDown silentServer asciiUnicode usersAndPosts 1 (appliedDb [posts, users] (by decide)) =
      (.ok (), appliedDb [users] (by decide)) := by
    rw [migrateDown, getAppliedMigrations, scan_usersAndPosts]
    rfl
  have hundone := h scan_usersAndPosts (by decide) (by decide) hup hdown
  exact absurd ((hundone "20240202000000").mpr (List.mem_singleton_self _)) (by decide)

end WebPipe

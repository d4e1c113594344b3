import WebPipe.Theorems.ImportLoading

/-!
# After a failed load

A file is put on the loading stack before it is read, and taken off only when all that it imports has been loaded. So a load that fails
leaves the stack empty exactly when the path itself could not be resolved; then a later load answers as that of a new loader, which is
what a load without any cache answers.
-/

namespace WebPipe

open Prog

variable {fs : FileSystem} {parse : String → Except String Program}

/-! ## What a load can do -/

/-- The loader with a file on its stack. -/
def ModuleLoader.push (loader : ModuleLoader) (file : Path) : ModuleLoader :=
  { loader with loadingStack := loader.loadingStack ++ [file] }

/-- The loader after a file is loaded. -/
def ModuleLoader.finish (loader : ModuleLoader) (file : Path) (program : Program) : ModuleLoader :=
  { cache := IndexMap.insert loader.cache file program, loadingStack := loader.loadingStack.dropLast }

/-- A load that reads its file. -/
theorem loadModule_of_read {n : ℕ} {spelling : String} {loader : ModuleLoader} {file : Path} {program : Program}
    (hresolve : fs.resolve spelling = .ok file) (hcache : IndexMap.get loader.cache file = none) (hstack : file ∉ loader.loadingStack)
    (hread : readProgram fs parse file = .ok program) : loadModule fs parse (n + 1) spelling loader =
      (loadImports fs (loadModule fs parse n) file program.imports >>= fun _ => do
        Prog.modify fun loader => loader.finish file program
        pure program) (loader.push file) := by
  have hfile : (Prog.ofExcept (fs.resolve spelling) : Load Path) loader = some (.ok file, loader, []) := by
    rw [hresolve]
    rfl
  have hprogram : (Prog.ofExcept (readProgram fs parse file) : Load Program) (loader.push file) = some (.ok program, loader.push file, []) := by
    rw [hread]
    rfl
  rw [loadModule, Prog.bind_of_quiet hfile, Prog.gets_bind, hcache]
  dsimp only
  rw [Prog.gets_bind, if_neg hstack, Prog.modify_bind]
  exact Prog.bind_of_quiet hprogram

/-- What a load comes to: the path is not found, the file is cached, circular or unreadable, an import fails, or it is loaded. -/
inductive LoadStep (fs : FileSystem) (parse : String → Except String Program) (n : ℕ) (spelling : String) (loader : ModuleLoader) :
    Except WebPipeError Program → ModuleLoader → Prop
  | unresolved {e} (hresolve : fs.resolve spelling = .error e) : LoadStep fs parse n spelling loader (.error e) loader
  | cached {file program} (hresolve : fs.resolve spelling = .ok file) (hcache : IndexMap.get loader.cache file = some program) :
      LoadStep fs parse n spelling loader (.ok program) loader
  | circular {file} (hresolve : fs.resolve spelling = .ok file) (hcache : IndexMap.get loader.cache file = none)
      (hstack : file ∈ loader.loadingStack) :
      LoadStep fs parse n spelling loader (.error (.plain .circularImport (formatImportCycle loader.loadingStack file))) loader
  | unread {file e} (hresolve : fs.resolve spelling = .ok file) (hcache : IndexMap.get loader.cache file = none)
      (hstack : file ∉ loader.loadingStack) (hread : readProgram fs parse file = .error e) :
      LoadStep fs parse n spelling loader (.error e) (loader.push file)
  | failed {file program e loader'} (hresolve : fs.resolve spelling = .ok file) (hcache : IndexMap.get loader.cache file = none)
      (hstack : file ∉ loader.loadingStack) (hread : readProgram fs parse file = .ok program)
      (himports : Ends (loadImports fs (loadModule fs parse n) file program.imports) (loader.push file) (.error e) loader') :
      LoadStep fs parse n spelling loader (.error e) loader'
  | loaded {file program loader'} (hresolve : fs.resolve spelling = .ok file) (hcache : IndexMap.get loader.cache file = none)
      (hstack : file ∉ loader.loadingStack) (hread : readProgram fs parse file = .ok program)
      (himports : Ends (loadImports fs (loadModule fs parse n) file program.imports) (loader.push file) (.ok ()) loader') :
      LoadStep fs parse n spelling loader (.ok program) (loader'.finish file program)

/-- A load ends in one of the ways of a step. -/
theorem loadModule_step {n : ℕ} {spelling : String} {loader loader' : ModuleLoader} {r : Except WebPipeError Program}
    (h : Ends (loadModule fs parse (n + 1) spelling) loader r loader') : LoadStep fs parse n spelling loader r loader' := by
  obtain ⟨l, h⟩ := h
  cases hresolve : fs.resolve spelling with
  | error e =>
    have hfile : (Prog.ofExcept (fs.resolve spelling) : Load Path) loader = some (.error e, loader, []) := by
      rw [hresolve]
      rfl
    rw [loadModule, Prog.bind_of_error hfile] at h
    cases h
    exact .unresolved hresolve
  | ok file =>
    have hfile : (Prog.ofExcept (fs.resolve spelling) : Load Path) loader = some (.ok file, loader, []) := by
      rw [hresolve]
      rfl
    cases hcache : IndexMap.get loader.cache file with
    | some program =>
      rw [loadModule, Prog.bind_of_quiet hfile, Prog.gets_bind, hcache] at h
      cases h
      exact .cached hresolve hcache
    | none =>
      by_cases hstack : file ∈ loader.loadingStack
      · rw [loadModule, Prog.bind_of_quiet hfile, Prog.gets_bind, hcache] at h
        dsimp only at h
        rw [Prog.gets_bind, if_pos hstack] at h
        cases h
        exact .circular hresolve hcache hstack
      · cases hread : readProgram fs parse file with
        | error e =>
          have hprogram : (Prog.ofExcept (readProgram fs parse file) : Load Program) (loader.push file) =
              some (.error e, loader.push file, []) := by
            rw [hread]
            rfl
          rw [loadModule, Prog.bind_of_quiet hfile, Prog.gets_bind, hcache] at h
          dsimp only at h
          rw [Prog.gets_bind, if_neg hstack, Prog.modify_bind] at h
          rw [show { loader with loadingStack := loader.loadingStack ++ [file] } = loader.push file from rfl, Prog.bind_of_error hprogram] at h
          cases h
          exact .unread hresolve hcache hstack hread
        | ok program =>
          rw [loadModule_of_read hresolve hcache hstack hread] at h
          rcases Prog.bind_eq_some h with ⟨e, himports, rfl⟩ | ⟨a, loader₁, l₁, l₂, himports, hend, -⟩
          · exact .failed hresolve hcache hstack hread ⟨l, himports⟩
          · rw [Prog.modify_bind] at hend
            cases hend
            exact .loaded hresolve hcache hstack hread ⟨l₁, himports⟩

/-- The loader's state after a load, and the error of one that failed, are those of one of the steps. -/
theorem ends_of_step {n : ℕ} {spelling : String} {loader loader' : ModuleLoader} {r : Except WebPipeError Program}
    (h : LoadStep fs parse n spelling loader r loader') : Ends (loadModule fs parse (n + 1) spelling) loader r loader' := by
  have hfile : ∀ {file}, fs.resolve spelling = .ok file →
      (Prog.ofExcept (fs.resolve spelling) : Load Path) loader = some (.ok file, loader, []) := by
    intro file hresolve
    rw [hresolve]
    rfl
  cases h with
  | unresolved hresolve =>
    refine ⟨[], ?_⟩
    rw [loadModule, hresolve]
    rfl
  | cached hresolve hcache =>
    refine ⟨[], ?_⟩
    rw [loadModule, Prog.bind_of_quiet (hfile hresolve), Prog.gets_bind, hcache]
    rfl
  | circular hresolve hcache hstack =>
    refine ⟨[], ?_⟩
    rw [loadModule, Prog.bind_of_quiet (hfile hresolve), Prog.gets_bind, hcache]
    dsimp only
    rw [Prog.gets_bind, if_pos hstack]
    rfl
  | unread hresolve hcache hstack hread =>
    refine ⟨[], ?_⟩
    rw [loadModule, Prog.bind_of_quiet (hfile hresolve), Prog.gets_bind, hcache]
    dsimp only
    rw [Prog.gets_bind, if_neg hstack, Prog.modify_bind, hread]
    rfl
  | failed hresolve hcache hstack hread himports =>
    obtain ⟨l, himports⟩ := himports
    refine ⟨l, ?_⟩
    rw [loadModule_of_read hresolve hcache hstack hread, Prog.bind_of_error himports]
  | loaded hresolve hcache hstack hread himports =>
    rw [Ends, loadModule_of_read hresolve hcache hstack hread]
    exact himports.bind (ends_modify _ _ |>.bind (ends_pure _ _))

/-- Loading imports stops at the first that is not found or not loaded. -/
theorem loadImports_cons {load : String → Load Program} {file : Path} {i : Import} {rest : List Import} {loader loader' : ModuleLoader}
    {r : Except WebPipeError Unit} (h : Ends (loadImports fs load file (i :: rest)) loader r loader') :
    (∃ e, resolveImportPath fs file i.path = .error e ∧ r = .error e ∧ loader' = loader) ∨
      ∃ q, resolveImportPath fs file i.path = .ok q ∧ ((∃ e, Ends (load q.display) loader (.error e) loader' ∧ r = .error e) ∨
        ∃ program loader₁, Ends (load q.display) loader (.ok program) loader₁ ∧ Ends (loadImports fs load file rest) loader₁ r loader') := by
  obtain ⟨l, h⟩ := h
  rw [loadImports] at h
  rcases Prog.bind_eq_some h with ⟨e, hfile, rfl⟩ | ⟨q, loader₁, l₁, l₂, hfile, hmore, -⟩
  · obtain ⟨hr, rfl, -⟩ := Prog.ofExcept_eq_some hfile
    exact Or.inl ⟨e, hr.symm, rfl, rfl⟩
  · obtain ⟨hr, rfl, -⟩ := Prog.ofExcept_eq_some hfile
    refine Or.inr ⟨q, hr.symm, ?_⟩
    rcases Prog.bind_eq_some hmore with ⟨e, hload, rfl⟩ | ⟨program, loader₂, l₃, l₄, hload, hrest, -⟩
    · exact Or.inl ⟨e, ⟨_, hload⟩, rfl⟩
    · exact Or.inr ⟨program, loader₂, ⟨_, hload⟩, _, hrest⟩

/-! ## What a loader keeps -/

/-- Files in an order in which each is loaded after all that it imports, the last first. -/
inductive Loaded (fs : FileSystem) (parse : String → Except String Program) : List Path → Prop
  | nil : Loaded fs parse []
  | cons {file done program} (hcanonical : fs.canonicalize file.display = .ok file) (hread : readProgram fs parse file = .ok program)
      (himports : ∀ i ∈ program.imports, ∃ q ∈ done, resolveImportPath fs file i.path = .ok q) (hdone : Loaded fs parse done) :
      Loaded fs parse (file :: done)

/-- What was loaded can be read. -/
theorem Loaded.readable {done : List Path} (h : Loaded fs parse done) {file : Path} (hfile : file ∈ done) :
    ∃ program, readProgram fs parse file = .ok program := by
  induction h with
  | nil => cases hfile
  | cons hcanonical hread himports hdone ih =>
    rcases List.mem_cons.mp hfile with rfl | hfile
    · exact ⟨_, hread⟩
    · exact ih hfile

/-- A cache holds the programs of loaded files. -/
def CacheOk (fs : FileSystem) (parse : String → Except String Program) (cache : List (Path × Program)) : Prop :=
  ∃ done, Loaded fs parse done ∧
    ∀ p program, IndexMap.get cache p = some program ↔ p ∈ done ∧ readProgram fs parse p = .ok program

/-- The empty cache holds what was loaded. -/
theorem cacheOk_nil : CacheOk fs parse [] := ⟨[], .nil, fun p program => by simp [IndexMap.get]⟩

/-- What every load keeps, whether it fails or not: the stack does not shrink, the cache stays right and keeps what it has, and no file on
the stack gets into it. -/
structure Grows (fs : FileSystem) (parse : String → Except String Program) (loader loader' : ModuleLoader) : Prop where
  stack : loader.loadingStack <+: loader'.loadingStack
  cache : CacheOk fs parse loader.cache → CacheOk fs parse loader'.cache
  kept : ∀ p, IndexMap.get loader.cache p ≠ none → IndexMap.get loader'.cache p ≠ none
  apart : ∀ p ∈ loader.loadingStack, IndexMap.get loader.cache p = none → IndexMap.get loader'.cache p = none

theorem Grows.refl (loader : ModuleLoader) : Grows fs parse loader loader := ⟨List.prefix_refl _, id, fun _ h => h, fun _ _ h => h⟩

/-- A loader that grows twice grows. -/
theorem Grows.trans {l₁ l₂ l₃ : ModuleLoader} (h : Grows fs parse l₁ l₂) (h' : Grows fs parse l₂ l₃) : Grows fs parse l₁ l₃ :=
  ⟨h.stack.trans h'.stack, fun hok => h'.cache (h.cache hok), fun p hp => h'.kept p (h.kept p hp),
    fun p hp hnone => h'.apart p (h.stack.subset hp) (h.apart p hp hnone)⟩

/-- A file on the stack is growth. -/
theorem grows_push (loader : ModuleLoader) (file : Path) : Grows fs parse loader (loader.push file) :=
  ⟨List.prefix_append _ _, id, fun _ h => h, fun _ _ h => h⟩

/-- A load grows the loader; one that succeeds leaves the stack as it was and the file in the cache. -/
def GrowsLoading (fs : FileSystem) (parse : String → Except String Program) (load : String → Load Program) : Prop :=
  ∀ spelling loader r loader', Ends (load spelling) loader r loader' → Grows fs parse loader loader' ∧
    ∀ program, r = .ok program → loader'.loadingStack = loader.loadingStack ∧
      ∀ p, fs.resolve spelling = .ok p → IndexMap.get loader'.cache p ≠ none

/-- The path of a resolved import is its own spelling. -/
theorem resolve_display {file q : Path} {path : String} (h : resolveImportPath fs file path = .ok q) : fs.resolve q.display = .ok q :=
  resolve_of_canonicalize (canonicalize_of_resolveImportPath h)

/-- Loading imports only adds to the loader. -/
theorem grows_loadImports {load : String → Load Program} (hload : GrowsLoading fs parse load) {file : Path} {imports : List Import}
    {loader loader' : ModuleLoader} {r : Except WebPipeError Unit} (h : Ends (loadImports fs load file imports) loader r loader') :
    Grows fs parse loader loader' ∧ (r = .ok () → loader'.loadingStack = loader.loadingStack ∧
      ∀ i ∈ imports, ∃ q, resolveImportPath fs file i.path = .ok q ∧ IndexMap.get loader'.cache q ≠ none) := by
  induction imports generalizing loader with
  | nil =>
    obtain ⟨l, h⟩ := h
    cases h
    exact ⟨.refl _, fun _ => ⟨rfl, nofun⟩⟩
  | cons i rest ih =>
    rcases loadImports_cons h with ⟨e, -, rfl, rfl⟩ | ⟨q, hq, ⟨e, hfirst, rfl⟩ | ⟨program, loader₁, hfirst, hrest⟩⟩
    · exact ⟨.refl _, nofun⟩
    · exact ⟨(hload _ _ _ _ hfirst).1, nofun⟩
    · obtain ⟨hgrows, hok⟩ := hload _ _ _ _ hfirst
      obtain ⟨hstack, hcached⟩ := hok program rfl
      obtain ⟨hgrows', hok'⟩ := ih hrest
      refine ⟨hgrows.trans hgrows', fun hr => ?_⟩
      obtain ⟨hstack', hcached'⟩ := hok' hr
      exact ⟨hstack'.trans hstack, List.forall_mem_cons.mpr ⟨⟨q, hq, hgrows'.kept q (hcached q (resolve_display hq))⟩, hcached'⟩⟩

/-- A file whose imports are all in the cache can be put there. -/
theorem CacheOk.insert {cache : List (Path × Program)} (h : CacheOk fs parse cache) {file : Path} {program : Program}
    (hcanonical : fs.canonicalize file.display = .ok file) (hread : readProgram fs parse file = .ok program)
    (himports : ∀ i ∈ program.imports, ∃ q, resolveImportPath fs file i.path = .ok q ∧ IndexMap.get cache q ≠ none) :
    CacheOk fs parse (IndexMap.insert cache file program) := by
  obtain ⟨done, hdone, hget⟩ := h
  refine ⟨file :: done, .cons hcanonical hread (fun i hi => ?_) hdone, fun p program' => ?_⟩
  · obtain ⟨q, hq, hcached⟩ := himports i hi
    obtain ⟨program', hprogram⟩ := Option.ne_none_iff_exists'.mp hcached
    exact ⟨q, ((hget q program').mp hprogram).1, hq⟩
  · by_cases hp : p = file
    · subst hp
      rw [IndexMap.get_insert_self, Option.some.injEq]
      constructor
      · rintro rfl
        exact ⟨List.mem_cons_self .., hread⟩
      · rintro ⟨-, hread'⟩
        rw [hread] at hread'
        exact Except.ok.inj hread'
    · rw [IndexMap.get_insert_of_ne _ _ hp, hget p program', List.mem_cons]
      simp [hp]

/-- Loading a module only adds to the loader. -/
theorem grows_loadModule (n : ℕ) : GrowsLoading fs parse (loadModule fs parse n) := by
  induction n with
  | zero =>
    rintro spelling loader r loader' ⟨l, h⟩
    cases h
  | succ n ih =>
    intro spelling loader r loader' h
    cases loadModule_step h with
    | unresolved hresolve => exact ⟨.refl _, nofun⟩
    | cached hresolve hcache =>
      refine ⟨.refl _, fun _ _ => ⟨rfl, fun p hp => ?_⟩⟩
      rw [hresolve] at hp
      cases hp
      rw [hcache]
      nofun
    | circular hresolve hcache hstack => exact ⟨.refl _, nofun⟩
    | unread hresolve hcache hstack hread => exact ⟨grows_push _ _, nofun⟩
    | failed hresolve hcache hstack hread himports => exact ⟨(grows_push _ _).trans (grows_loadImports ih himports).1, nofun⟩
    | @loaded file program loader' hresolve hcache hstack hread himports =>
      obtain ⟨hgrows, hok⟩ := grows_loadImports ih himports
      obtain ⟨hsame, hcached⟩ := hok rfl
      have hpop : (loader'.finish file program).loadingStack = loader.loadingStack := by
        change loader'.loadingStack.dropLast = _
        rw [hsame]
        exact List.dropLast_concat
      have hcanonical : fs.canonicalize file.display = .ok file := by
        unfold FileSystem.resolve at hresolve
        cases hc : fs.canonicalize spelling with
        | error e =>
          rw [hc] at hresolve
          cases hresolve
        | ok q =>
          rw [hc] at hresolve
          cases hresolve
          exact fs.canonical hc
      have hall := (grows_push loader file).trans hgrows
      refine ⟨⟨by rw [hpop], fun hcache => ?_, fun p hp => ?_, fun p hp hnone => ?_⟩, fun _ _ => ⟨hpop, fun p hp => ?_⟩⟩
      · exact (hall.cache hcache).insert hcanonical hread hcached
      · change IndexMap.get (IndexMap.insert loader'.cache file program) p ≠ none
        by_cases hpf : p = file
        · rw [hpf, IndexMap.get_insert_self]
          nofun
        · rw [IndexMap.get_insert_of_ne _ _ hpf]
          exact hall.kept p hp
      · change IndexMap.get (IndexMap.insert loader'.cache file program) p = none
        have hpf : p ≠ file := fun heq => hstack (heq ▸ hp)
        rw [IndexMap.get_insert_of_ne _ _ hpf]
        exact hall.apart p hp hnone
      · rw [hresolve] at hp
        cases hp
        change IndexMap.get (IndexMap.insert loader'.cache file program) file ≠ none
        rw [IndexMap.get_insert_self]
        nofun

/-! ## Loading without a cache -/

/-- Load imports in order, up to the first that fails. -/
def plainImports (fs : FileSystem) (load : String → Option (Except WebPipeError Program)) (file : Path) :
    List Import → Option (Except WebPipeError Unit)
  | [] => some (.ok ())
  | i :: rest =>
    match resolveImportPath fs file i.path with
    | .error e => some (.error e)
    | .ok q =>
      match load q.display with
      | none => none
      | some (.error e) => some (.error e)
      | some (.ok _) => plainImports fs load file rest

/-- What a load answers that remembers nothing but the files it is in. -/
def plainLoad (fs : FileSystem) (parse : String → Except String Program) :
    ℕ → List Path → String → Option (Except WebPipeError Program)
  | 0, _, _ => none
  | n + 1, stack, spelling =>
    match fs.resolve spelling with
    | .error e => some (.error e)
    | .ok file =>
      if stack.contains file then some (.error (.plain .circularImport (formatImportCycle stack file)))
      else
        match readProgram fs parse file with
        | .error e => some (.error e)
        | .ok program =>
          (plainImports fs (plainLoad fs parse n (stack ++ [file])) file program.imports).map fun r => r.map fun _ => program

/-- Different files that can be read. -/
structure StackOk (fs : FileSystem) (stack : List Path) : Prop where
  nodup : stack.Nodup
  files : ∀ p ∈ stack, p ∈ fs.files.map Prod.fst

/-- The stack is no longer than there are files. -/
theorem StackOk.length_le {stack : List Path} (h : StackOk fs stack) : stack.length ≤ fs.files.length := by
  have hle := (List.subperm_of_subset h.nodup h.files).length_le
  rwa [List.length_map] at hle

/-- A new file that can be read may be put on the stack. -/
theorem StackOk.push {stack : List Path} (h : StackOk fs stack) {file : Path} {program : Program} (hnew : file ∉ stack)
    (hread : readProgram fs parse file = .ok program) : StackOk fs (stack ++ [file]) := by
  refine ⟨?_, fun p hp => ?_⟩
  · rw [List.nodup_append]
    refine ⟨h.nodup, List.nodup_singleton _, ?_⟩
    rintro a ha b hb rfl
    rw [List.mem_singleton.mp hb] at ha
    exact hnew ha
  · rcases List.mem_append.mp hp with hp | hp
    · exact h.files p hp
    · rw [List.mem_singleton.mp hp]
      exact mem_files_of_readProgram hread

/-- Imports that are all loaded are loaded without a cache. -/
theorem plainImports_ok {load : String → Option (Except WebPipeError Program)} {file : Path} {imports : List Import}
    (h : ∀ i ∈ imports, ∃ q program, resolveImportPath fs file i.path = .ok q ∧ load q.display = some (.ok program)) :
    plainImports fs load file imports = some (.ok ()) := by
  induction imports with
  | nil => rfl
  | cons i rest ih =>
    obtain ⟨⟨q, program, hq, hload⟩, hrest⟩ := List.forall_mem_cons.mp h
    rw [plainImports, hq]
    dsimp only
    rw [hload]
    exact ih hrest

/-- A load of what was loaded before, with other files on the stack, succeeds. -/
theorem plainLoad_loaded {done : List Path} (h : Loaded fs parse done) {file : Path} (hfile : file ∈ done) {stack : List Path}
    (hstack : StackOk fs stack) (hapart : ∀ q ∈ stack, q ∉ done) {n : ℕ} (hn : fs.files.length < n + stack.length) {spelling : String}
    (hresolve : fs.resolve spelling = .ok file) :
    ∃ program, readProgram fs parse file = .ok program ∧ plainLoad fs parse n stack spelling = some (.ok program) := by
  induction h generalizing file stack n spelling with
  | nil => cases hfile
  | @cons first done program hcanonical hread himports hdone ih =>
    have hapart' : ∀ q ∈ stack, q ∉ done := fun q hq hin => hapart q hq (List.mem_cons_of_mem _ hin)
    by_cases hin : file ∈ done
    · exact ih hin hstack hapart' hn hresolve
    · obtain rfl : file = first := (List.mem_cons.mp hfile).resolve_right hin
      cases n with
      | zero =>
        have hle := hstack.length_le
        omega
      | succ n =>
        have hnew : file ∉ stack := fun hmem => hapart file hmem (List.mem_cons_self ..)
        have hall : plainImports fs (plainLoad fs parse n (stack ++ [file])) file program.imports = some (.ok ()) := by
          refine plainImports_ok fun i hi => ?_
          obtain ⟨q, hq, hpath⟩ := himports i hi
          have hapart₁ : ∀ p ∈ stack ++ [file], p ∉ done := by
            intro p hp
            rcases List.mem_append.mp hp with hp | hp
            · exact hapart' p hp
            · rw [List.mem_singleton.mp hp]
              exact hin
          have hdepth : fs.files.length < n + (stack ++ [file]).length := by
            rw [List.length_append, List.length_singleton]
            omega
          obtain ⟨program', -, hload⟩ := ih hq (hstack.push hnew hread) hapart₁ hdepth (resolve_display hpath)
          exact ⟨q, program', hpath, hload⟩
        refine ⟨program, hread, ?_⟩
        rw [plainLoad, hresolve]
        dsimp only
        rw [if_neg (by rwa [List.contains_iff_mem]), hread]
        dsimp only
        rw [hall]
        rfl

/-! ## The cache does not show -/

/-- A loader whose cache is right and has none of the files on the stack. -/
structure LoaderOk (fs : FileSystem) (parse : String → Except String Program) (loader : ModuleLoader) : Prop where
  cache : CacheOk fs parse loader.cache
  stack : StackOk fs loader.loadingStack
  apart : ∀ p ∈ loader.loadingStack, IndexMap.get loader.cache p = none

/-- A loader that grows, with the stack it had, is as good as before. -/
theorem LoaderOk.of_grows {loader loader' : ModuleLoader} (h : LoaderOk fs parse loader) (hgrows : Grows fs parse loader loader')
    (hsame : loader'.loadingStack = loader.loadingStack) : LoaderOk fs parse loader' := by
  refine ⟨hgrows.cache h.cache, hsame ▸ h.stack, fun p hp => ?_⟩
  rw [hsame] at hp
  exact hgrows.apart p hp (h.apart p hp)

/-- A new file on the stack keeps the loader sound. -/
theorem LoaderOk.push {loader : ModuleLoader} (h : LoaderOk fs parse loader) {file : Path} {program : Program}
    (hnew : file ∉ loader.loadingStack) (hnone : IndexMap.get loader.cache file = none)
    (hread : readProgram fs parse file = .ok program) : LoaderOk fs parse (loader.push file) := by
  refine ⟨h.cache, h.stack.push hnew hread, fun p hp => ?_⟩
  rcases List.mem_append.mp hp with hp | hp
  · exact h.apart p hp
  · rw [List.mem_singleton.mp hp]
    exact hnone

/-- A load answers what one without a cache answers. -/
def Refines (fs : FileSystem) (parse : String → Except String Program) (load : String → Load Program)
    (plain : String → Option (Except WebPipeError Program)) (stack : List Path) : Prop :=
  ∀ spelling loader, LoaderOk fs parse loader → loader.loadingStack = stack →
    ∃ r loader', Ends (load spelling) loader r loader' ∧ plain spelling = some r

/-- Imports end with a cache as they end without one. -/
theorem refines_loadImports {load : String → Load Program} {plain : String → Option (Except WebPipeError Program)} {stack : List Path}
    (hgrows : GrowsLoading fs parse load) (hload : Refines fs parse load plain stack) {file : Path} (imports : List Import)
    {loader : ModuleLoader} (hok : LoaderOk fs parse loader) (hstack : loader.loadingStack = stack) :
    ∃ r loader', Ends (loadImports fs load file imports) loader r loader' ∧ plainImports fs plain file imports = some r := by
  induction imports generalizing loader with
  | nil => exact ⟨.ok (), loader, ends_pure _ _, rfl⟩
  | cons i rest ih =>
    cases hq : resolveImportPath fs file i.path with
    | error e =>
      have hpath : Ends (Prog.ofExcept (resolveImportPath fs file i.path) : Load Path) loader (.error e) loader := by
        rw [hq]
        exact ends_ofExcept _ _
      refine ⟨.error e, loader, ?_, by rw [plainImports, hq]⟩
      rw [loadImports]
      exact hpath.bind_error
    | ok q =>
      have hpath : Ends (Prog.ofExcept (resolveImportPath fs file i.path) : Load Path) loader (.ok q) loader := by
        rw [hq]
        exact ends_ofExcept _ _
      obtain ⟨r, loader₁, hfirst, hplain⟩ := hload q.display loader hok hstack
      cases r with
      | error e =>
        refine ⟨.error e, loader₁, ?_, by rw [plainImports, hq]; dsimp only; rw [hplain]⟩
        rw [loadImports]
        exact hpath.bind hfirst.bind_error
      | ok program =>
        obtain ⟨hgrow, hafter⟩ := hgrows _ _ _ _ hfirst
        obtain ⟨hsame, -⟩ := hafter program rfl
        obtain ⟨r, loader', hrest, hplain'⟩ := ih (hok.of_grows hgrow hsame) (hsame.trans hstack)
        refine ⟨r, loader', ?_, by rw [plainImports, hq]; dsimp only; rw [hplain]; exact hplain'⟩
        rw [loadImports]
        exact hpath.bind (hfirst.bind hrest)

/-- A module ends with a cache as it ends without one: the induction is on the fuel, with the stack growing. -/
theorem refines_loadModule (n : ℕ) {stack : List Path} (hn : fs.files.length < n + stack.length) :
    Refines fs parse (loadModule fs parse n) (plainLoad fs parse n stack) stack := by
  induction n generalizing stack with
  | zero =>
    rintro spelling loader hok rfl
    have hle := hok.stack.length_le
    omega
  | succ n ih =>
    rintro spelling loader hok rfl
    rw [plainLoad]
    cases hresolve : fs.resolve spelling with
    | error e => exact ⟨_, _, ends_of_step (.unresolved hresolve), rfl⟩
    | ok file =>
      dsimp only
      cases hcache : IndexMap.get loader.cache file with
      | some program =>
        -- what is cached would be loaded again
        obtain ⟨done, hdone, hget⟩ := hok.cache
        obtain ⟨hin, hread⟩ := (hget file program).mp hcache
        have hapart : ∀ q ∈ loader.loadingStack, q ∉ done := by
          intro q hq hmem
          obtain ⟨program', hread'⟩ := hdone.readable hmem
          have hnone := hok.apart q hq
          rw [(hget q program').mpr ⟨hmem, hread'⟩] at hnone
          cases hnone
        obtain ⟨program', hread', hplain⟩ := plainLoad_loaded hdone hin hok.stack hapart hn hresolve
        rw [hread] at hread'
        cases hread'
        rw [plainLoad, hresolve] at hplain
        exact ⟨_, _, ends_of_step (.cached hresolve hcache), hplain⟩
      | none =>
        by_cases hstack : file ∈ loader.loadingStack
        · rw [if_pos (List.contains_iff_mem.mpr hstack)]
          exact ⟨_, _, ends_of_step (.circular hresolve hcache hstack), rfl⟩
        · rw [if_neg (by rwa [List.contains_iff_mem])]
          cases hread : readProgram fs parse file with
          | error e => exact ⟨_, _, ends_of_step (.unread hresolve hcache hstack hread), rfl⟩
          | ok program =>
            have hdepth : fs.files.length < n + (loader.loadingStack ++ [file]).length := by
              rw [List.length_append, List.length_singleton]
              omega
            have hload := ih hdepth
            obtain ⟨r, loader', himports, hplain⟩ :=
              refines_loadImports (grows_loadModule n) hload program.imports (hok.push hstack hcache hread) rfl
            dsimp only
            rw [hplain]
            cases r with
            | error e => exact ⟨_, _, ends_of_step (.failed hresolve hcache hstack hread himports), rfl⟩
            | ok u => exact ⟨_, _, ends_of_step (.loaded hresolve hcache hstack hread himports), rfl⟩

/-! ## Failed loads -/

/-- The loaders that come of a new one by loads, whatever their results. -/
inductive Reached (fs : FileSystem) (parse : String → Except String Program) : ModuleLoader → Prop
  | new : Reached fs parse {}
  | load {n spelling loader r loader'} (h : Reached fs parse loader) (hload : Ends (loadModule fs parse n spelling) loader r loader') :
      Reached fs parse loader'

/-- The cache of a loader that was reached holds what was loaded. -/
theorem Reached.cacheOk {loader : ModuleLoader} (h : Reached fs parse loader) : CacheOk fs parse loader.cache := by
  induction h with
  | new => exact cacheOk_nil
  | load _ hload ih => exact (grows_loadModule _ _ _ _ _ hload).1.cache ih

/-- Every later load, as deep as it needs, answers what it does on a new loader. -/
def AnswersAsNew (fs : FileSystem) (parse : String → Except String Program) (loader : ModuleLoader) : Prop :=
  ∀ n > fs.files.length, ∀ spelling, ∃ r loader₁ loader₂,
    Ends (loadModule fs parse n spelling) loader r loader₁ ∧ Ends (loadModule fs parse n spelling) {} r loader₂

/-- With an empty stack, the answers are those of a new loader. -/
theorem answersAsNew {loader : ModuleLoader} (hcache : CacheOk fs parse loader.cache) (hempty : loader.loadingStack = []) :
    AnswersAsNew fs parse loader := by
  intro n hn spelling
  have hnil : StackOk fs [] := ⟨List.nodup_nil, nofun⟩
  have hok : LoaderOk fs parse loader := ⟨hcache, hempty ▸ hnil, by rw [hempty]; nofun⟩
  have hnew : LoaderOk fs parse {} := ⟨cacheOk_nil, hnil, nofun⟩
  have hrefines := @refines_loadModule fs parse n [] (by simpa using hn)
  obtain ⟨r, loader₁, hrun, hplain⟩ := hrefines spelling loader hok hempty
  obtain ⟨r', loader₂, hrun', hplain'⟩ := hrefines spelling {} hnew rfl
  rw [hplain, Option.some.injEq] at hplain'
  exact ⟨r, loader₁, loader₂, hrun, hplain' ▸ hrun'⟩

/-- A load that fails leaves no trace exactly when its path could not be resolved. -/
theorem failed_load_iff {loader loader' : ModuleLoader} (hreached : Reached fs parse loader) (hempty : loader.loadingStack = []) {n : ℕ}
    {spelling : String} {e : WebPipeError} (hfail : Ends (loadModule fs parse n spelling) loader (.error e) loader') :
    (loader'.loadingStack = [] ∧ AnswersAsNew fs parse loader') ↔ ∃ reason, fs.canonicalize spelling = .error reason := by
  cases n with
  | zero =>
    obtain ⟨l, h⟩ := hfail
    cases h
  | succ n =>
    have hresolved : ∀ {file}, fs.resolve spelling = .ok file → ¬∃ reason, fs.canonicalize spelling = .error reason := by
      rintro file hresolve ⟨reason, hreason⟩
      unfold FileSystem.resolve at hresolve
      rw [hreason] at hresolve
      cases hresolve
    cases loadModule_step hfail with
    | unresolved hresolve =>
      refine iff_of_true ⟨hempty, answersAsNew hreached.cacheOk hempty⟩ ?_
      cases hreason : fs.canonicalize spelling with
      | error reason => exact ⟨reason, rfl⟩
      | ok file =>
        rw [resolve_of_canonicalize hreason] at hresolve
        cases hresolve
    | circular hresolve hcache hstack =>
      rw [hempty] at hstack
      cases hstack
    | unread hresolve hcache hstack hread =>
      refine iff_of_false ?_ (hresolved hresolve)
      rintro ⟨hnil, -⟩
      exact List.append_ne_nil_of_right_ne_nil _ (List.cons_ne_nil _ _) hnil
    | failed hresolve hcache hstack hread himports =>
      -- whatever the imports add to the stack, the file stays on it
      have hgrows := (grows_loadImports (grows_loadModule n) himports).1
      refine iff_of_false ?_ (hresolved hresolve)
      rintro ⟨hnil, -⟩
      have hprefix := hgrows.stack
      rw [hnil, List.prefix_nil] at hprefix
      exact List.append_ne_nil_of_right_ne_nil _ (List.cons_ne_nil _ _) hprefix

/-- A path that does not exist leaves nothing behind. -/
theorem missing_path_leaves_nothing : ∃ e, Ends (loadModule libFiles parseLib 1 "/nowhere") {} (.error e) {} ∧
    AnswersAsNew libFiles parseLib {} := by
  have hmissing : libFiles.canonicalize "/nowhere" = .error "No such file or directory" := by decide +kernel
  have hresolve : libFiles.resolve "/nowhere" = .error (.plain .importNotFound "Cannot resolve path '/nowhere': No such file or directory") := by
    unfold FileSystem.resolve
    rw [hmissing]
    rfl
  have hfail := @ends_of_step libFiles parseLib 0 _ {} _ _ (.unresolved hresolve)
  exact ⟨_, hfail, ((failed_load_iff .new rfl hfail).mpr ⟨_, hmissing⟩).2⟩

/-- No file parses. -/
def parseNothing (_ : String) : Except String Program := .error "unexpected end of input"

/-- A file that does not parse stays on the stack, and is circular when it is loaded again. -/
theorem broken_file_stays : ¬∀ loader loader' n spelling e, Reached libFiles parseNothing loader → loader.loadingStack = [] →
    Ends (loadModule libFiles parseNothing n spelling) loader (.error e) loader' →
    loader'.loadingStack = [] ∧ AnswersAsNew libFiles parseNothing loader' := by
  intro h
  have hpath : libFiles.resolve "/main" = .ok ["main"] := resolve_of_canonicalize (by decide +kernel)
  have hfail := @ends_of_step libFiles parseNothing 0 _ {} _ _ (.unread hpath rfl List.not_mem_nil rfl)
  have hempty := (h _ _ _ _ _ .new rfl hfail).1
  cases hempty

end WebPipe

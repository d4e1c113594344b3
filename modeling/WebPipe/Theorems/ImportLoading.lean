import WebPipe.Lib.Dfs
import WebPipe.Lib.Text
import WebPipe.Loader

/-!
# Loading decides whether imports are circular

`load_module` is a depth-first search of the import graph: the cache is its memory, the loading stack where it is. So it ends, it
fails exactly when there is a cycle among the files that can be reached, and the module tree has every one of them once.
-/

namespace WebPipe

variable {fs : FileSystem} {parse : String → Except String Program}

/-! ## The import graph -/

/-- The files that a file imports. -/
def importsOf (fs : FileSystem) (parse : String → Except String Program) (file : Path) : List Path :=
  match readProgram fs parse file with
  | .ok program => program.imports.filterMap fun i => (resolveImportPath fs file i.path).toOption
  | .error _ => []

/-- Every file that can be reached from a file can be read and parsed, and so can what it imports be found. -/
def Readable (fs : FileSystem) (parse : String → Except String Program) (file : Path) : Prop :=
  ∀ p, Dfs.Reaches (importsOf fs parse) file p → ∃ program, readProgram fs parse p = .ok program ∧
    ∀ i ∈ program.imports, ∃ q, resolveImportPath fs p i.path = .ok q

/-- No file that can be reached imports itself, directly or through others. -/
def Acyclic (fs : FileSystem) (parse : String → Except String Program) (file : Path) : Prop :=
  ∀ p, Dfs.Reaches (importsOf fs parse) file p → ¬ Dfs.OnCycle (importsOf fs parse) p

/-- Where a loader stands in the search. -/
structure Holds (fs : FileSystem) (parse : String → Except String Program) (loader : ModuleLoader) (stack done : List Path) : Prop where
  stack : loader.loadingStack = stack.reverse
  cached : ∀ p ∈ done, ∃ program, readProgram fs parse p = .ok program ∧ IndexMap.get loader.cache p = some program
  fresh : ∀ p, p ∉ done → IndexMap.get loader.cache p = none

/-- A new loader holds nothing. -/
theorem holds_fresh : Holds fs parse {} [] [] := ⟨rfl, nofun, fun _ _ => rfl⟩

/-- A canonical path is its own resolution. -/
theorem resolve_of_canonicalize {spelling : String} {p : Path} (h : fs.canonicalize spelling = .ok p) : fs.resolve spelling = .ok p := by
  unfold FileSystem.resolve
  rw [h]
  rfl

/-- A resolved import is canonical. -/
theorem canonicalize_of_resolveImportPath {file p : Path} {path : String} (h : resolveImportPath fs file path = .ok p) :
    fs.canonicalize p.display = .ok p := by
  unfold resolveImportPath at h
  split at h
  · cases h
  · cases hc : fs.canonicalize (Path.join file.dropLast path) with
    | error e =>
      rw [hc] at h
      cases h
    | ok q =>
      rw [hc] at h
      cases h
      exact fs.canonical hc

/-- The load agrees with an answer of the search: out of fuel, a circular import, or the program and the files that were loaded. -/
def Agrees (fs : FileSystem) (parse : String → Except String Program) {α : Type} (stack : List Path) (x : Load α) (loader : ModuleLoader)
    (ok : α → Prop) : Option (Dfs.Answer Path) → Prop
  | none => x loader = none
  | some .cycle => ∃ text loader', x loader = some (.error (.plain .circularImport text), loader', [])
  | some (.through done') => ∃ a loader', x loader = some (.ok a, loader', []) ∧ ok a ∧ Holds fs parse loader' stack done'

/-- What is known of the result may be forgotten. -/
theorem Agrees.weaken {α : Type} {stack : List Path} {x : Load α} {loader : ModuleLoader} {ok : α → Prop}
    {answer : Option (Dfs.Answer Path)} (h : Agrees fs parse stack x loader ok answer) :
    Agrees fs parse stack x loader (fun _ => True) answer := by
  cases answer with
  | none => exact h
  | some answer =>
    cases answer with
    | cycle => exact h
    | through done' =>
      obtain ⟨a, loader', hrun, -, hholds⟩ := h
      exact ⟨a, loader', hrun, trivial, hholds⟩

/-- Loading the imports of a file agrees with searching from them. -/
theorem agrees_loadImports {load : String → Load Program} {visit : List Path → Path → Option (Dfs.Answer Path)} {file : Path}
    {stack : List Path} {imports : List Import} (hfound : ∀ i ∈ imports, ∃ q, resolveImportPath fs file i.path = .ok q)
    (hload : ∀ i ∈ imports, ∀ q, resolveImportPath fs file i.path = .ok q → ∀ loader done, Holds fs parse loader stack done →
      Agrees fs parse stack (load q.display) loader (fun _ => True) (visit done q))
    {loader : ModuleLoader} {done : List Path} (hholds : Holds fs parse loader stack done) :
    Agrees fs parse stack (loadImports fs load file imports) loader (fun _ => True)
      (Dfs.visitAll visit done (imports.filterMap fun i => (resolveImportPath fs file i.path).toOption)) := by
  induction imports generalizing loader done with
  | nil => exact ⟨(), loader, rfl, trivial, hholds⟩
  | cons i imports ih =>
    obtain ⟨q, hq⟩ := hfound i List.mem_cons_self
    have hfirst := hload i List.mem_cons_self q hq loader done hholds
    have hresolve : (Prog.ofExcept (resolveImportPath fs file i.path) : Load Path) loader = some (.ok q, loader, []) := by
      rw [hq]
      rfl
    have hcons : (i :: imports).filterMap (fun i => (resolveImportPath fs file i.path).toOption) =
        q :: imports.filterMap fun i => (resolveImportPath fs file i.path).toOption := by
      rw [List.filterMap_cons, hq]
      rfl
    have hstep : loadImports fs load file (i :: imports) loader =
        (load q.display >>= fun _ => loadImports fs load file imports) loader := by
      rw [loadImports, Prog.bind_of_quiet hresolve]
    rw [hcons, Dfs.visitAll]
    cases hv : visit done q with
    | none =>
      rw [hv] at hfirst
      exact hstep.trans (Prog.bind_of_none hfirst)
    | some answer =>
      rw [hv] at hfirst
      cases answer with
      | cycle =>
        obtain ⟨text, loader', hcycle⟩ := hfirst
        exact ⟨text, loader', hstep.trans (Prog.bind_of_error hcycle)⟩
      | through done' =>
        obtain ⟨program, loader', hok, -, hholds'⟩ := hfirst
        have hrest := ih (fun j hj => hfound j (List.mem_cons_of_mem _ hj)) (fun j hj => hload j (List.mem_cons_of_mem _ hj)) hholds'
        unfold Agrees at hrest ⊢
        rw [hstep, Prog.bind_of_quiet hok]
        exact hrest

/-- The files that a program imports. -/
theorem importsOf_of_readProgram {file : Path} {program : Program} (h : readProgram fs parse file = .ok program) :
    importsOf fs parse file = program.imports.filterMap fun i => (resolveImportPath fs file i.path).toOption := by
  unfold importsOf
  rw [h]

/-- An import leads to the file it is resolved to. -/
theorem leads_of_import {file q : Path} {program : Program} (h : readProgram fs parse file = .ok program) {i : Import}
    (hi : i ∈ program.imports) (hq : resolveImportPath fs file i.path = .ok q) : Dfs.Leads (importsOf fs parse) file q := by
  unfold Dfs.Leads
  rw [importsOf_of_readProgram h]
  exact List.mem_filterMap.mpr ⟨i, hi, by rw [hq]; rfl⟩

/-- Loading a file agrees with the search from it. -/
theorem agrees_loadModule (n : ℕ) {stack : List Path} {file : Path} (hread : Readable fs parse file) {spelling : String}
    (hpath : fs.canonicalize spelling = .ok file) {loader : ModuleLoader} {done : List Path} (hholds : Holds fs parse loader stack done) :
    Agrees fs parse stack (loadModule fs parse n spelling) loader (fun program => readProgram fs parse file = .ok program)
      (Dfs.visit (importsOf fs parse) n stack done file) := by
  induction n generalizing stack file spelling loader done with
  | zero => rfl
  | succ n ih =>
    have hresolve : (Prog.ofExcept (fs.resolve spelling) : Load Path) loader = some (.ok file, loader, []) := by
      rw [resolve_of_canonicalize hpath]
      rfl
    obtain ⟨program, hprogram, hfound⟩ := hread file .refl
    rw [Dfs.visit]
    by_cases hdone : file ∈ done
    · obtain ⟨program', hprogram', hget⟩ := hholds.cached file hdone
      rw [if_pos hdone]
      refine ⟨program', loader, ?_, hprogram', hholds⟩
      rw [loadModule, Prog.bind_of_quiet hresolve, Prog.gets_bind, hget]
      rfl
    rw [if_neg hdone]
    have hnone : IndexMap.get loader.cache file = none := hholds.fresh file hdone
    by_cases hstack : file ∈ stack
    · rw [if_pos hstack]
      have hin : file ∈ loader.loadingStack := by
        rw [hholds.stack]
        exact List.mem_reverse.mpr hstack
      refine ⟨formatImportCycle loader.loadingStack file, loader, ?_⟩
      rw [loadModule, Prog.bind_of_quiet hresolve, Prog.gets_bind, hnone]
      dsimp only
      rw [Prog.gets_bind, if_pos hin]
      rfl
    rw [if_neg hstack]
    have hout : file ∉ loader.loadingStack := by
      rw [hholds.stack]
      exact fun hin => hstack (List.mem_reverse.mp hin)
    -- the imports are loaded with the file on the stack
    let pushed : ModuleLoader := { loader with loadingStack := loader.loadingStack ++ [file] }
    have hpushed : Holds fs parse pushed (file :: stack) done := by
      refine ⟨?_, hholds.cached, hholds.fresh⟩
      change loader.loadingStack ++ [file] = _
      rw [hholds.stack, List.reverse_cons]
    have hprogram' : (Prog.ofExcept (readProgram fs parse file) : Load Program) pushed = some (.ok program, pushed, []) := by
      rw [hprogram]
      rfl
    have hstep : loadModule fs parse (n + 1) spelling loader = (loadImports fs (loadModule fs parse n) file program.imports >>= fun _ => do
        Prog.modify fun loader =>
          { cache := IndexMap.insert loader.cache file program, loadingStack := loader.loadingStack.dropLast }
        pure program) pushed := by
      rw [loadModule, Prog.bind_of_quiet hresolve, Prog.gets_bind, hnone]
      dsimp only
      rw [Prog.gets_bind, if_neg hout, Prog.modify_bind, Prog.bind_of_quiet hprogram']
    have hload : ∀ i ∈ program.imports, ∀ q, resolveImportPath fs file i.path = .ok q → ∀ loader' done',
        Holds fs parse loader' (file :: stack) done' → Agrees fs parse (file :: stack) (loadModule fs parse n q.display) loader'
          (fun _ => True) (Dfs.visit (importsOf fs parse) n (file :: stack) done' q) := by
      intro i hi q hq loader' done' hholds'
      have hreadq : Readable fs parse q := fun p hp => hread p (.head (leads_of_import hprogram hi hq) hp)
      exact (ih hreadq (canonicalize_of_resolveImportPath hq) hholds').weaken
    have himports := agrees_loadImports hfound hload hpushed
    rw [importsOf_of_readProgram hprogram]
    unfold Agrees at himports ⊢
    rw [hstep]
    cases hv : Dfs.visitAll (Dfs.visit (importsOf fs parse) n (file :: stack)) done
        (program.imports.filterMap fun i => (resolveImportPath fs file i.path).toOption) with
    | none =>
      rw [hv] at himports
      exact Prog.bind_of_none himports
    | some answer =>
      rw [hv] at himports
      cases answer with
      | cycle =>
        obtain ⟨text, loader', hcycle⟩ := himports
        exact ⟨text, loader', Prog.bind_of_error hcycle⟩
      | through done' =>
        obtain ⟨_, loader', hok, -, hholds'⟩ := himports
        refine ⟨program, { cache := IndexMap.insert loader'.cache file program, loadingStack := loader'.loadingStack.dropLast }, ?_,
          hprogram, ?_, fun p hp => ?_, fun p hp => ?_⟩
        · rw [Prog.bind_of_quiet hok, Prog.modify_bind]
          rfl
        · dsimp only
          rw [hholds'.stack, List.reverse_cons, List.dropLast_concat]
        · by_cases hpf : p = file
          · subst hpf
            exact ⟨program, hprogram, IndexMap.get_insert_self _ _ _⟩
          · obtain ⟨program'', hread'', hget⟩ := hholds'.cached p ((List.mem_cons.mp hp).resolve_left hpf)
            exact ⟨program'', hread'', (IndexMap.get_insert_of_ne _ _ hpf).trans hget⟩
        · have hpf : p ≠ file := fun h => hp (h ▸ List.mem_cons_self)
          exact (IndexMap.get_insert_of_ne _ _ hpf).trans (hholds'.fresh p fun hin => hp (List.mem_cons_of_mem _ hin))

/-! ## What is decided -/

/-- What is read is a file. -/
theorem mem_files_of_readProgram {file : Path} {program : Program} (h : readProgram fs parse file = .ok program) :
    file ∈ fs.files.map Prod.fst := by
  by_contra hout
  unfold readProgram at h
  rw [IndexMap.get_eq_none_iff.mpr hout] at h
  cases h

/-- A search as deep as there are files ends. -/
theorem visit_decides {file : Path} (hread : Readable fs parse file) {n : ℕ} (hn : fs.files.length < n) {done : List Path}
    (hordered : Dfs.Ordered (importsOf fs parse) done) :
    (∃ done', Dfs.visit (importsOf fs parse) n [] done file = some (.through done') ∧
        Dfs.Through (importsOf fs parse) [] done [file] done') ∨
      Dfs.visit (importsOf fs parse) n [] done file = some .cycle ∧ ¬ Acyclic fs parse file := by
  classical
  -- the files that can be reached are closed under imports
  let nodes : Finset Path := (fs.files.map Prod.fst).toFinset.filter (Dfs.Reaches (importsOf fs parse) file)
  have hmem : ∀ p, Dfs.Reaches (importsOf fs parse) file p → p ∈ nodes := by
    intro p hp
    obtain ⟨program, hprogram, -⟩ := hread p hp
    exact Finset.mem_filter.mpr ⟨List.mem_toFinset.mpr (mem_files_of_readProgram hprogram), hp⟩
  have hclosed : ∀ v ∈ nodes, ∀ u ∈ importsOf fs parse v, u ∈ nodes :=
    fun v hv u hu => hmem u (.tail (Finset.mem_filter.mp hv).2 hu)
  have hcard : nodes.card < n := by
    have h₁ : nodes.card ≤ (fs.files.map Prod.fst).toFinset.card := Finset.card_filter_le _ _
    have h₂ : (fs.files.map Prod.fst).toFinset.card ≤ (fs.files.map Prod.fst).length := List.toFinset_card_le _
    rw [List.length_map] at h₂
    omega
  rcases Dfs.visit_cases hclosed hcard (hmem file .refl) hordered with hthrough | ⟨hcycle, p, hreach, hon⟩
  · exact Or.inl hthrough
  · exact Or.inr ⟨hcycle, fun hacyclic => hacyclic p hreach hon⟩

/-- Readable files reach readable files. -/
theorem Readable.of_reaches {file p : Path} (h : Readable fs parse file) (hp : Dfs.Reaches (importsOf fs parse) file p) :
    Readable fs parse p := fun q hq => h q (hp.trans hq)

/-- Without a cycle from a file there is none from those it reaches. -/
theorem Acyclic.of_reaches {file p : Path} (h : Acyclic fs parse file) (hp : Dfs.Reaches (importsOf fs parse) file p) :
    Acyclic fs parse p := fun q hq => h q (hp.trans hq)

/-- Where a search got through there is no cycle. -/
theorem acyclic_of_through {file : Path} {done : List Path} (h : Dfs.Through (importsOf fs parse) [] [] [file] done) :
    Acyclic fs parse file :=
  fun _ hreach => h.ordered.not_onCycle (h.ordered.reaches_mem (h.mem file List.mem_cons_self) hreach)

/-- A loader that has loaded nothing decides whether imports are circular. -/
theorem loadModule_decides {file : Path} (hread : Readable fs parse file) {spelling : String} (hpath : fs.canonicalize spelling = .ok file)
    {n : ℕ} (hn : fs.files.length < n) :
    (Acyclic fs parse file ∧ ∃ program loader' done, loadModule fs parse n spelling {} = some (.ok program, loader', []) ∧
        readProgram fs parse file = .ok program ∧ Holds fs parse loader' [] done ∧ Dfs.Ordered (importsOf fs parse) done) ∨
      ¬ Acyclic fs parse file ∧ ∃ text loader', loadModule fs parse n spelling {} = some (.error (.plain .circularImport text), loader', []) := by
  have hagrees := agrees_loadModule n hread hpath holds_fresh
  rcases visit_decides hread hn (show Dfs.Ordered (importsOf fs parse) [] from trivial) with ⟨done', hvisit, hthrough⟩ | ⟨hvisit, hcyclic⟩
  · rw [hvisit] at hagrees
    obtain ⟨program, loader', hrun, hprogram, hholds⟩ := hagrees
    exact Or.inl ⟨acyclic_of_through hthrough, program, loader', done', hrun, hprogram, hholds, hthrough.ordered⟩
  · rw [hvisit] at hagrees
    exact Or.inr ⟨hcyclic, hagrees⟩

/-! ## The module tree -/

/-- The import map that the imports of a file declare; of two imports with one alias the later counts. -/
def declaredImports (fs : FileSystem) (file : Path) (imports : List Import) : List (String × Path) :=
  imports.filterMap fun i => (resolveImportPath fs file i.path).toOption.map fun q => (i.alias, q)

/-- The entry of a module: its program, and the import map that its imports declare. -/
structure EntryOk (fs : FileSystem) (parse : String → Except String Program) (p : Path) (info : ModuleInfo) : Prop where
  path : info.path = p
  program : readProgram fs parse p = .ok info.program
  imports : info.imports = IndexMap.insertAll [] (declaredImports fs p info.program.imports)

/-- The entry that a program of a file gets. -/
def entryOf (fs : FileSystem) (file : Path) (program : Program) : ModuleInfo :=
  { path := file, program := program, imports := IndexMap.insertAll [] (declaredImports fs file program.imports) }

/-- The modules loaded so far, in the order of the search. -/
structure TreeOk (fs : FileSystem) (parse : String → Except String Program) (tree : ModuleTree) (done : List Path) : Prop where
  keys : tree.map Prod.fst = done.reverse
  entries : ∀ p info, (p, info) ∈ tree → EntryOk fs parse p info

/-- A loader that is not in a load. -/
def Ready (fs : FileSystem) (parse : String → Except String Program) (loader : ModuleLoader) : Prop :=
  ∃ done, Holds fs parse loader [] done ∧ Dfs.Ordered (importsOf fs parse) done

/-- The load comes to the module tree of the nodes. -/
def Collects (fs : FileSystem) (parse : String → Except String Program) (x : Load ModuleTree) (loader : ModuleLoader) (done : List Path) :
    Prop :=
  ∃ tree loader', x loader = some (.ok tree, loader', []) ∧ TreeOk fs parse tree done ∧ Ready fs parse loader'

/-- The tree has an entry for every file that was loaded. -/
theorem TreeOk.get_isSome {tree : ModuleTree} {done : List Path} (h : TreeOk fs parse tree done) (p : Path) :
    (IndexMap.get tree p).isSome ↔ p ∈ done := by
  rw [← not_iff_not, Bool.not_eq_true, Option.isSome_eq_false_iff, Option.isNone_iff_eq_none, IndexMap.get_eq_none_iff, h.keys,
    List.mem_reverse]

/-- Collecting the imports of a file comes to its import map and to the modules that a search from them gathers. -/
theorem collectImports_ok {load : ModuleTree → String → Load ModuleTree} {gather : List Path → Path → Option (List Path)} {file : Path}
    {imports : List Import} (hfound : ∀ i ∈ imports, ∃ q, resolveImportPath fs file i.path = .ok q)
    (hload : ∀ i ∈ imports, ∀ q, resolveImportPath fs file i.path = .ok q → ∀ tree loader done done', TreeOk fs parse tree done →
      Ready fs parse loader → gather done q = some done' → Collects fs parse (load tree q.display) loader done')
    (importMap : List (String × Path)) {tree : ModuleTree} {loader : ModuleLoader} {done done' : List Path}
    (htree : TreeOk fs parse tree done) (hready : Ready fs parse loader)
    (hgather : Dfs.gatherAll gather done (imports.filterMap fun i => (resolveImportPath fs file i.path).toOption) = some done') :
    ∃ tree' loader', collectImports fs load file imports importMap tree loader =
        some (.ok (IndexMap.insertAll importMap (declaredImports fs file imports), tree'), loader', []) ∧
      TreeOk fs parse tree' done' ∧ Ready fs parse loader' := by
  induction imports generalizing importMap tree loader done with
  | nil =>
    cases hgather
    exact ⟨tree, loader, rfl, htree, hready⟩
  | cons i imports ih =>
    obtain ⟨q, hq⟩ := hfound i List.mem_cons_self
    have hresolve : (Prog.ofExcept (resolveImportPath fs file i.path) : Load Path) loader = some (.ok q, loader, []) := by
      rw [hq]
      rfl
    have hcons : (i :: imports).filterMap (fun i => (resolveImportPath fs file i.path).toOption) =
        q :: imports.filterMap fun i => (resolveImportPath fs file i.path).toOption := by
      rw [List.filterMap_cons, hq]
      rfl
    have hdeclared : declaredImports fs file (i :: imports) = (i.alias, q) :: declaredImports fs file imports := by
      unfold declaredImports
      rw [List.filterMap_cons, hq]
      rfl
    rw [hcons, Dfs.gatherAll] at hgather
    obtain ⟨done₁, hfirst, hrest⟩ := Option.bind_eq_some_iff.mp hgather
    obtain ⟨tree₁, loader₁, hrun, htree₁, hready₁⟩ := hload i List.mem_cons_self q hq tree loader done done₁ htree hready hfirst
    obtain ⟨tree', loader', hcollect, htree', hready'⟩ := ih (fun j hj => hfound j (List.mem_cons_of_mem _ hj))
      (fun j hj => hload j (List.mem_cons_of_mem _ hj)) (IndexMap.insert importMap i.alias q) htree₁ hready₁ hrest
    refine ⟨tree', loader', ?_, htree', hready'⟩
    rw [collectImports, Prog.bind_of_quiet hresolve, Prog.bind_of_quiet hrun, hcollect, hdeclared]
    rfl

/-- Loading the tree from a file comes to the modules that a search from it gathers. -/
theorem loadRecursive_collects {depth : ℕ} (hdepth : fs.files.length < depth) {n : ℕ} {file : Path} (hread : Readable fs parse file)
    (hacyclic : Acyclic fs parse file) {spelling : String} (hpath : fs.canonicalize spelling = .ok file) {tree : ModuleTree}
    {loader : ModuleLoader} {done done' : List Path} (htree : TreeOk fs parse tree done) (hready : Ready fs parse loader)
    (hgather : Dfs.gather (importsOf fs parse) n done file = some done') :
    Collects fs parse (loadRecursive fs parse depth n tree spelling) loader done' := by
  induction n generalizing file spelling tree loader done done' with
  | zero => cases hgather
  | succ n ih =>
    have hresolve : (Prog.ofExcept (fs.resolve spelling) : Load Path) loader = some (.ok file, loader, []) := by
      rw [resolve_of_canonicalize hpath]
      rfl
    rw [Dfs.gather] at hgather
    by_cases hdone : file ∈ done
    · rw [if_pos hdone] at hgather
      cases hgather
      refine ⟨tree, loader, ?_, htree, hready⟩
      rw [loadRecursive, Prog.bind_of_quiet hresolve, if_pos ((htree.get_isSome file).mpr hdone)]
      rfl
    rw [if_neg hdone] at hgather
    obtain ⟨done₁, hnext, rfl⟩ := Option.map_eq_some_iff.mp hgather
    -- the program comes from the loader
    obtain ⟨loaded, hholds, hordered⟩ := hready
    have hagrees := agrees_loadModule depth hread (fs.canonical hpath) hholds
    obtain ⟨program, loader₁, hrun, hprogram, hready₁⟩ : ∃ program loader₁,
        loadModule fs parse depth file.display loader = some (.ok program, loader₁, []) ∧
          readProgram fs parse file = .ok program ∧ Ready fs parse loader₁ := by
      rcases visit_decides hread hdepth hordered with ⟨loaded', hvisit, hthrough⟩ | ⟨-, hcyclic⟩
      · rw [hvisit] at hagrees
        obtain ⟨program, loader₁, hrun, hprogram, hholds₁⟩ := hagrees
        exact ⟨program, loader₁, hrun, hprogram, loaded', hholds₁, hthrough.ordered⟩
      · exact absurd hacyclic hcyclic
    obtain ⟨program', hprogram', hfound⟩ := hread file .refl
    rw [hprogram] at hprogram'
    cases hprogram'
    rw [importsOf_of_readProgram hprogram] at hnext
    have hload : ∀ i ∈ program.imports, ∀ q, resolveImportPath fs file i.path = .ok q → ∀ tree loader done done',
        TreeOk fs parse tree done → Ready fs parse loader → Dfs.gather (importsOf fs parse) n done q = some done' →
          Collects fs parse (loadRecursive fs parse depth n tree q.display) loader done' := by
      intro i hi q hq tree loader done done' htree hready hgather
      have hlead := Relation.ReflTransGen.single (leads_of_import hprogram hi hq)
      exact ih (hread.of_reaches hlead) (hacyclic.of_reaches hlead) (canonicalize_of_resolveImportPath hq) htree hready hgather
    obtain ⟨tree₁, loader₂, hcollect, htree₁, hready₂⟩ := collectImports_ok hfound hload [] htree hready₁ hnext
    have hnew : (IndexMap.get tree file).isSome = false :=
      Bool.eq_false_iff.mpr fun h => hdone ((htree.get_isSome file).mp h)
    -- a file that was gathered from its own imports would be on a cycle
    have hnotin : file ∉ done₁ := by
      intro hin
      rcases Dfs.mem_gatherAll Dfs.mem_gather hnext file hin with hin | ⟨q, hq, hreach⟩
      · exact hdone hin
      · rw [← importsOf_of_readProgram hprogram] at hq
        exact hacyclic file .refl (Relation.TransGen.head' hq hreach)
    have hfresh : IndexMap.get tree₁ file = none := by
      rw [IndexMap.get_eq_none_iff, htree₁.keys, List.mem_reverse]
      exact hnotin
    refine ⟨IndexMap.insert tree₁ file (entryOf fs file program), loader₂, ?_, ?_, hready₂⟩
    · rw [loadRecursive, Prog.bind_of_quiet hresolve, hnew, if_neg Bool.false_ne_true, Prog.bind_of_quiet hrun,
        Prog.bind_of_quiet hcollect]
      rfl
    · rw [IndexMap.insert_of_get_none hfresh]
      refine ⟨by rw [List.map_append, htree₁.keys, List.reverse_cons]; rfl, fun p info hin => ?_⟩
      rcases List.mem_append.mp hin with hin | hin
      · exact htree₁.entries p info hin
      · cases List.mem_singleton.mp hin
        exact ⟨rfl, hprogram, rfl⟩

/-! ## The decision -/

/-- The module tree of a file: one entry for every file that can be reached, with its program and its import map. -/
structure IsModuleTree (fs : FileSystem) (parse : String → Except String Program) (file : Path) (tree : ModuleTree) : Prop where
  distinct : IndexMap.Distinct tree
  keys : ∀ p, p ∈ tree.map Prod.fst ↔ Dfs.Reaches (importsOf fs parse) file p
  entries : ∀ p info, (p, info) ∈ tree → EntryOk fs parse p info

/-- An acyclic tree of readable files is loaded, with the maps of its imports. -/
theorem loadModuleTree_ok {n : ℕ} (hn : fs.files.length < n) {file : Path} (hread : Readable fs parse file)
    (hacyclic : Acyclic fs parse file) {spelling : String} (hpath : fs.canonicalize spelling = .ok file) {loader : ModuleLoader}
    (hready : Ready fs parse loader) :
    ∃ tree loader', loadModuleTree fs parse n spelling loader = some (.ok tree, loader', []) ∧ IsModuleTree fs parse file tree := by
  rcases visit_decides hread hn (show Dfs.Ordered (importsOf fs parse) [] from trivial) with ⟨done', hvisit, hthrough⟩ | ⟨-, hcyclic⟩
  · have hempty : TreeOk fs parse [] [] := ⟨rfl, nofun⟩
    obtain ⟨tree, loader', hrun, htree, -⟩ := loadRecursive_collects hn hread hacyclic hpath hempty hready
      (Dfs.gather_of_visit hvisit)
    refine ⟨tree, loader', hrun, ?_, fun p => ?_, htree.entries⟩
    · unfold IndexMap.Distinct
      rw [htree.keys, List.nodup_reverse]
      exact hthrough.ordered.nodup
    · rw [htree.keys, List.mem_reverse]
      constructor
      · intro hp
        rcases hthrough.only p hp with hp | ⟨v, hv, hreach⟩
        · cases hp
        · cases List.mem_singleton.mp hv
          exact hreach
      · exact hthrough.ordered.reaches_mem (hthrough.mem file List.mem_cons_self)
  · exact absurd hacyclic hcyclic

/-- Where everything that can be reached from a file can be read, a new loader ends; it succeeds exactly when there is no cycle to be
reached, and fails with a circular import otherwise; and where it succeeds, it or another new loader loads the module tree. -/
theorem load_module_decides (fs : FileSystem) (parse : String → Except String Program) (spelling : String) (file : Path)
    (hpath : fs.canonicalize spelling = .ok file) (hread : Readable fs parse file) (n : ℕ) (hn : fs.files.length < n) :
    ∃ r loader, loadModule fs parse n spelling {} = some (r, loader, []) ∧
      ((∃ program, r = .ok program) ↔ Acyclic fs parse file) ∧
      (∀ program, r = .ok program → readProgram fs parse file = .ok program) ∧
      (∀ e, r = .error e → ∃ text, e = .plain .circularImport text) ∧
      (Acyclic fs parse file → ∀ start, start = {} ∨ start = loader → ∃ tree loader',
        loadModuleTree fs parse n spelling start = some (.ok tree, loader', []) ∧ IsModuleTree fs parse file tree) := by
  rcases loadModule_decides hread hpath hn with ⟨hacyclic, program, loader, done, hrun, hprogram, hholds, hordered⟩ |
    ⟨hcyclic, text, loader, hrun⟩
  · refine ⟨_, loader, hrun, ⟨fun _ => hacyclic, fun _ => ⟨program, rfl⟩⟩, fun program' h => ?_, nofun, fun _ start hstart => ?_⟩
    · cases h
      exact hprogram
    · have hready : Ready fs parse start := by
        rcases hstart with rfl | rfl
        · exact ⟨[], holds_fresh, trivial⟩
        · exact ⟨done, hholds, hordered⟩
      exact loadModuleTree_ok hn hread hacyclic hpath hready
  · refine ⟨_, loader, hrun, ⟨?_, fun h => absurd h hcyclic⟩, nofun, fun e he => ?_, fun h => absurd h hcyclic⟩
    · rintro ⟨program, h⟩
      cases h
    · cases he
      exact ⟨text, rfl⟩

/-! ## A module reached along two paths -/

/-- A path without empty components and dots. -/
def plainPath (spelling : String) : Path := (Text.split '/' spelling).filter fun part => !part.isEmpty && decide (part ≠ ".")

/-- A main file that imports two libraries, one of which imports the other under another spelling. -/
def libFiles : FileSystem where
  files := [(["main"], "main"), (["lib", "a"], "a"), (["lib", "b"], "b")]
  canonicalize spelling :=
    if [["main"], ["lib", "a"], ["lib", "b"]].contains (plainPath spelling) then .ok (plainPath spelling) else .error "No such file or directory"
  canonical := by
    intro spelling path h
    split at h
    · next hin =>
      cases h
      have hmem : plainPath spelling = ["main"] ∨ plainPath spelling = ["lib", "a"] ∨ plainPath spelling = ["lib", "b"] := by
        simpa using hin
      rcases hmem with hp | hp | hp
      · rw [hp]
        decide +kernel
      · rw [hp]
        decide +kernel
      · rw [hp]
        decide +kernel
    · cases h
  readError _ := "Is a directory"

/-- The programs of these files. -/
def parseLib (content : String) : Except String Program :=
  if content = "main" then .ok { imports := [⟨"lib/a", "a"⟩, ⟨"./lib/b", "b"⟩] }
  else if content = "a" then .ok { imports := [⟨"./b", "other"⟩] }
  else .ok {}

/-- Files that import only files among them are readable. -/
theorem readable_of_closed {files : List Path} (h : ∀ p ∈ files, ∃ program, readProgram fs parse p = .ok program ∧
    ∀ i ∈ program.imports, ∃ q ∈ files, resolveImportPath fs p i.path = .ok q) {file : Path} (hfile : file ∈ files) :
    Readable fs parse file := by
  intro p hp
  have hin : p ∈ files := by
    induction hp with
    | refl => exact hfile
    | tail _ hlead ih =>
      obtain ⟨program, hprogram, himports⟩ := h _ ih
      have hlead' := hlead
      unfold Dfs.Leads at hlead'
      rw [importsOf_of_readProgram hprogram] at hlead'
      obtain ⟨i, hi, hq⟩ := List.mem_filterMap.mp hlead'
      obtain ⟨q, hqin, hq'⟩ := himports i hi
      rw [hq'] at hq
      cases hq
      exact hqin
  obtain ⟨program, hprogram, himports⟩ := h p hin
  exact ⟨program, hprogram, fun i hi => (himports i hi).imp fun q hq => hq.2⟩

/-- The tree of the main file has each library once. -/
theorem load_module_decides_lib : ∃ tree loader, loadModuleTree libFiles parseLib 4 "/./main" {} = some (.ok tree, loader, []) ∧
    IsModuleTree libFiles parseLib ["main"] tree := by
  have hpath : libFiles.canonicalize "/./main" = .ok ["main"] := by decide +kernel
  have hread : Readable libFiles parseLib ["main"] := by
    have hclosed : ∀ p ∈ [["main"], ["lib", "a"], ["lib", "b"]], ∃ program, readProgram libFiles parseLib p = .ok program ∧
        ∀ i ∈ program.imports, ∃ q ∈ [["main"], ["lib", "a"], ["lib", "b"]], resolveImportPath libFiles p i.path = .ok q := by
      have ha : resolveImportPath libFiles ["main"] "lib/a" = .ok ["lib", "a"] := by decide +kernel
      have hb : resolveImportPath libFiles ["main"] "./lib/b" = .ok ["lib", "b"] := by decide +kernel
      have hother : resolveImportPath libFiles ["lib", "a"] "./b" = .ok ["lib", "b"] := by decide +kernel
      intro p hp
      simp only [List.mem_cons, List.not_mem_nil, or_false] at hp
      rcases hp with rfl | rfl | rfl
      · exact ⟨{ imports := [⟨"lib/a", "a"⟩, ⟨"./lib/b", "b"⟩] }, rfl, by simp [ha, hb]⟩
      · exact ⟨{ imports := [⟨"./b", "other"⟩] }, rfl, by simp [hother]⟩
      · exact ⟨{}, rfl, by simp⟩
    exact readable_of_closed hclosed List.mem_cons_self
  obtain ⟨r, loader, hrun, hiff, -, -, htree⟩ := load_module_decides libFiles parseLib "/./main" ["main"] hpath hread 4 (by decide)
  have hok : (loadModule libFiles parseLib 4 "/./main" {}).map (fun p => p.1.toOption.isSome) = some true := by decide +kernel
  rw [hrun] at hok
  have hacyclic : Acyclic libFiles parseLib ["main"] := by
    refine hiff.mp ?_
    cases r with
    | error e => cases hok
    | ok program => exact ⟨program, rfl⟩
  exact htree hacyclic {} (Or.inl rfl)

end WebPipe

import WebPipe.Lemmas.Modules

/-!
# Environments over a tree of modules

An environment is over a tree when it has the symbols of every module under the id of the module, and the imports of every module
by their ids. The environment of a server and the environment of its tests are; they differ in the local symbols.
-/

namespace WebPipe

open IndexMap

variable {σ : Type}

/-- The symbols of every module are entered under its id. -/
structure Over (tree : ModuleTree) (env : ExecutionEnv σ) : Prop where
  pipelines : ∀ {path info id}, tree.HasModule path info id → ∀ name, env.namedPipelines (some id) name = tree.pipelineAt path name
  «variables» : ∀ {path info id}, tree.HasModule path info id → ∀ varType name,
    env.variableMap (some id) varType name = tree.variableAt path varType name
  imports : ∀ {path info id}, tree.HasModule path info id → ∀ name,
    ((env.moduleRegistry id).bind fun m => m.importMap name) = (get info.imports name).bind (get tree.pathToTempId)

/-! ## Resolution -/

section Resolution

variable {tree : ModuleTree} {env : ExecutionEnv σ} (htree : tree.Wf) (henv : Over tree env) {path : Path} {info : ModuleInfo}
  {id : ModuleId} (hmodule : tree.HasModule path info id) {loc : SourceLocation} (hloc : loc.moduleId = some id) {text : String}

include henv hmodule hloc

/-- An alias stands for the module it imports. -/
theorem importedModule_over (ns : String) :
    importedModule env loc ns = (get info.imports ns).bind (get tree.pathToTempId) := by
  rw [importedModule, hloc]
  exact henv.imports hmodule ns

/-- A name without an alias is a name of the module, or a local one. -/
theorem resolveNamedPipeline_name {name : String} (htext : parseScopedRef text = (none, name)) :
    resolveNamedPipeline env loc text = (tree.pipelineAt path name).or (env.namedPipelines none name) := by
  rw [resolveNamedPipeline, htext]
  dsimp only
  rw [hloc, henv.pipelines hmodule, Option.isSome_some, if_pos rfl]

/-- A name without an alias is looked for in the module, and then among the local symbols. -/
theorem referencedVariable_name {name : String} (htext : parseScopedRef text = (none, name)) (varType : String) :
    referencedVariable env loc varType text = (tree.variableAt path varType name).or (env.variableMap none varType name) := by
  rw [referencedVariable, htext]
  dsimp only
  rw [hloc, henv.variables hmodule, Option.isSome_some, if_pos rfl]

include htree

/-- A name with an alias is a name of the module that the alias stands for; a local one where it stands for none. -/
theorem resolveNamedPipeline_alias {ns name : String} (htext : parseScopedRef text = (some ns, name)) :
    resolveNamedPipeline env loc text =
      (get info.imports ns).elim (env.namedPipelines none name) fun target => tree.pipelineAt target name := by
  rw [resolveNamedPipeline, htext]
  dsimp only
  rw [importedModule_over henv hmodule hloc]
  cases htarget : get info.imports ns with
  | none => rfl
  | some target =>
    obtain ⟨info', hinfo'⟩ := Option.isSome_iff_exists.mp (htree.closed hmodule.info htarget)
    obtain ⟨id', h'⟩ := htree.exists_hasModule hinfo'
    rw [Option.bind_some, h'.id, Option.elim_some, henv.pipelines h']

/-- A name with an alias is looked for in the imported module only. -/
theorem referencedVariable_alias {ns name : String} (htext : parseScopedRef text = (some ns, name)) (varType : String) :
    referencedVariable env loc varType text = (get info.imports ns).bind fun target => tree.variableAt target varType name := by
  rw [referencedVariable, htext]
  dsimp only
  rw [importedModule_over henv hmodule hloc]
  cases htarget : get info.imports ns with
  | none => rfl
  | some target =>
    obtain ⟨info', hinfo'⟩ := Option.isSome_iff_exists.mp (htree.closed hmodule.info htarget)
    obtain ⟨id', h'⟩ := htree.exists_hasModule hinfo'
    rw [Option.bind_some, Option.bind_some, h'.id, Option.bind_some, henv.variables h']

end Resolution

/-! ## The two environments -/

section Tables

variable {tree : ModuleTree} (htree : tree.Wf)

include htree

/-- The pipelines of the modules of a tree, in a table that no other part enters anything of a module in. -/
theorem get_modulePipelines {local' : PipelineTable} {extra : Path → ModuleInfo → ModuleId → PipelineTable}
    (hlocal : ∀ k ∈ local'.map Prod.fst, k.1 = none) (hextra : ∀ path info id, ∀ k ∈ (extra path info id).map Prod.fst, k.1 = none)
    {path : Path} {info : ModuleInfo} {id : ModuleId} (h : tree.HasModule path info id) (name : String) :
    get (insertAll [] (local' ++ tree.forModules fun path info id =>
      pipelineEntries (some id) (info.program.pipelines.map (NamedPipeline.setModuleInfo path.display id)) ++ extra path info id))
        (some id, name) = tree.pipelineAt path name := by
  have hnone : ∀ {l : PipelineTable}, (∀ k ∈ l.map Prod.fst, k.1 = none) → get l.reverse (some id, name) = none := by
    intro l hl
    rw [get_reverse_eq_none_iff]
    intro hk
    exact absurd (hl _ hk) (by simp)
  have hown : ∀ path' info' id', id' ≠ id → ((some id, name) : Option ModuleId × String) ∉
      (pipelineEntries (some id') (info'.program.pipelines.map (NamedPipeline.setModuleInfo path'.display id')) ++
        extra path' info' id').map Prod.fst := by
    intro path' info' id' hne hk
    rw [List.map_append, List.mem_append, keys_pipelineEntries] at hk
    rcases hk with ⟨hid, -⟩ | hk
    · exact hne (Option.some.inj hid).symm
    · exact absurd (hextra _ _ _ _ hk) (by simp)
  rw [get_insertAll_nil, get_reverse_append, hnone hlocal, Option.or_none, htree.get_forModules h hown, get_reverse_append,
    hnone (hextra _ _ _), Option.none_or, get_pipelineEntries, h.pipelineAt]
  rfl

theorem get_moduleVariableTable {local' : VariableTable} (hlocal : ∀ k ∈ local'.map Prod.fst, k.1 = none)
    {path : Path} {info : ModuleInfo} {id : ModuleId} (h : tree.HasModule path info id) (varType name : String) :
    get (insertAll [] (local' ++ tree.forModules moduleVariables)) (some id, varType, name) = tree.variableAt path varType name := by
  have hnone : get local'.reverse (some id, varType, name) = none := by
    rw [get_reverse_eq_none_iff]
    intro hk
    exact absurd (hlocal _ hk) (by simp)
  have hown : ∀ path' info' id', id' ≠ id →
      ((some id, varType, name) : Option ModuleId × String × String) ∉ (moduleVariables path' info' id').map Prod.fst := by
    intro path' info' id' hne hk
    exact hne (Option.some.inj (keys_variableEntries.mp hk).1).symm
  rw [get_insertAll_nil, get_reverse_append, hnone, Option.or_none, htree.get_forModules h hown, get_moduleVariables, h.variableAt]

/-- The imports of a module, in an environment with the registry of the tree. -/
theorem importMap_registry {path : Path} {info : ModuleInfo} {id : ModuleId} (h : tree.HasModule path info id) (name : String) :
    (((tree.registry.getModule id).map fun m => ({ importMap := fun name => get m.importMap name } : ModuleMetadata)).bind
      fun m => m.importMap name) = (get info.imports name).bind (get tree.pathToTempId) := by
  rw [(h.registered htree).2, Option.map_some, Option.bind_some]
  exact htree.get_importIds h.info name

/-- The server has the symbols of its tree. -/
theorem over_serverEnv (base : ExecutionEnv σ) (main : Program) : Over tree (serverEnv base main tree) where
  pipelines h name := by
    refine get_modulePipelines htree (fun k hk => ?_) (fun path info id k hk => (keys_resolverEntries.mp hk).1) h name
    rw [List.map_append, List.mem_append] at hk
    rcases hk with hk | hk
    · exact (keys_pipelineEntries.mp hk).1
    · exact (keys_resolverEntries.mp hk).1
  «variables» h varType name := get_moduleVariableTable htree (fun k hk => (keys_variableEntries.mp hk).1) h varType name
  imports h name := importMap_registry htree h name

/-- The tests have the symbols of their tree. -/
theorem over_testEnv (base : ExecutionEnv σ) (main : Program) : Over tree (testEnv base main tree) where
  pipelines h name := by
    have hpipelines := @get_modulePipelines tree htree [] (fun _ _ _ => []) (by simp) (by simp) _ _ _ h name
    simp only [List.append_nil, List.nil_append] at hpipelines
    exact hpipelines
  «variables» h varType name := @get_moduleVariableTable tree htree [] (by simp) _ _ _ h varType name
  imports h name := importMap_registry htree h name

/-- A local name of the server is one that a module enters. -/
theorem local_key_iff (main : Program) (name : String) :
    ((none, name) : Option ModuleId × String) ∈ (pipelineEntries none (mergeFromModuleTree main tree).pipelines ++
        resolverEntries (mergeFromModuleTree main tree).queries (mergeFromModuleTree main tree).mutations ++
        tree.forModules serverModuleEntries).map Prod.fst ↔
      ∃ path info id, tree.HasModule path info id ∧ name ∈ info.localNames := by
  rw [List.map_append, List.map_append, List.mem_append, List.mem_append, keys_pipelineEntries, keys_resolverEntries]
  constructor
  · rintro ((⟨-, d, hd, hname⟩ | ⟨-, ⟨q, hq, hname⟩ | ⟨m, hm, hname⟩⟩) | hk)
    · obtain ⟨path, info, id, h, d', hd', rfl⟩ := htree.mem_marked.mp hd
      exact ⟨path, info, id, h, info.mem_localNames.mpr (Or.inl ⟨d', hd', hname⟩)⟩
    · obtain ⟨path, info, id, h, q', hq', rfl⟩ := htree.mem_marked.mp hq
      exact ⟨path, info, id, h, info.mem_localNames.mpr (Or.inr (Or.inl ⟨q', hq', hname⟩))⟩
    · obtain ⟨path, info, id, h, m', hm', rfl⟩ := htree.mem_marked.mp hm
      exact ⟨path, info, id, h, info.mem_localNames.mpr (Or.inr (Or.inr ⟨m', hm', hname⟩))⟩
    · obtain ⟨entry, hentry, hkey⟩ := List.mem_map.mp hk
      obtain ⟨path, info, id, h, hin⟩ := htree.mem_forModules.mp hentry
      have hin' := List.mem_map_of_mem (f := Prod.fst) hin
      rw [hkey, serverModuleEntries, List.map_append, List.mem_append, keys_pipelineEntries, keys_resolverEntries] at hin'
      rcases hin' with ⟨hid, -⟩ | ⟨-, ⟨q, hq, hname⟩ | ⟨m, hm, hname⟩⟩
      · cases hid
      · obtain ⟨q', hq', rfl⟩ := List.mem_map.mp hq
        exact ⟨path, info, id, h, info.mem_localNames.mpr (Or.inr (Or.inl ⟨q', hq', hname⟩))⟩
      · obtain ⟨m', hm', rfl⟩ := List.mem_map.mp hm
        exact ⟨path, info, id, h, info.mem_localNames.mpr (Or.inr (Or.inr ⟨m', hm', hname⟩))⟩
  · rintro ⟨path, info, id, h, hname⟩
    rcases info.mem_localNames.mp hname with ⟨d, hd, rfl⟩ | ⟨q, hq, rfl⟩ | ⟨m, hm, rfl⟩
    · exact Or.inl (Or.inl ⟨rfl, _, htree.mem_marked.mpr ⟨path, info, id, h, d, hd, rfl⟩, rfl⟩)
    · exact Or.inl (Or.inr ⟨rfl, Or.inl ⟨_, htree.mem_marked.mpr ⟨path, info, id, h, q, hq, rfl⟩, rfl⟩⟩)
    · exact Or.inl (Or.inr ⟨rfl, Or.inr ⟨_, htree.mem_marked.mpr ⟨path, info, id, h, m, hm, rfl⟩, rfl⟩⟩)

/-- The server finds a local pipeline exactly under the names that some module enters. -/
theorem serverEnv_local_eq_none_iff (base : ExecutionEnv σ) (main : Program) (name : String) :
    (serverEnv base main tree).namedPipelines none name = none ↔ ∀ path info, get tree path = some info → name ∉ info.localNames := by
  change get (insertAll [] (pipelineEntries none (mergeFromModuleTree main tree).pipelines ++
    resolverEntries (mergeFromModuleTree main tree).queries (mergeFromModuleTree main tree).mutations ++
      tree.forModules serverModuleEntries)) (none, name) = none ↔ _
  rw [get_insertAll_nil, get_reverse_eq_none_iff, local_key_iff htree]
  constructor
  · intro hno path info hinfo hname
    obtain ⟨id, h⟩ := htree.exists_hasModule hinfo
    exact hno ⟨path, info, id, h, hname⟩
  · rintro hno ⟨path, info, id, h, hname⟩
    exact hno path info h.info hname

/-- Every pipeline that the server finds is marked with a module. -/
theorem serverEnv_carries (base : ExecutionEnv σ) (main : Program) {module : Option ModuleId} {name : String} {p : Pipeline}
    (h : (serverEnv base main tree).namedPipelines module name = some p) :
    ∃ path info id, tree.HasModule path info id ∧ CarriesId id p := by
  change get (insertAll [] (pipelineEntries none (mergeFromModuleTree main tree).pipelines ++
    resolverEntries (mergeFromModuleTree main tree).queries (mergeFromModuleTree main tree).mutations ++
      tree.forModules serverModuleEntries)) (module, name) = some p at h
  rw [get_insertAll_nil] at h
  have hentry := List.mem_reverse.mp (mem_of_get h)
  simp only [List.mem_append, pipelineEntries, resolverEntries, List.mem_map, htree.mem_forModules, serverModuleEntries] at hentry
  rcases hentry with (⟨d, hd, he⟩ | ⟨q, hq, he⟩ | ⟨m, hm, he⟩) |
    ⟨path, info, id, hmodule, ⟨_, ⟨d, -, rfl⟩, he⟩ | ⟨_, ⟨q, -, rfl⟩, he⟩ | ⟨_, ⟨m, -, rfl⟩, he⟩⟩
  · obtain ⟨path, info, id, hmodule, d', -, rfl⟩ := htree.mem_marked.mp hd
    cases he
    exact ⟨path, info, id, hmodule, carriesId_setPipelineModuleInfo _ _ _⟩
  · obtain ⟨path, info, id, hmodule, q', -, rfl⟩ := htree.mem_marked.mp hq
    cases he
    exact ⟨path, info, id, hmodule, carriesId_setPipelineModuleInfo _ _ _⟩
  · obtain ⟨path, info, id, hmodule, m', -, rfl⟩ := htree.mem_marked.mp hm
    cases he
    exact ⟨path, info, id, hmodule, carriesId_setPipelineModuleInfo _ _ _⟩
  · cases he
    exact ⟨path, info, id, hmodule, carriesId_setPipelineModuleInfo _ _ _⟩
  · cases he
    exact ⟨path, info, id, hmodule, carriesId_setPipelineModuleInfo _ _ _⟩
  · cases he
    exact ⟨path, info, id, hmodule, carriesId_setPipelineModuleInfo _ _ _⟩

/-- The server finds a local variable exactly under the names that some module declares. -/
theorem serverEnv_localVariable_eq_none_iff (base : ExecutionEnv σ) (main : Program) (varType name : String) :
    (serverEnv base main tree).variableMap none varType name = none ↔
      ∀ path info, get tree path = some info → info.variableNamed varType name = none := by
  change get (insertAll [] (variableEntries none (mergeFromModuleTree main tree).variables ++ tree.forModules moduleVariables))
    (none, varType, name) = none ↔ _
  rw [get_insertAll_nil, get_reverse_eq_none_iff, List.map_append, List.mem_append, keys_variableEntries, not_or]
  have hmodules : ((none, varType, name) : Option ModuleId × String × String) ∉ (tree.forModules moduleVariables).map Prod.fst := by
    intro hk
    obtain ⟨entry, hentry, hkey⟩ := List.mem_map.mp hk
    obtain ⟨path, info, id, -, hin⟩ := htree.mem_forModules.mp hentry
    have hin' := List.mem_map_of_mem (f := Prod.fst) hin
    rw [hkey, moduleVariables, keys_variableEntries] at hin'
    cases hin'.1
  rw [and_iff_left hmodules]
  constructor
  · intro hno path info hinfo
    obtain ⟨id, h⟩ := htree.exists_hasModule hinfo
    rw [ModuleInfo.variableNamed_eq_none_iff]
    intro v hv hname
    have hmerged : v ∈ tree.marked Program.variables fun _ _ v => v := htree.mem_marked.mpr ⟨path, info, id, h, v, hv, rfl⟩
    exact hno ⟨rfl, v, hmerged, hname⟩
  · rintro hno ⟨-, v, hv, hname⟩
    have hmerged : v ∈ tree.marked Program.variables fun _ _ v => v := hv
    obtain ⟨path, info, id, h, v', hv', rfl⟩ := htree.mem_marked.mp hmerged
    exact ModuleInfo.variableNamed_eq_none_iff.mp (hno path info h.info) _ hv' hname

/-- There are no local symbols in the environment of the tests. -/
theorem testEnv_local (base : ExecutionEnv σ) (main : Program) :
    (∀ name, (testEnv base main tree).namedPipelines none name = none) ∧
      ∀ varType name, (testEnv base main tree).variableMap none varType name = none := by
  constructor
  · intro name
    change get (insertAll [] (tree.forModules testModuleEntries)) (none, name) = none
    rw [get_insertAll_nil, get_reverse_eq_none_iff]
    intro hk
    obtain ⟨entry, hentry, hkey⟩ := List.mem_map.mp hk
    obtain ⟨path, info, id, -, hin⟩ := htree.mem_forModules.mp hentry
    have hin' := List.mem_map_of_mem (f := Prod.fst) hin
    rw [hkey, testModuleEntries, keys_pipelineEntries] at hin'
    cases hin'.1
  · intro varType name
    change get (insertAll [] (tree.forModules moduleVariables)) (none, varType, name) = none
    rw [get_insertAll_nil, get_reverse_eq_none_iff]
    intro hk
    obtain ⟨entry, hentry, hkey⟩ := List.mem_map.mp hk
    obtain ⟨path, info, id, -, hin⟩ := htree.mem_forModules.mp hentry
    have hin' := List.mem_map_of_mem (f := Prod.fst) hin
    rw [hkey, moduleVariables, keys_variableEntries] at hin'
    cases hin'.1

end Tables

end WebPipe

import Mathlib.Data.List.Induction
import WebPipe.Executor.Resolver
import WebPipe.Lib.Entries
import WebPipe.Server.Modules

/-!
# The tables of a tree of modules

The ids of modules are their positions among the sorted paths, wherever they are assigned; what is entered under the id of a module is what
that module declares.
-/

namespace WebPipe

open IndexMap

/-! ## Marking -/

section Marking

variable {filePath : String} {moduleId : ModuleId}

/-- Steps are stamped one by one. -/
theorem setStepsModuleInfo_eq (steps : List PipelineStep) :
    setStepsModuleInfo filePath moduleId steps = steps.map (setStepModuleInfo filePath moduleId) := by
  induction steps with
  | nil => simp [setStepsModuleInfo]
  | cons s steps ih => simp [setStepsModuleInfo, ih]

/-- The steps of a stamped pipeline are the stamped steps. -/
@[simp] theorem steps_setPipelineModuleInfo (p : Pipeline) :
    (setPipelineModuleInfo filePath moduleId p).steps = p.steps.map (setStepModuleInfo filePath moduleId) := by
  obtain ⟨steps⟩ := p
  rw [setPipelineModuleInfo, setStepsModuleInfo_eq]

theorem setOptionalPipeline_eq (p : Option Pipeline) :
    setOptionalPipeline filePath moduleId p = p.map (setPipelineModuleInfo filePath moduleId) := by
  cases p <;> simp [setOptionalPipeline]

theorem pipelines_setResultBranches (branches : List ResultBranch) :
    (setResultBranches filePath moduleId branches).map (fun (b : ResultBranch) => b.pipeline) =
      branches.map fun (b : ResultBranch) => setPipelineModuleInfo filePath moduleId b.pipeline := by
  induction branches with
  | nil => simp [setResultBranches]
  | cons b branches ih => simp [setResultBranches, ih]

theorem pipelines_setDispatchBranches (branches : List DispatchBranch) :
    (setDispatchBranches filePath moduleId branches).map (fun (b : DispatchBranch) => b.pipeline) =
      branches.map fun (b : DispatchBranch) => setPipelineModuleInfo filePath moduleId b.pipeline := by
  induction branches with
  | nil => simp [setDispatchBranches]
  | cons b branches ih => simp [setDispatchBranches, ih]

/-- No block of a step is left out. -/
theorem blocks_setStepModuleInfo (s : PipelineStep) :
    (setStepModuleInfo filePath moduleId s).blocks = s.blocks.map (setPipelineModuleInfo filePath moduleId) := by
  cases s with
  | regular s => simp [setStepModuleInfo, PipelineStep.blocks]
  | result branches location => simp [setStepModuleInfo, PipelineStep.blocks, pipelines_setResultBranches, Function.comp_def]
  | ifStep condition thenBranch elseBranch location =>
    cases elseBranch <;> simp [setStepModuleInfo, PipelineStep.blocks, setOptionalPipeline_eq]
  | dispatch branches default location =>
    cases default <;>
      simp [setStepModuleInfo, PipelineStep.blocks, setOptionalPipeline_eq, pipelines_setDispatchBranches, Function.comp_def]
  | foreach selector pipeline location => simp [setStepModuleInfo, PipelineStep.blocks]

/-- A stamped step is located in the module. -/
theorem location_setStepModuleInfo (s : PipelineStep) :
    (setStepModuleInfo filePath moduleId s).location = s.location.inModule filePath moduleId := by
  cases s <;> simp [setStepModuleInfo, PipelineStep.location]

/-- Every step of a marked pipeline is a marked step of the pipeline. -/
theorem stepWithin_setPipelineModuleInfo {s : PipelineStep} {p : Pipeline} (h : StepWithin s (setPipelineModuleInfo filePath moduleId p)) :
    ∃ t, StepWithin t p ∧ s = setStepModuleInfo filePath moduleId t := by
  generalize hp : setPipelineModuleInfo filePath moduleId p = p' at h
  induction h generalizing p with
  | step hs =>
    subst hp
    rw [steps_setPipelineModuleInfo] at hs
    obtain ⟨t, ht, rfl⟩ := List.mem_map.mp hs
    exact ⟨t, .step ht, rfl⟩
  | block ht hq h ih =>
    subst hp
    rw [steps_setPipelineModuleInfo] at ht
    obtain ⟨t', ht', rfl⟩ := List.mem_map.mp ht
    rw [blocks_setStepModuleInfo] at hq
    obtain ⟨q', hq', rfl⟩ := List.mem_map.mp hq
    obtain ⟨s', hs', rfl⟩ := ih rfl
    exact ⟨s', .block ht' hq' hs', rfl⟩

end Marking

/-- Every step of a pipeline, at any depth, is marked with a module. -/
def CarriesId (id : ModuleId) (p : Pipeline) : Prop := ∀ s, StepWithin s p → s.location.moduleId = some id

/-- A stamped pipeline carries the id, nested steps included. -/
theorem carriesId_setPipelineModuleInfo (filePath : String) (id : ModuleId) (p : Pipeline) :
    CarriesId id (setPipelineModuleInfo filePath id p) := by
  intro s hs
  obtain ⟨t, -, rfl⟩ := stepWithin_setPipelineModuleInfo hs
  rw [location_setStepModuleInfo]
  rfl

/-! ## Ids -/

namespace ModuleTree

/-- The tree and the import map of each module in it are maps, and what is imported is in the tree. -/
structure Wf (tree : ModuleTree) : Prop where
  distinct : Distinct tree
  imports : ∀ {path info}, get tree path = some info → Distinct info.imports
  closed : ∀ {path info}, get tree path = some info → ∀ {name target}, get info.imports name = some target → (get tree target).isSome

/-- A module of a tree, with its path and its id. -/
structure HasModule (tree : ModuleTree) (path : Path) (info : ModuleInfo) (id : ModuleId) : Prop where
  info : get tree path = some info
  id : get tree.pathToTempId path = some id

variable {tree : ModuleTree}

/-- The sorted paths are those of the tree. -/
theorem mem_sortedPaths {path : Path} : path ∈ tree.sortedPaths ↔ ∃ info, get tree path = some info := by
  rw [sortedPaths, (List.perm_insertionSort _ _).mem_iff, ← not_iff_not, ← get_eq_none_iff, ← Option.ne_none_iff_exists', not_not]

theorem HasModule.mem_sortedPaths {path : Path} {info : ModuleInfo} {id : ModuleId} (h : tree.HasModule path info id) :
    path ∈ tree.sortedPaths := ModuleTree.mem_sortedPaths.mpr ⟨info, h.info⟩

theorem Wf.nodup (htree : tree.Wf) : tree.sortedPaths.Nodup := ((List.perm_insertionSort _ _).nodup_iff).mpr htree.distinct

/-- The id of a module is its place among the sorted paths. -/
theorem Wf.get_pathToTempId (htree : tree.Wf) {path : Path} {id : ModuleId} :
    get tree.pathToTempId path = some id ↔ tree.sortedPaths[id]? = some path := by
  have hdistinct : Distinct tree.sortedPaths.zipIdx := by
    unfold Distinct
    rw [List.zipIdx_map_fst]
    exact htree.nodup
  rw [pathToTempId, get_insertAll_nil, get_reverse hdistinct, get_zipIdx htree.nodup]

/-- Every module of a tree has an id. -/
theorem Wf.exists_hasModule (htree : tree.Wf) {path : Path} {info : ModuleInfo} (h : get tree path = some info) :
    ∃ id, tree.HasModule path info id := by
  obtain ⟨id, hid⟩ := List.getElem?_of_mem (ModuleTree.mem_sortedPaths.mpr ⟨info, h⟩)
  exact ⟨id, h, htree.get_pathToTempId.mpr hid⟩

/-- No two modules have one id. -/
theorem Wf.path_unique (htree : tree.Wf) {path path' : Path} {info info' : ModuleInfo} {id : ModuleId}
    (h : tree.HasModule path info id) (h' : tree.HasModule path' info' id) : path = path' := by
  have hplace := htree.get_pathToTempId.mp h.id
  rw [htree.get_pathToTempId.mp h'.id] at hplace
  exact (Option.some.inj hplace).symm

/-- What is made of the modules is made of one of them. -/
theorem Wf.mem_forModules (htree : tree.Wf) {α : Type} {f : Path → ModuleInfo → ModuleId → List α} {a : α} :
    a ∈ tree.forModules f ↔ ∃ path info id, tree.HasModule path info id ∧ a ∈ f path info id := by
  rw [forModules, List.mem_flatMap]
  constructor
  · rintro ⟨path, hpath, ha⟩
    obtain ⟨info, hinfo⟩ := ModuleTree.mem_sortedPaths.mp hpath
    obtain ⟨id, h⟩ := htree.exists_hasModule hinfo
    rw [h.info, h.id] at ha
    exact ⟨path, info, id, h, ha⟩
  · rintro ⟨path, info, id, h, ha⟩
    refine ⟨path, h.mem_sortedPaths, ?_⟩
    rw [h.info, h.id]
    exact ha

/-- What is declared in a tree is what some module declares, marked with its id. -/
theorem Wf.mem_marked (htree : tree.Wf) {α : Type} {declared : Program → List α} {mark : String → ModuleId → α → α} {a : α} :
    a ∈ tree.marked declared mark ↔
      ∃ path info id, tree.HasModule path info id ∧ ∃ d ∈ declared info.program, mark path.display id d = a := by
  simp only [marked, htree.mem_forModules, List.mem_map]

/-- A key that only one module enters has what that module entered last. -/
theorem Wf.get_forModules (htree : tree.Wf) {κ ν : Type} [DecidableEq κ] {entries : Path → ModuleInfo → ModuleId → List (κ × ν)}
    {path : Path} {info : ModuleInfo} {id : ModuleId} (h : tree.HasModule path info id) {k : κ}
    (hown : ∀ path' info' id', id' ≠ id → k ∉ (entries path' info' id').map Prod.fst) :
    get (tree.forModules entries).reverse k = get (entries path info id).reverse k := by
  rw [forModules, get_reverse_flatMap h.mem_sortedPaths, h.info, h.id]
  intro path' hpath' hne
  obtain ⟨info', hinfo'⟩ := ModuleTree.mem_sortedPaths.mp hpath'
  obtain ⟨id', h'⟩ := htree.exists_hasModule hinfo'
  rw [h'.info, h'.id]
  refine hown path' info' id' fun heq => hne ?_
  subst heq
  exact htree.path_unique h' h

end ModuleTree

/-! ## The registry -/

/-- Modules that are registered one after another are numbered from zero. -/
theorem foldl_register (importMap : Path → List (String × ModuleId)) {paths : List Path} (hpaths : paths.Nodup) :
    paths.foldl (fun r path => ModuleRegistry.register r path (importMap path)) {} =
      { modules := paths.zipIdx.map fun p => (p.2, { path := p.1, importMap := importMap p.1 }), pathToId := paths.zipIdx } := by
  induction paths using List.reverseRecOn with
  | nil => rfl
  | append_singleton paths path ih =>
    obtain ⟨hnodup, -, hnot⟩ := List.nodup_append.mp hpaths
    have hkeys : ((paths.zipIdx.map fun p => (p.2, (⟨p.1, importMap p.1⟩ : RegisteredModule))).map Prod.fst) = List.range paths.length := by
      rw [List.map_map, List.range_eq_range', ← List.zipIdx_map_snd 0 paths]
      rfl
    have hid : get (paths.zipIdx.map fun p => (p.2, (⟨p.1, importMap p.1⟩ : RegisteredModule))) paths.length = none := by
      rw [get_eq_none_iff, hkeys]
      simp
    have hpath : get paths.zipIdx path = none := by
      rw [get_eq_none_iff, List.zipIdx_map_fst]
      intro hin
      exact hnot path hin path List.mem_cons_self rfl
    rw [List.foldl_append, ih hnodup]
    simp [ModuleRegistry.register, insert_of_get_none hid, insert_of_get_none hpath, List.zipIdx_append]

namespace ModuleTree

variable {tree : ModuleTree}

/-- The registry is filled in the order of the sorted paths. -/
theorem registry_eq :
    tree.registry = tree.sortedPaths.foldl (fun r path => r.register path ((get tree path).elim [] tree.importIds)) {} := by
  refine List.foldl_ext _ _ _ fun r path hpath => ?_
  obtain ⟨info, hinfo⟩ := mem_sortedPaths.mp hpath
  rw [hinfo]
  rfl

/-- The module of an id is the one at its place among the sorted paths. -/
theorem getModule_registry (hnodup : tree.sortedPaths.Nodup) (id : ModuleId) :
    tree.registry.getModule id = (tree.sortedPaths[id]?).map fun path =>
      { path := path, importMap := (get tree path).elim [] tree.importIds } := by
  have hdistinct : Distinct (tree.sortedPaths.zipIdx.map fun p =>
      (p.2, (⟨p.1, (get tree p.1).elim [] tree.importIds⟩ : RegisteredModule))) := by
    unfold Distinct
    rw [List.map_map]
    change (tree.sortedPaths.zipIdx.map Prod.snd).Nodup
    rw [List.zipIdx_map_snd]
    exact List.nodup_range'
  rw [registry_eq, foldl_register _ hnodup, ModuleRegistry.getModule]
  refine Option.ext fun m => ?_
  rw [get_eq_some_iff hdistinct, List.mem_map, Option.map_eq_some_iff]
  constructor
  · rintro ⟨⟨path, i⟩, hin, heq⟩
    obtain ⟨rfl, rfl⟩ := Prod.mk.inj heq
    exact ⟨path, List.mk_mem_zipIdx_iff_getElem?.mp hin, rfl⟩
  · rintro ⟨path, hplace, rfl⟩
    exact ⟨(path, id), List.mk_mem_zipIdx_iff_getElem?.mpr hplace, rfl⟩

/-- The registry gives a module the id that its steps carry. -/
theorem HasModule.registered (htree : tree.Wf) {path : Path} {info : ModuleInfo} {id : ModuleId} (h : tree.HasModule path info id) :
    tree.registry.getIdByPath path = some id ∧
      tree.registry.getModule id = some { path := path, importMap := tree.importIds info } := by
  have hplace := htree.get_pathToTempId.mp h.id
  constructor
  · rw [registry_eq, foldl_register _ htree.nodup]
    exact (get_zipIdx htree.nodup).mpr hplace
  · rw [getModule_registry htree.nodup, hplace, Option.map_some, h.info]
    rfl

/-- The import map of a module, with the ids of what it imports. -/
theorem Wf.get_importIds (htree : tree.Wf) {path : Path} {info : ModuleInfo} (h : get tree path = some info) (name : String) :
    get (tree.importIds info) name = (get info.imports name).bind (get tree.pathToTempId) :=
  get_filterMap _ (htree.imports h) name

end ModuleTree

/-! ## What is declared -/

namespace ModuleInfo

/-- The last pipeline of a module with a name. -/
def pipelineNamed (info : ModuleInfo) (name : String) : Option Pipeline :=
  get (info.program.pipelines.map fun d => (d.name, d.pipeline)).reverse name

/-- The last variable of a module with a type and a name. -/
def variableNamed (info : ModuleInfo) (varType name : String) : Option Variable :=
  get (info.program.variables.map fun v => ((v.varType, v.name), ({ name := v.name, value := v.value } : Variable))).reverse (varType, name)

/-- The names that a module enters as local symbols. -/
def localNames (info : ModuleInfo) : List String :=
  info.program.pipelines.map NamedPipeline.name ++ info.program.queries.map (fun q => "query::" ++ q.name) ++
    info.program.mutations.map fun m => "mutation::" ++ m.name

/-- The local names of a module are those of its pipelines, queries and mutations. -/
theorem mem_localNames (info : ModuleInfo) {name : String} :
    name ∈ info.localNames ↔ (∃ d ∈ info.program.pipelines, d.name = name) ∨
      (∃ q ∈ info.program.queries, "query::" ++ q.name = name) ∨ ∃ m ∈ info.program.mutations, "mutation::" ++ m.name = name := by
  simp [localNames]

/-- A module has no pipeline of a name exactly when it declares none. -/
theorem pipelineNamed_eq_none_iff {info : ModuleInfo} {name : String} :
    info.pipelineNamed name = none ↔ ∀ d ∈ info.program.pipelines, d.name ≠ name := by
  rw [pipelineNamed, get_reverse_eq_none_iff]
  simp

/-- A module has no variable of a name and type exactly when it declares none. -/
theorem variableNamed_eq_none_iff {info : ModuleInfo} {varType name : String} :
    info.variableNamed varType name = none ↔ ∀ v ∈ info.program.variables, (v.varType, v.name) ≠ (varType, name) := by
  rw [variableNamed, get_reverse_eq_none_iff]
  simp

end ModuleInfo

namespace ModuleTree

variable {tree : ModuleTree}

/-- The pipeline of a module with a name, marked with the module. -/
def pipelineAt (tree : ModuleTree) (path : Path) (name : String) : Option Pipeline :=
  (get tree path).bind fun info => (get tree.pathToTempId path).bind fun id =>
    (info.pipelineNamed name).map (setPipelineModuleInfo path.display id)

/-- The variable of a module with a type and a name. -/
def variableAt (tree : ModuleTree) (path : Path) (varType name : String) : Option Variable :=
  (get tree path).bind fun info => info.variableNamed varType name

/-- The pipeline of a name in a module, stamped with its id. -/
theorem HasModule.pipelineAt {path : Path} {info : ModuleInfo} {id : ModuleId} (h : tree.HasModule path info id) (name : String) :
    tree.pipelineAt path name = (info.pipelineNamed name).map (setPipelineModuleInfo path.display id) := by
  rw [ModuleTree.pipelineAt, h.info, h.id]
  rfl

/-- The variable of a name in a module. -/
theorem HasModule.variableAt {path : Path} {info : ModuleInfo} {id : ModuleId} (h : tree.HasModule path info id)
    (varType name : String) : tree.variableAt path varType name = info.variableNamed varType name := by
  rw [ModuleTree.variableAt, h.info]
  rfl

end ModuleTree

/-! ## What is entered -/

/-- The pipelines of a module, entered under it. -/
theorem get_pipelineEntries (module : Option ModuleId) (filePath : String) (id : ModuleId) (declared : List NamedPipeline) (name : String) :
    get (pipelineEntries module (declared.map (NamedPipeline.setModuleInfo filePath id))).reverse (module, name) =
      (get (declared.map fun d => (d.name, d.pipeline)).reverse name).map (setPipelineModuleInfo filePath id) := by
  have hentries : (pipelineEntries module (declared.map (NamedPipeline.setModuleInfo filePath id))).reverse =
      ((declared.map fun d => (d.name, d.pipeline)).reverse.map fun p => (p.1, setPipelineModuleInfo filePath id p.2)).map
        fun p => ((module, p.1), p.2) := by
    simp [pipelineEntries, NamedPipeline.setModuleInfo, Function.comp_def, List.map_reverse]
  rw [hentries, get_map_of_injective (f := fun name => (module, name)) fun a b h => (Prod.mk.inj h).2, get_map]

/-- The variables of a module, entered under it. -/
theorem get_moduleVariables (path : Path) (info : ModuleInfo) (id : ModuleId) (varType name : String) :
    get (moduleVariables path info id).reverse (some id, varType, name) = info.variableNamed varType name := by
  have hentries : (moduleVariables path info id).reverse = (info.program.variables.map fun v =>
      ((v.varType, v.name), ({ name := v.name, value := v.value } : Variable))).reverse.map fun p => ((some id, p.1), p.2) := by
    simp [moduleVariables, variableEntries, Function.comp_def, List.map_reverse]
  rw [hentries, get_map_of_injective (f := fun k => (some id, k)) fun a b h => (Prod.mk.inj h).2]
  rfl

/-- Pipelines are entered under their module and name. -/
theorem keys_pipelineEntries {module : Option ModuleId} {declared : List NamedPipeline} {k : Option ModuleId × String} :
    k ∈ (pipelineEntries module declared).map Prod.fst ↔ k.1 = module ∧ ∃ d ∈ declared, d.name = k.2 := by
  obtain ⟨m, name⟩ := k
  simp only [pipelineEntries, List.map_map, List.mem_map, Function.comp_def, Prod.mk.injEq]
  constructor
  · rintro ⟨d, hd, rfl, rfl⟩
    exact ⟨rfl, d, hd, rfl⟩
  · rintro ⟨rfl, d, hd, rfl⟩
    exact ⟨d, hd, rfl, rfl⟩

/-- Variables are entered under their module, type and name. -/
theorem keys_variableEntries {module : Option ModuleId} {declared : List VariableDecl} {k : Option ModuleId × String × String} :
    k ∈ (variableEntries module declared).map Prod.fst ↔ k.1 = module ∧ ∃ v ∈ declared, (v.varType, v.name) = k.2 := by
  obtain ⟨m, varType, name⟩ := k
  simp only [variableEntries, List.map_map, List.mem_map, Function.comp_def, Prod.mk.injEq]
  constructor
  · rintro ⟨v, hv, rfl, rfl, rfl⟩
    exact ⟨rfl, v, hv, rfl, rfl⟩
  · rintro ⟨rfl, v, hv, rfl, rfl⟩
    exact ⟨v, hv, rfl, rfl, rfl⟩

/-- Resolvers are entered as local symbols. -/
theorem keys_resolverEntries {queries : List QueryResolver} {mutations : List MutationResolver} {k : Option ModuleId × String} :
    k ∈ (resolverEntries queries mutations).map Prod.fst ↔
      k.1 = none ∧ ((∃ q ∈ queries, "query::" ++ q.name = k.2) ∨ ∃ m ∈ mutations, "mutation::" ++ m.name = k.2) := by
  obtain ⟨module, name⟩ := k
  simp only [resolverEntries, List.map_append, List.map_map, List.mem_append, List.mem_map, Function.comp_def, Prod.mk.injEq]
  constructor
  · rintro (⟨q, hq, rfl, rfl⟩ | ⟨m, hm, rfl, rfl⟩)
    · exact ⟨rfl, Or.inl ⟨q, hq, rfl⟩⟩
    · exact ⟨rfl, Or.inr ⟨m, hm, rfl⟩⟩
  · rintro ⟨rfl, ⟨q, hq, rfl⟩ | ⟨m, hm, rfl⟩⟩
    · exact Or.inl ⟨q, hq, rfl, rfl⟩
    · exact Or.inr ⟨m, hm, rfl, rfl⟩

end WebPipe

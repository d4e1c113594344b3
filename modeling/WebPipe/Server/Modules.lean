import Mathlib.Data.List.Sort
import WebPipe.Executor.Env
import WebPipe.Loader

/-!
# The modules of a server

What `server.rs` and `test_runner.rs` make of a tree of loaded modules: every module gets an id, its pipelines are marked with it, and the
symbols of all modules are entered in the tables that the executor looks names up in.
-/

namespace WebPipe

/-! ## Marking -/

/-- The pipelines inside a step. -/
def PipelineStep.blocks : PipelineStep → List Pipeline
  | .regular _ => []
  | .result branches _ => branches.map fun (b : ResultBranch) => b.pipeline
  | .ifStep condition thenBranch elseBranch _ => condition :: thenBranch :: elseBranch.toList
  | .dispatch branches default _ => (branches.map fun (b : DispatchBranch) => b.pipeline) ++ default.toList
  | .foreach _ pipeline _ => [pipeline]

/-- A step of a pipeline, at any depth. -/
inductive StepWithin (s : PipelineStep) : Pipeline → Prop where
  | step {p : Pipeline} (h : s ∈ p.steps) : StepWithin s p
  | block {t : PipelineStep} {p q : Pipeline} (ht : t ∈ p.steps) (hq : q ∈ t.blocks) (h : StepWithin s q) : StepWithin s p

/-- A location with a file and a module. -/
def SourceLocation.inModule (loc : SourceLocation) (filePath : String) (moduleId : ModuleId) : SourceLocation :=
  { loc with filePath := some filePath, moduleId := some moduleId }

section Marking

variable (filePath : String) (moduleId : ModuleId)

mutual

/-- One step of `set_pipeline_module_info`. -/
def setStepModuleInfo : PipelineStep → PipelineStep
  | .regular s => .regular { s with location := s.location.inModule filePath moduleId }
  | .result branches location => .result (setResultBranches branches) (location.inModule filePath moduleId)
  | .ifStep condition thenBranch elseBranch location =>
    .ifStep (setPipelineModuleInfo condition) (setPipelineModuleInfo thenBranch) (setOptionalPipeline elseBranch)
      (location.inModule filePath moduleId)
  | .dispatch branches default location =>
    .dispatch (setDispatchBranches branches) (setOptionalPipeline default) (location.inModule filePath moduleId)
  | .foreach selector pipeline location =>
    .foreach selector (setPipelineModuleInfo pipeline) (location.inModule filePath moduleId)

/-- `set_pipeline_module_info`. -/
def setPipelineModuleInfo : Pipeline → Pipeline
  | ⟨steps⟩ => ⟨setStepsModuleInfo steps⟩

def setStepsModuleInfo : List PipelineStep → List PipelineStep
  | [] => []
  | s :: rest => setStepModuleInfo s :: setStepsModuleInfo rest

def setOptionalPipeline : Option Pipeline → Option Pipeline
  | none => none
  | some p => some (setPipelineModuleInfo p)

def setResultBranches : List ResultBranch → List ResultBranch
  | [] => []
  | ⟨branchType, statusCode, pipeline⟩ :: rest => ⟨branchType, statusCode, setPipelineModuleInfo pipeline⟩ :: setResultBranches rest

def setDispatchBranches : List DispatchBranch → List DispatchBranch
  | [] => []
  | ⟨condition, pipeline⟩ :: rest => ⟨condition, setPipelineModuleInfo pipeline⟩ :: setDispatchBranches rest

end

/-- A route with its own pipeline marked; a named one is marked where it is declared. -/
def setRouteModuleInfo (route : Route) : Route :=
  match route.pipeline with
  | .inline pipeline => { route with pipeline := .inline (setPipelineModuleInfo filePath moduleId pipeline) }
  | .named _ => route

end Marking

/-! ## Module ids -/

/-- `ModuleMetadata`: the path of a module, and the modules that its aliases stand for. -/
structure RegisteredModule where
  path : Path
  importMap : List (String × ModuleId)
deriving DecidableEq, Repr

/-- `ModuleRegistry`. -/
structure ModuleRegistry where
  modules : List (ModuleId × RegisteredModule) := []
  pathToId : List (Path × ModuleId) := []
deriving DecidableEq, Repr

namespace ModuleRegistry

/-- `get_module`. -/
def getModule (r : ModuleRegistry) (id : ModuleId) : Option RegisteredModule := IndexMap.get r.modules id

/-- `get_id_by_path`. -/
def getIdByPath (r : ModuleRegistry) (path : Path) : Option ModuleId := IndexMap.get r.pathToId path

/-- `register`: the next id is the number of modules. -/
def register (r : ModuleRegistry) (path : Path) (importMap : List (String × ModuleId)) : ModuleRegistry :=
  { modules := IndexMap.insert r.modules r.modules.length { path := path, importMap := importMap }
    pathToId := IndexMap.insert r.pathToId path r.modules.length }

end ModuleRegistry

/-- Paths are ordered by their components. -/
def Path.le (a b : Path) : Bool := (List.compareLex compare a b).isLE

namespace ModuleTree

variable (tree : ModuleTree)

/-- The paths of a tree in order. -/
def sortedPaths : List Path := (tree.map Prod.fst).insertionSort fun a b => Path.le a b = true

/-- The ids of the modules, by their paths. -/
def pathToTempId : List (Path × ModuleId) := IndexMap.insertAll [] tree.sortedPaths.zipIdx

/-- What is made of each module, in the order of the paths. -/
def forModules {α : Type} (f : Path → ModuleInfo → ModuleId → List α) : List α :=
  tree.sortedPaths.flatMap fun path =>
    match IndexMap.get tree path, IndexMap.get tree.pathToTempId path with
    | some info, some id => f path info id
    | _, _ => []

/-- The import map of a module, with ids for the paths. -/
def importIds (info : ModuleInfo) : List (String × ModuleId) :=
  info.imports.filterMap fun (name, target) => (IndexMap.get tree.pathToTempId target).map fun id => (name, id)

/-- The registry of the modules. -/
def registry : ModuleRegistry :=
  tree.sortedPaths.foldl (fun r path =>
    match IndexMap.get tree path with
    | some info => r.register path (tree.importIds info)
    | none => r) {}

/-- What a module declares, marked: `declared` lists it. -/
def marked {α : Type} (declared : Program → List α) (mark : String → ModuleId → α → α) : List α :=
  tree.forModules fun path info id => (declared info.program).map (mark path.display id)

end ModuleTree

/-! ## Merging -/

/-- Mark the pipeline of a declaration. -/
def NamedPipeline.setModuleInfo (filePath : String) (moduleId : ModuleId) (d : NamedPipeline) : NamedPipeline :=
  { d with pipeline := setPipelineModuleInfo filePath moduleId d.pipeline }

def QueryResolver.setModuleInfo (filePath : String) (moduleId : ModuleId) (d : QueryResolver) : QueryResolver :=
  { d with pipeline := setPipelineModuleInfo filePath moduleId d.pipeline }

def MutationResolver.setModuleInfo (filePath : String) (moduleId : ModuleId) (d : MutationResolver) : MutationResolver :=
  { d with pipeline := setPipelineModuleInfo filePath moduleId d.pipeline }

def TypeResolver.setModuleInfo (filePath : String) (moduleId : ModuleId) (d : TypeResolver) : TypeResolver :=
  { d with pipeline := setPipelineModuleInfo filePath moduleId d.pipeline }

/-- The text of the schemas of all modules. -/
def mergedSchema (parts : List String) : Option String := if parts.isEmpty then none else some ("\n\n".intercalate parts)

/-- `merge_from_module_tree_for_tests`. -/
def mergeFromModuleTree (main : Program) (tree : ModuleTree) : Program :=
  { imports := main.imports
    pipelines := tree.marked Program.pipelines NamedPipeline.setModuleInfo
    «variables» := tree.marked Program.variables fun _ _ v => v
    routes := tree.marked Program.routes setRouteModuleInfo
    graphqlSchema := mergedSchema (tree.marked (fun p => p.graphqlSchema.toList) fun _ _ sdl => sdl)
    queries := tree.marked Program.queries QueryResolver.setModuleInfo
    mutations := tree.marked Program.mutations MutationResolver.setModuleInfo
    resolvers := tree.marked Program.resolvers TypeResolver.setModuleInfo
    featureFlags := main.featureFlags }

/-! ## The tables of the executor -/

/-- The table of named pipelines: `None` is the module of local symbols. -/
abbrev PipelineTable := List ((Option ModuleId × String) × Pipeline)

/-- The table of variables, by module, type and name. -/
abbrev VariableTable := List ((Option ModuleId × String × String) × Variable)

/-- The entries of pipelines under a module. -/
def pipelineEntries (module : Option ModuleId) (declared : List NamedPipeline) : PipelineTable :=
  declared.map fun d => ((module, d.name), d.pipeline)

/-- The entries of variables under a module. -/
def variableEntries (module : Option ModuleId) (declared : List VariableDecl) : VariableTable :=
  declared.map fun v => ((module, v.varType, v.name), { name := v.name, value := v.value })

/-- The entries of GraphQL resolvers, which are local symbols. -/
def resolverEntries (queries : List QueryResolver) (mutations : List MutationResolver) : PipelineTable :=
  queries.map (fun q => ((none, "query::" ++ q.name), q.pipeline)) ++
    mutations.map (fun m => ((none, "mutation::" ++ m.name), m.pipeline))

/-- What a module of the tree enters in the table of pipelines when a server is built. -/
def serverModuleEntries (path : Path) (info : ModuleInfo) (id : ModuleId) : PipelineTable :=
  pipelineEntries (some id) (info.program.pipelines.map (NamedPipeline.setModuleInfo path.display id)) ++
    resolverEntries (info.program.queries.map (QueryResolver.setModuleInfo path.display id))
      (info.program.mutations.map (MutationResolver.setModuleInfo path.display id))

/-- What a module of the tree enters in the table of pipelines for tests. -/
def testModuleEntries (path : Path) (info : ModuleInfo) (id : ModuleId) : PipelineTable :=
  pipelineEntries (some id) (info.program.pipelines.map (NamedPipeline.setModuleInfo path.display id))

/-- What a module of the tree enters in the table of variables. -/
def moduleVariables (_ : Path) (info : ModuleInfo) (id : ModuleId) : VariableTable := variableEntries (some id) info.program.variables

/-- The tables and the registry that an environment is built with. -/
structure SymbolTables where
  namedPipelines : PipelineTable := []
  «variables» : VariableTable := []
  moduleRegistry : ModuleRegistry := {}

/-- The symbols that `build_runtime` registers: those of the program as local ones, and those of the tree where there is one. -/
def buildRuntime (program : Program) (tree : Option ModuleTree) : SymbolTables :=
  { namedPipelines := IndexMap.insertAll [] (pipelineEntries none program.pipelines ++
      resolverEntries program.queries program.mutations ++ tree.elim [] fun t => t.forModules serverModuleEntries)
    «variables» := IndexMap.insertAll [] (variableEntries none program.variables ++ tree.elim [] fun t => t.forModules moduleVariables)
    moduleRegistry := tree.elim {} ModuleTree.registry }

/-- `register_local_symbols`. -/
def registerLocalSymbols (program : Program) : SymbolTables :=
  { namedPipelines := IndexMap.insertAll [] (pipelineEntries none program.pipelines)
    «variables» := IndexMap.insertAll [] (variableEntries none program.variables) }

/-- The symbols that `load_imports_for_tests` registers: those of the tree, or local ones where no tree could be loaded. -/
def loadImportsForTests (program : Program) (tree : Option ModuleTree) : SymbolTables :=
  match tree with
  | some t =>
    { namedPipelines := IndexMap.insertAll [] (t.forModules testModuleEntries)
      «variables» := IndexMap.insertAll [] (t.forModules moduleVariables)
      moduleRegistry := t.registry }
  | none => registerLocalSymbols program

/-- An environment with these symbols. -/
def SymbolTables.env {σ : Type} (tables : SymbolTables) (base : ExecutionEnv σ) : ExecutionEnv σ :=
  { base with
    variableMap := fun module varType name => IndexMap.get tables.variables (module, varType, name)
    namedPipelines := fun module name => IndexMap.get tables.namedPipelines (module, name)
    moduleRegistry := fun id => (tables.moduleRegistry.getModule id).map fun m =>
      { importMap := fun name => IndexMap.get m.importMap name } }

/-- The environment of a server for a program in a file, whose tree of modules is this one: its symbols over `base`, which has the
middleware. -/
def serverEnv {σ : Type} (base : ExecutionEnv σ) (main : Program) (tree : ModuleTree) : ExecutionEnv σ :=
  (buildRuntime (mergeFromModuleTree main tree) (some tree)).env base

/-- The environment of the tests of a program in a file, whose tree of modules is this one, over `base` as well. -/
def testEnv {σ : Type} (base : ExecutionEnv σ) (main : Program) (tree : ModuleTree) : ExecutionEnv σ :=
  (loadImportsForTests main (some tree)).env base

/-- `feature_flags_pipeline`: the pipeline of the main program, marked with its module. -/
def featureFlagsPipeline (program : Program) (root : Option (Path × ModuleId)) : Option Pipeline :=
  program.featureFlags.map fun p =>
    match root with
    | some (path, id) => setPipelineModuleInfo path.display id p
    | none => p

end WebPipe

import WebPipe.Lemmas.Environments
import WebPipe.Theorems.ImportLoading

/-!
# Modules keep their own names

Wherever the modules of a tree are numbered they have the same numbers, and every step is marked with the number of its module, at
any depth. So an alias is looked up among the imports of the module it is written in. A variable under an alias that the module does
not import is not found; a pipeline is then looked for among the local symbols, where the pipelines of every module are.
-/

namespace WebPipe

open IndexMap

variable {fs : FileSystem} {parse : String → Except String Program}

/-! ## The tree of a file -/

/-- An entry of the tree is that of its file. -/
theorem IsModuleTree.entry {file : Path} {tree : ModuleTree} (h : IsModuleTree fs parse file tree) {path : Path} {info : ModuleInfo}
    (hinfo : get tree path = some info) : EntryOk fs parse path info := h.entries path info ((get_eq_some_iff h.distinct).mp hinfo)

/-- A file that can be reached is a module of the tree, with its program and the imports that it declares. -/
theorem IsModuleTree.exists_info {file : Path} {tree : ModuleTree} (h : IsModuleTree fs parse file tree) {path : Path}
    (hreach : Dfs.Reaches (importsOf fs parse) file path) {program : Program} (hread : readProgram fs parse path = .ok program) :
    ∃ info, get tree path = some info ∧ info.program = program ∧
      info.imports = insertAll [] (declaredImports fs path program.imports) := by
  cases hget : get tree path with
  | none => exact absurd ((h.keys path).mpr hreach) (get_eq_none_iff.mp hget)
  | some info =>
    have hentry := h.entry hget
    have hprogram : info.program = program := by
      have hread' := hentry.program
      rw [hread] at hread'
      exact (Except.ok.inj hread').symm
    refine ⟨info, rfl, hprogram, ?_⟩
    rw [← hprogram]
    exact hentry.imports

/-- Every import of a module of the tree is in the tree. -/
theorem IsModuleTree.wf {file : Path} {tree : ModuleTree} (h : IsModuleTree fs parse file tree) : tree.Wf where
  distinct := h.distinct
  imports hinfo := by
    rw [(h.entry hinfo).imports]
    exact Distinct.insertAll (m := []) List.nodup_nil _
  closed {path info} hinfo {name target} hget := by
    have hentry := h.entry hinfo
    rw [hentry.imports, get_insertAll_nil] at hget
    have hdeclared := List.mem_reverse.mp (mem_of_get hget)
    obtain ⟨i, hi, hq⟩ := List.mem_filterMap.mp hdeclared
    cases hresolved : resolveImportPath fs path i.path with
    | error e =>
      rw [hresolved] at hq
      cases hq
    | ok q =>
      rw [hresolved] at hq
      cases hq
      have hreach := (h.keys path).mp (List.mem_map_of_mem (f := Prod.fst) ((get_eq_some_iff h.distinct).mp hinfo))
      have hin := (h.keys target).mpr (hreach.tail (leads_of_import hentry.program hi hresolved))
      rw [Option.isSome_iff_ne_none]
      exact fun hnone => get_eq_none_iff.mp hnone hin

/-! ## What is merged -/

/-- The pipelines that a route has of its own. -/
def Route.own (route : Route) : List Pipeline :=
  match route.pipeline with
  | .inline pipeline => [pipeline]
  | .named _ => []

/-- What is merged is what the modules declare, and every step of it has the id of its module. -/
def MergesMarked {α : Type} (tree : ModuleTree) (declared : Program → List α) (mark : String → ModuleId → α → α)
    (pipelines : α → List Pipeline) (merged : List α) : Prop :=
  (∀ path info id, tree.HasModule path info id → ∀ d ∈ declared info.program,
    mark path.display id d ∈ merged ∧ ∀ p ∈ pipelines (mark path.display id d), CarriesId id p) ∧
  ∀ a ∈ merged, ∃ path info id, tree.HasModule path info id ∧ ∃ d ∈ declared info.program, mark path.display id d = a

/-- Merged declarations carry the id of their module. -/
theorem mergesMarked {α : Type} {tree : ModuleTree} (htree : tree.Wf) {declared : Program → List α} {mark : String → ModuleId → α → α}
    {pipelines : α → List Pipeline} (hmark : ∀ filePath id d, ∀ p ∈ pipelines (mark filePath id d), CarriesId id p) :
    MergesMarked tree declared mark pipelines (tree.marked declared mark) := by
  refine ⟨fun path info id h d hd => ⟨?_, hmark _ _ _⟩, fun a ha => htree.mem_marked.mp ha⟩
  exact htree.mem_marked.mpr ⟨path, info, id, h, d, hd, rfl⟩

/-- All that is merged is marked. -/
structure MergeCarriesIds (main : Program) (tree : ModuleTree) : Prop where
  pipelines : MergesMarked tree Program.pipelines NamedPipeline.setModuleInfo (fun d => [d.pipeline]) (mergeFromModuleTree main tree).pipelines
  routes : MergesMarked tree Program.routes setRouteModuleInfo Route.own (mergeFromModuleTree main tree).routes
  queries : MergesMarked tree Program.queries QueryResolver.setModuleInfo (fun d => [d.pipeline]) (mergeFromModuleTree main tree).queries
  mutations : MergesMarked tree Program.mutations MutationResolver.setModuleInfo (fun d => [d.pipeline])
    (mergeFromModuleTree main tree).mutations
  resolvers : MergesMarked tree Program.resolvers TypeResolver.setModuleInfo (fun d => [d.pipeline])
    (mergeFromModuleTree main tree).resolvers

/-- Everything that is merged carries the id of its module. -/
theorem mergeCarriesIds {tree : ModuleTree} (htree : tree.Wf) (main : Program) : MergeCarriesIds main tree where
  pipelines := mergesMarked htree fun filePath id d p hp => by
    rw [List.mem_singleton.mp hp]
    exact carriesId_setPipelineModuleInfo _ _ _
  routes := mergesMarked htree fun filePath id d p hp => by
    obtain ⟨method, path, pipeline⟩ := d
    cases pipeline with
    | inline pipeline =>
      rw [List.mem_singleton.mp hp]
      exact carriesId_setPipelineModuleInfo _ _ _
    | named name => cases hp
  queries := mergesMarked htree fun filePath id d p hp => by
    rw [List.mem_singleton.mp hp]
    exact carriesId_setPipelineModuleInfo _ _ _
  mutations := mergesMarked htree fun filePath id d p hp => by
    rw [List.mem_singleton.mp hp]
    exact carriesId_setPipelineModuleInfo _ _ _
  resolvers := mergesMarked htree fun filePath id d p hp => by
    rw [List.mem_singleton.mp hp]
    exact carriesId_setPipelineModuleInfo _ _ _

/-! ## Scopes -/

/-- The pipeline that a module means by an alias and a name: the one of the module that it imports under the alias. -/
def ModuleTree.pipelineInScope (tree : ModuleTree) (info : ModuleInfo) (ns name : String) : Option Pipeline :=
  (get info.imports ns).bind fun target => tree.pipelineAt target name

/-- The variable that a module means by an alias and a name. -/
def ModuleTree.variableInScope (tree : ModuleTree) (info : ModuleInfo) (ns varType name : String) : Option Variable :=
  (get info.imports ns).bind fun target => tree.variableAt target varType name

/-- A part of a reference has no colon. -/
theorem no_colon_of_parseScopedRef {text ns name : String} (h : parseScopedRef text = (some ns, name)) : ':' ∉ name.toList := by
  have hvalid : isValidIdentifierPart name = true := by
    unfold parseScopedRef at h
    split at h
    · split at h
      · next hcond =>
        cases h
        simp only [Bool.and_eq_true] at hcond
        exact hcond.2
      · cases h
    · cases h
  intro hcolon
  unfold isValidIdentifierPart at hvalid
  split at hvalid
  · cases hvalid
  · next first rest hchars =>
    rw [hchars] at hcolon
    simp only [Bool.and_eq_true, Bool.or_eq_true, decide_eq_true_eq, List.all_eq_true] at hvalid
    obtain ⟨hfirst, hrest⟩ := hvalid
    rcases List.mem_cons.mp hcolon with heq | hin
    · subst heq
      rcases hfirst with hfirst | hfirst
      · exact absurd hfirst (by decide)
      · exact absurd hfirst (by decide)
    · rcases hrest ':' hin with (hrest | hrest) | hrest
      · exact absurd hrest (by decide)
      · exact absurd hrest (by decide)
      · exact absurd hrest (by decide)

/-- A name without a colon is entered as a local one exactly where it is the name of a pipeline. -/
theorem mem_localNames_iff {info : ModuleInfo} {name : String} (hname : ':' ∉ name.toList) :
    name ∈ info.localNames ↔ ∃ d ∈ info.program.pipelines, d.name = name := by
  rw [info.mem_localNames]
  refine or_iff_left ?_
  rintro (⟨q, -, rfl⟩ | ⟨m, -, rfl⟩)
  · exact hname (by simp)
  · exact hname (by simp)

/-- A local name of the server without a colon is the name of a pipeline of some module. -/
theorem serverEnv_local_eq_none_iff_of_no_colon {σ : Type} {tree : ModuleTree} (htree : tree.Wf) (base : ExecutionEnv σ) (main : Program)
    {name : String} (hname : ':' ∉ name.toList) :
    (serverEnv base main tree).namedPipelines none name = none ↔
      ∀ path info, get tree path = some info → ∀ d ∈ info.program.pipelines, d.name ≠ name := by
  rw [serverEnv_local_eq_none_iff htree]
  refine forall_congr' fun path => forall_congr' fun info => imp_congr_right fun _ => ?_
  rw [mem_localNames_iff hname]
  exact ⟨fun h d hd heq => h ⟨d, hd, heq⟩, fun h ⟨d, hd, heq⟩ => h d hd heq⟩

/-- The numbers of the modules of a tree are the same wherever they are assigned, all that is merged and all that the server finds
is marked with the number of its module at every depth, and a reference under an alias means what its own module imports: a variable
always, a pipeline exactly where the module imports the alias or no module has a pipeline of that name. -/
theorem module_scopes_iff {file : Path} {tree : ModuleTree} (h : IsModuleTree fs parse file tree) {σ : Type} (base : ExecutionEnv σ)
    (main : Program) :
    (∀ path info, get tree path = some info → ∃ id, tree.HasModule path info id ∧ tree.registry.getIdByPath path = some id ∧
      tree.registry.getModule id = some { path := path, importMap := tree.importIds info }) ∧
    MergeCarriesIds main tree ∧
    (∀ module name p, (serverEnv base main tree).namedPipelines module name = some p →
      ∃ path info id, tree.HasModule path info id ∧ CarriesId id p) ∧
    ∀ path info id, tree.HasModule path info id → ∀ loc text ns name, loc.moduleId = some id → parseScopedRef text = (some ns, name) →
      (∀ varType, referencedVariable (serverEnv base main tree) loc varType text = tree.variableInScope info ns varType name) ∧
      (resolveNamedPipeline (serverEnv base main tree) loc text = tree.pipelineInScope info ns name ↔
        (get info.imports ns).isSome ∨ ∀ path' info', get tree path' = some info' → ∀ d ∈ info'.program.pipelines, d.name ≠ name) := by
  have htree := h.wf
  refine ⟨fun path info hinfo => ?_, mergeCarriesIds htree main, fun module name p hp => serverEnv_carries htree base main hp,
    fun path info id hmodule loc text ns name hloc htext => ⟨fun varType => ?_, ?_⟩⟩
  · obtain ⟨id, hmodule⟩ := htree.exists_hasModule hinfo
    obtain ⟨hid, hget⟩ := hmodule.registered htree
    exact ⟨id, hmodule, hid, hget⟩
  · exact referencedVariable_alias htree (over_serverEnv htree base main) hmodule hloc htext varType
  · rw [resolveNamedPipeline_alias htree (over_serverEnv htree base main) hmodule hloc htext,
      ← serverEnv_local_eq_none_iff_of_no_colon htree base main (no_colon_of_parseScopedRef htext), ModuleTree.pipelineInScope]
    cases get info.imports ns with
    | none => simp
    | some target => simp

/-! ## An alias of another module -/

/-- The programs of the library files, where the second library has a pipeline. -/
def parseHelper (content : String) : Except String Program :=
  if content = "main" then .ok { imports := [⟨"lib/a", "a"⟩, ⟨"./lib/b", "b"⟩] }
  else if content = "a" then .ok { imports := [⟨"./b", "other"⟩] }
  else .ok { pipelines := [⟨"helper", ⟨[.regular { name := "jq", config := "." }]⟩⟩] }

/-- The files have a tree. -/
theorem exists_helperTree : ∃ tree, IsModuleTree libFiles parseHelper ["main"] tree := by
  have hpath : libFiles.canonicalize "/./main" = .ok ["main"] := by decide +kernel
  have hread : Readable libFiles parseHelper ["main"] := by
    have hclosed : ∀ p ∈ [["main"], ["lib", "a"], ["lib", "b"]], ∃ program, readProgram libFiles parseHelper p = .ok program ∧
        ∀ i ∈ program.imports, ∃ q ∈ [["main"], ["lib", "a"], ["lib", "b"]], resolveImportPath libFiles p i.path = .ok q := by
      have ha : resolveImportPath libFiles ["main"] "lib/a" = .ok ["lib", "a"] := by decide +kernel
      have hb : resolveImportPath libFiles ["main"] "./lib/b" = .ok ["lib", "b"] := by decide +kernel
      have hother : resolveImportPath libFiles ["lib", "a"] "./b" = .ok ["lib", "b"] := by decide +kernel
      intro p hp
      simp only [List.mem_cons, List.not_mem_nil, or_false] at hp
      rcases hp with rfl | rfl | rfl
      · exact ⟨{ imports := [⟨"lib/a", "a"⟩, ⟨"./lib/b", "b"⟩] }, rfl, by simp [ha, hb]⟩
      · exact ⟨{ imports := [⟨"./b", "other"⟩] }, rfl, by simp [hother]⟩
      · exact ⟨_, rfl, by simp⟩
    exact readable_of_closed hclosed List.mem_cons_self
  have hok : (loadModule libFiles parseHelper 4 "/./main" {}).map (fun p => p.1.toOption.isSome) = some true := by decide +kernel
  rcases loadModule_decides hread hpath (show libFiles.files.length < 4 by decide) with ⟨hacyclic, -⟩ | ⟨-, text, loader, hrun⟩
  · obtain ⟨tree, -, -, htree⟩ := loadModuleTree_ok (show libFiles.files.length < 4 by decide) hread hacyclic hpath
      ⟨[], holds_fresh, trivial⟩
    exact ⟨tree, htree⟩
  · rw [hrun] at hok
    cases hok

theorem read_helperMain :
    readProgram libFiles parseHelper ["main"] = .ok { imports := [⟨"lib/a", "a"⟩, ⟨"./lib/b", "b"⟩] } := rfl

/-- The library with the pipeline is in the tree. -/
theorem exists_helperLib {tree : ModuleTree} (h : IsModuleTree libFiles parseHelper ["main"] tree) :
    ∃ lib, get tree ["lib", "b"] = some lib ∧ lib.program.pipelines = [⟨"helper", ⟨[.regular { name := "jq", config := "." }]⟩⟩] := by
  have hb : resolveImportPath libFiles ["main"] "./lib/b" = .ok ["lib", "b"] := by decide +kernel
  have hreach : Dfs.Reaches (importsOf libFiles parseHelper) ["main"] ["lib", "b"] :=
    .single (leads_of_import (i := ⟨"./lib/b", "b"⟩) read_helperMain (by simp) hb)
  obtain ⟨lib, hlib, hprogram, -⟩ := h.exists_info hreach rfl
  exact ⟨lib, hlib, congrArg Program.pipelines hprogram⟩

/-- What the main file imports is found under its alias. -/
theorem module_scopes_iff_lib : ∃ tree main id, IsModuleTree libFiles parseHelper ["main"] tree ∧ tree.HasModule ["main"] main id ∧
    resolveNamedPipeline (serverEnv ({ registry := fun _ => none } : ExecutionEnv Unit) main.program tree) { moduleId := some id }
      "b::helper" = tree.pipelineInScope main "b" "helper" := by
  obtain ⟨tree, h⟩ := exists_helperTree
  obtain ⟨main, hmain, -, himports⟩ := h.exists_info .refl read_helperMain
  obtain ⟨id, hmodule⟩ := h.wf.exists_hasModule hmain
  refine ⟨tree, main, id, h, hmodule, ?_⟩
  refine ((module_scopes_iff h _ _).2.2.2 _ _ _ hmodule _ _ "b" "helper" rfl (by decide +kernel)).2.mpr (Or.inl ?_)
  rw [himports]
  decide +kernel

/-- The main file does not import `other`, which is an alias of the library that it imports; what it calls under the alias is the
pipeline of the other library all the same. -/
theorem foreign_alias_resolves : ∃ tree main lib id, IsModuleTree libFiles parseHelper ["main"] tree ∧ tree.HasModule ["main"] main id ∧
    get tree ["lib", "a"] = some lib ∧ get lib.imports "other" = some ["lib", "b"] ∧
    tree.pipelineInScope main "other" "helper" = none ∧
    resolveNamedPipeline (serverEnv ({ registry := fun _ => none } : ExecutionEnv Unit) main.program tree) { moduleId := some id }
      "other::helper" ≠ none := by
  obtain ⟨tree, h⟩ := exists_helperTree
  have ha : resolveImportPath libFiles ["main"] "lib/a" = .ok ["lib", "a"] := by decide +kernel
  have hreach : Dfs.Reaches (importsOf libFiles parseHelper) ["main"] ["lib", "a"] :=
    .single (leads_of_import (i := ⟨"lib/a", "a"⟩) read_helperMain (by simp) ha)
  obtain ⟨main, hmain, -, himports⟩ := h.exists_info .refl read_helperMain
  obtain ⟨lib, hlib, -, hlibImports⟩ := h.exists_info hreach rfl
  obtain ⟨other, hother, hpipelines⟩ := exists_helperLib h
  obtain ⟨id, hmodule⟩ := h.wf.exists_hasModule hmain
  have hnot : get main.imports "other" = none := by
    rw [himports]
    decide +kernel
  have htext : parseScopedRef "other::helper" = (some "other", "helper") := by decide +kernel
  refine ⟨tree, main, lib, id, h, hmodule, hlib, ?_, ?_, ?_⟩
  · rw [hlibImports]
    decide +kernel
  · rw [ModuleTree.pipelineInScope, hnot]
    rfl
  · rw [resolveNamedPipeline_alias h.wf (over_serverEnv h.wf _ _) hmodule rfl htext, hnot, Option.elim_none, Ne,
      serverEnv_local_eq_none_iff h.wf]
    intro hno
    refine hno _ other hother (other.mem_localNames.mpr (Or.inl ?_))
    rw [hpipelines]
    exact ⟨_, List.mem_cons_self, rfl⟩

end WebPipe

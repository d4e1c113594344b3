import WebPipe.Theorems.ModuleScopes

/-!
# What tests resolve and what a server resolves

The tests of a program and its server number the modules alike and enter the symbols of each module alike. The server enters the
symbols of all modules a second time, as local ones, and falls back on them; the tests do not. So they resolve a name alike exactly
where the module settles it, or no module can.
-/

namespace WebPipe

open IndexMap

variable {fs : FileSystem} {parse : String → Except String Program}

/-- A step of a module resolves alike in both environments: a reference under an alias to a variable always, and to a pipeline where
the module imports the alias or no module has a pipeline of that name; a name alone where the module declares it, or no module does. -/
theorem tests_resolve_alike_iff {file : Path} {tree : ModuleTree} (h : IsModuleTree fs parse file tree) {σ : Type} (base : ExecutionEnv σ)
    (main : Program) {path : Path} {info : ModuleInfo} {id : ModuleId} (hmodule : tree.HasModule path info id) {loc : SourceLocation}
    (hloc : loc.moduleId = some id) (text : String) :
    (∀ ns name, parseScopedRef text = (some ns, name) →
      (∀ varType, referencedVariable (serverEnv base main tree) loc varType text = referencedVariable (testEnv base main tree) loc varType text) ∧
      (resolveNamedPipeline (serverEnv base main tree) loc text = resolveNamedPipeline (testEnv base main tree) loc text ↔
        (get info.imports ns).isSome ∨ ∀ path' info', get tree path' = some info' → ∀ d ∈ info'.program.pipelines, d.name ≠ name)) ∧
    ∀ name, parseScopedRef text = (none, name) →
      (∀ varType, referencedVariable (serverEnv base main tree) loc varType text = referencedVariable (testEnv base main tree) loc varType text ↔
        (∃ v ∈ info.program.variables, (v.varType, v.name) = (varType, name)) ∨
          ∀ path' info', get tree path' = some info' → ∀ v ∈ info'.program.variables, (v.varType, v.name) ≠ (varType, name)) ∧
      (resolveNamedPipeline (serverEnv base main tree) loc text = resolveNamedPipeline (testEnv base main tree) loc text ↔
        (∃ d ∈ info.program.pipelines, d.name = name) ∨ ∀ path' info', get tree path' = some info' → name ∉ info'.localNames) := by
  have htree := h.wf
  have hserver := over_serverEnv htree base main
  have htest := over_testEnv htree base main
  obtain ⟨hlocalPipeline, hlocalVariable⟩ := testEnv_local htree base main
  refine ⟨fun ns name htext => ⟨fun varType => ?_, ?_⟩, fun name htext => ⟨fun varType => ?_, ?_⟩⟩
  · rw [referencedVariable_alias htree hserver hmodule hloc htext, referencedVariable_alias htree htest hmodule hloc htext]
  · rw [resolveNamedPipeline_alias htree hserver hmodule hloc htext, resolveNamedPipeline_alias htree htest hmodule hloc htext,
      ← serverEnv_local_eq_none_iff_of_no_colon htree base main (no_colon_of_parseScopedRef htext), hlocalPipeline]
    cases get info.imports ns with
    | none => simp
    | some target => simp
  · have hdeclared : (∃ v ∈ info.program.variables, (v.varType, v.name) = (varType, name)) ↔ tree.variableAt path varType name ≠ none := by
      rw [hmodule.variableAt, Ne, ModuleInfo.variableNamed_eq_none_iff]
      simp only [not_forall, not_not, exists_prop]
    have hnobody : (∀ path' info', get tree path' = some info' → ∀ v ∈ info'.program.variables, (v.varType, v.name) ≠ (varType, name)) ↔
        (serverEnv base main tree).variableMap none varType name = none := by
      rw [serverEnv_localVariable_eq_none_iff htree]
      simp only [ModuleInfo.variableNamed_eq_none_iff]
    rw [referencedVariable_name hserver hmodule hloc htext, referencedVariable_name htest hmodule hloc htext, hdeclared, hnobody,
      hlocalVariable]
    cases tree.variableAt path varType name with
    | none => simp
    | some v => simp
  · have hdeclared : (∃ d ∈ info.program.pipelines, d.name = name) ↔ tree.pipelineAt path name ≠ none := by
      rw [hmodule.pipelineAt, Ne, Option.map_eq_none_iff, ModuleInfo.pipelineNamed_eq_none_iff]
      simp only [not_forall, not_not, exists_prop]
    rw [resolveNamedPipeline_name hserver hmodule hloc htext, resolveNamedPipeline_name htest hmodule hloc htext, hdeclared,
      ← serverEnv_local_eq_none_iff htree base main, hlocalPipeline]
    cases tree.pipelineAt path name with
    | none => simp
    | some p => simp

/-- The library resolves its own pipeline alike. -/
theorem tests_resolve_alike_iff_own : ∃ tree lib id, IsModuleTree libFiles parseHelper ["main"] tree ∧ tree.HasModule ["lib", "b"] lib id ∧
    resolveNamedPipeline (serverEnv ({ registry := fun _ => none } : ExecutionEnv Unit) {} tree) { moduleId := some id } "helper" =
      resolveNamedPipeline (testEnv ({ registry := fun _ => none } : ExecutionEnv Unit) {} tree) { moduleId := some id } "helper" := by
  obtain ⟨tree, h⟩ := exists_helperTree
  obtain ⟨lib, hlib, hpipelines⟩ := exists_helperLib h
  obtain ⟨id, hmodule⟩ := h.wf.exists_hasModule hlib
  refine ⟨tree, lib, id, h, hmodule, ?_⟩
  refine ((tests_resolve_alike_iff h _ _ hmodule rfl "helper").2 "helper" (by decide +kernel)).2.mpr (Or.inl ?_)
  rw [hpipelines]
  exact ⟨_, List.mem_cons_self, rfl⟩

/-- The main file names a pipeline that only a library has: the server runs it, the tests do not find it. -/
theorem tests_miss_foreign_name : ∃ tree main id, IsModuleTree libFiles parseHelper ["main"] tree ∧ tree.HasModule ["main"] main id ∧
    resolveNamedPipeline (serverEnv ({ registry := fun _ => none } : ExecutionEnv Unit) {} tree) { moduleId := some id } "helper" ≠ none ∧
    resolveNamedPipeline (testEnv ({ registry := fun _ => none } : ExecutionEnv Unit) {} tree) { moduleId := some id } "helper" = none := by
  obtain ⟨tree, h⟩ := exists_helperTree
  obtain ⟨lib, hlib, hpipelines⟩ := exists_helperLib h
  obtain ⟨main, hmain, hprogram, -⟩ := h.exists_info .refl read_helperMain
  obtain ⟨id, hmodule⟩ := h.wf.exists_hasModule hmain
  have htext : parseScopedRef "helper" = (none, "helper") := by decide +kernel
  have hnone : tree.pipelineAt ["main"] "helper" = none := by
    rw [hmodule.pipelineAt, Option.map_eq_none_iff, ModuleInfo.pipelineNamed_eq_none_iff, hprogram]
    simp
  refine ⟨tree, main, id, h, hmodule, ?_, ?_⟩
  · rw [resolveNamedPipeline_name (over_serverEnv h.wf _ _) hmodule rfl htext, hnone, Option.none_or, Ne, serverEnv_local_eq_none_iff h.wf]
    intro hno
    refine hno _ lib hlib (lib.mem_localNames.mpr (Or.inl ?_))
    rw [hpipelines]
    exact ⟨_, List.mem_cons_self, rfl⟩
  · rw [resolveNamedPipeline_name (over_testEnv h.wf _ _) hmodule rfl htext, hnone, Option.none_or, (testEnv_local h.wf _ _).1]

end WebPipe

import WebPipe.Lemmas.Step
import Mathlib.Logic.Relation

/-!
# Two runs side by side

A run in one environment, and a run of the same pipeline in an environment that differs in its debugger, from related worlds. When
tags, joins, middleware and debuggers do the same in related worlds and leave related ones, so do the runs: they make the same calls in the
same order and come to the same result.
-/

namespace WebPipe

variable {σ : Type} {env : ExecutionEnv σ} {dbg : Option (DebuggerHook σ)} {run run' : RunFn σ} {R : World σ → World σ → Prop}
  {Fine : AsyncTask → Prop}

/-- The environment with another debugger, or none. -/
def ExecutionEnv.withDebugger (env : ExecutionEnv σ) (dbg : Option (DebuggerHook σ)) : ExecutionEnv σ := { env with debugger := dbg }

/-- The world with another request context. -/
def World.withReq (w : World σ) (c : RequestContext) : World σ := { w with reqCtx := c }

section WithDebugger

variable (env) (dbg)

@[simp] theorem variableMap_withDebugger : (env.withDebugger dbg).variableMap = env.variableMap := rfl

@[simp] theorem namedPipelines_withDebugger : (env.withDebugger dbg).namedPipelines = env.namedPipelines := rfl

@[simp] theorem registry_withDebugger : (env.withDebugger dbg).registry = env.registry := rfl

@[simp] theorem parseStringArray_withDebugger : (env.withDebugger dbg).parseStringArray = env.parseStringArray := rfl

@[simp] theorem defaultHasher_withDebugger : (env.withDebugger dbg).defaultHasher = env.defaultHasher := rfl

/-- The cache middleware does not look at the debugger. -/
@[simp] theorem cacheExecute_withDebugger (config : String) (c : PipelineContext) :
    CacheMiddleware.execute (env.withDebugger dbg) config c = CacheMiddleware.execute env config c := by
  have henabled : ∀ cfg, CacheMiddleware.effectiveEnabled (env.withDebugger dbg) cfg = CacheMiddleware.effectiveEnabled env cfg :=
    fun _ => rfl
  have httl : ∀ cfg, CacheMiddleware.effectiveTtl (env.withDebugger dbg) cfg = CacheMiddleware.effectiveTtl env cfg := fun _ => rfl
  unfold CacheMiddleware.execute CacheMiddleware.keyOf
  simp only [henabled, httl, defaultHasher_withDebugger]

@[simp] theorem getBehavior_withDebugger (name : String) : (env.withDebugger dbg).getBehavior name = env.getBehavior name := rfl

@[simp] theorem isPipelineShorthand_withDebugger (s : RegularStep) :
    isPipelineShorthand (env.withDebugger dbg) s = isPipelineShorthand env s := by
  unfold isPipelineShorthand
  rw [getBehavior_withDebugger]

theorem effectiveName_withDebugger (s : RegularStep) : effectiveName (env.withDebugger dbg) s = effectiveName env s := by
  unfold effectiveName
  rw [isPipelineShorthand_withDebugger]

theorem rawConfig_withDebugger (s : RegularStep) : rawConfig (env.withDebugger dbg) s = rawConfig env s := by
  unfold rawConfig
  rw [isPipelineShorthand_withDebugger]

@[simp] theorem importedModule_withDebugger (location : SourceLocation) (ns : String) :
    importedModule (env.withDebugger dbg) location ns = importedModule env location ns := rfl

@[simp] theorem referencedVariable_withDebugger (location : SourceLocation) (name config : String) :
    referencedVariable (env.withDebugger dbg) location name config = referencedVariable env location name config := by
  unfold referencedVariable
  simp only [importedModule_withDebugger, variableMap_withDebugger]

/-- The resolution of a config does not look at the debugger. -/
@[simp] theorem resolveConfigAndAutoname_withDebugger (location : SourceLocation) (name config : String) (input : Value) :
    resolveConfigAndAutoname (env.withDebugger dbg) location name config input =
      resolveConfigAndAutoname env location name config input := by
  unfold resolveConfigAndAutoname
  rw [referencedVariable_withDebugger]

/-- The resolution of a named pipeline does not look at it. -/
@[simp] theorem resolveNamedPipeline_withDebugger (location : SourceLocation) (name : String) :
    resolveNamedPipeline (env.withDebugger dbg) location name = resolveNamedPipeline env location name := by
  unfold resolveNamedPipeline
  simp only [importedModule_withDebugger, namedPipelines_withDebugger]

@[simp] theorem pipelineInput_withDebugger (args : List String) (input : Value) :
    pipelineInput (env.withDebugger dbg) args input = pipelineInput env args input := rfl

@[simp] theorem joinTaskNames_withDebugger (config : String) (targets : Option (List String)) :
    joinTaskNames (env.withDebugger dbg) config targets = joinTaskNames env config targets := by
  unfold joinTaskNames parseJoinTaskNames
  simp only [parseStringArray_withDebugger]

/-- A call of a middleware does not look at the debugger. -/
@[simp] theorem invoke_withDebugger (run : RunFn σ) (name : String) (args : List String) (config : String) (c : PipelineContext)
    (target : Option String) :
    invoke (env.withDebugger dbg) run name args config c target = invoke env run name args config c target := by
  unfold invoke
  simp only [registry_withDebugger, cacheExecute_withDebugger]

@[simp] theorem handleStandardExecution_withDebugger (run : RunFn σ) (name : String) (args : List String) (config : String)
    (c : PipelineContext) (target : Option String) :
    handleStandardExecution (env.withDebugger dbg) run name args config c target =
      handleStandardExecution env run name args config c target := by
  unfold handleStandardExecution
  simp only [invoke_withDebugger]

/-- What a step does with its result does not depend on it. -/
@[simp] theorem finishRegular_withDebugger (s : RegularStep) (ctx : StepContext) (result : PipelineOutput) (target : Option String)
    (cleanup isLastStep : Bool) :
    finishRegular (env.withDebugger dbg) s ctx result target cleanup isLastStep =
      finishRegular env s ctx result target cleanup isLastStep := rfl

/-- Tags do not depend on it. -/
@[simp] theorem checkTagExpr_withDebugger (c : RequestContext) (v : Value) (e : TagExpr) :
    checkTagExpr (env.withDebugger dbg) c v e = checkTagExpr env c v e := by
  induction e with
  | tag t => rfl
  | and l r ihl ihr => rw [checkTagExpr, checkTagExpr, ihl, ihr]
  | or l r ihl ihr => rw [checkTagExpr, checkTagExpr, ihl, ihr]

@[simp] theorem shouldExecuteStep_withDebugger (condition : Option TagExpr) (c : RequestContext) (v : Value) :
    shouldExecuteStep condition (env.withDebugger dbg) c v = shouldExecuteStep condition env c v := by
  cases condition <;> simp [shouldExecuteStep]

@[simp] theorem isEffectivelyLastStep_withDebugger (idx : Nat) (steps : List PipelineStep) (c : RequestContext) (v : Value) :
    isEffectivelyLastStep idx steps (env.withDebugger dbg) c v = isEffectivelyLastStep idx steps env c v := by
  simp [isEffectivelyLastStep]

/-- The case of a dispatch does not depend on it. -/
@[simp] theorem selectCase_withDebugger (c : RequestContext) (v : Value) (branches : List DispatchBranch) (default : Option Pipeline) :
    selectCase (env.withDebugger dbg) c v branches default = selectCase env c v branches default := by
  simp [selectCase]

end WithDebugger

/-! ## What a pipeline may come to -/

/-- The config of a step, with its variable resolved. -/
def resolvedConfig (env : ExecutionEnv σ) (s : RegularStep) : String :=
  (resolveConfigAndAutoname env s.location (effectiveName env s) (rawConfig env s) .null).1

/-- The named pipeline that a step calls. -/
def calledPipeline (env : ExecutionEnv σ) (s : RegularStep) : Option Pipeline :=
  if effectiveName env s = "pipeline" then resolveNamedPipeline env s.location (Text.trim (resolvedConfig env s)) else none

/-- A pipeline step calls the pipeline its config resolves to. -/
theorem calledPipeline_of_name {s : RegularStep} (h : effectiveName env s = "pipeline") :
    calledPipeline env s = resolveNamedPipeline env s.location (Text.trim (resolvedConfig env s)) :=
  if_pos h

/-- A middleware may run a pipeline to resolve a field. -/
def ResolvesWith (env : ExecutionEnv σ) (name : String) (p : Pipeline) : Prop :=
  ∃ resolvers execute, env.registry name = some (.graphql resolvers execute) ∧ p ∈ resolvers

/-- A step may start a run of a pipeline. -/
inductive StartsRun (env : ExecutionEnv σ) : PipelineStep → Pipeline → Prop
  | named {s : RegularStep} {p : Pipeline} (h : calledPipeline env s = some p) : StartsRun env (.regular s) p
  | resolver {s : RegularStep} {p : Pipeline} (h : ResolvesWith env (effectiveName env s) p) : StartsRun env (.regular s) p
  | resultBranch {branches : List ResultBranch} {location : SourceLocation} {b : ResultBranch} (h : b ∈ branches) :
      StartsRun env (.result branches location) b.pipeline
  | condition {c t : Pipeline} {e : Option Pipeline} {location : SourceLocation} : StartsRun env (.ifStep c t e location) c
  | thenBranch {c t : Pipeline} {e : Option Pipeline} {location : SourceLocation} : StartsRun env (.ifStep c t e location) t
  | elseBranch {c t p : Pipeline} {location : SourceLocation} : StartsRun env (.ifStep c t (some p) location) p
  | dispatchCase {branches : List DispatchBranch} {default : Option Pipeline} {location : SourceLocation} {b : DispatchBranch}
      (h : b ∈ branches) : StartsRun env (.dispatch branches default location) b.pipeline
  | dispatchDefault {branches : List DispatchBranch} {p : Pipeline} {location : SourceLocation} :
      StartsRun env (.dispatch branches (some p) location) p
  | foreachItem {selector : String} {p : Pipeline} {location : SourceLocation} : StartsRun env (.foreach selector p location) p

/-- A task may start a run of a pipeline: of the one that it calls, or to resolve a field. -/
inductive TaskStarts (env : ExecutionEnv σ) (task : AsyncTask) : Pipeline → Prop
  | named {p : Pipeline} (hname : task.name = "pipeline") (h : resolveNamedPipeline env task.location
      (Text.trim (resolveConfigAndAutoname env task.location task.name task.config task.input).1) = some p) : TaskStarts env task p
  | resolver {p : Pipeline} (h : ResolvesWith env task.name p) : TaskStarts env task p

/-- A run of one pipeline may start a run of another. -/
def Starts (env : ExecutionEnv σ) (p q : Pipeline) : Prop := ∃ step ∈ p.steps, StartsRun env step q

/-- The pipelines that runs of a pipeline may come to, at any depth. -/
def Leads (env : ExecutionEnv σ) : Pipeline → Pipeline → Prop := Relation.ReflTransGen (Starts env)

/-! ## The relation of worlds -/

/-- A relation that the executor keeps by itself: the cache, the clock and the other callers are the same, and what the executor writes
to both contexts leaves the worlds related. -/
structure Stable (R : World σ → World σ → Prop) : Prop where
  cache : ∀ {w w'}, R w w' → w.cache = w'.cache
  clock : ∀ {w w'}, R w w' → w.clock = w'.clock
  others : ∀ {w w'}, R w w' → w.others = w'.others
  frame : ∀ {w w'}, R w w' → ∀ cache clock others,
    R { w with cache := cache, clock := clock, others := others } { w' with cache := cache, clock := clock, others := others }
  logCall : ∀ {w w'}, R w w' → ∀ key v, R (w.withReq (w.reqCtx.logCall key v)) (w'.withReq (w'.reqCtx.logCall key v))
  profiler : ∀ {w w'}, R w w' → ∀ f : Profiler → Profiler,
    R (w.withReq { w.reqCtx with profiler := f w.reqCtx.profiler }) (w'.withReq { w'.reqCtx with profiler := f w'.reqCtx.profiler })
  cachePolicy : ∀ {w w'}, R w w' → ∀ policy,
    R (w.withReq { w.reqCtx with cachePolicy := policy }) (w'.withReq { w'.reqCtx with cachePolicy := policy })

/-- A tag expression reads the same in related worlds. -/
def TagsSim (env : ExecutionEnv σ) (R : World σ → World σ → Prop) (e : TagExpr) : Prop :=
  ∀ w w' v, R w w' → checkTagExpr env w.reqCtx v e = checkTagExpr env w'.reqCtx v e

/-- The task under a name is the same in related worlds, which stay related without it; and it is of a kind. -/
def TakesSim (R : World σ → World σ → Prop) (Fine : AsyncTask → Prop) (name : String) : Prop :=
  ∀ w w', R w w' → (w.reqCtx.takeTask name).1 = (w'.reqCtx.takeTask name).1 ∧
    R (w.withReq (w.reqCtx.takeTask name).2) (w'.withReq (w'.reqCtx.takeTask name).2) ∧
    ∀ task, (w.reqCtx.takeTask name).1 = some task → Fine task

/-- A middleware does the same in related worlds, and leaves related ones. -/
def MiddlewareSim (R : World σ → World σ → Prop)
    (execute : MiddlewareCall → RequestContext → σ → Except Failure (MiddlewareOutput × Value) × RequestContext × σ) : Prop :=
  ∀ w w' call, R w w' → (execute call w.reqCtx w.ext).1 = (execute call w'.reqCtx w'.ext).1 ∧
    R { w with reqCtx := (execute call w.reqCtx w.ext).2.1, ext := (execute call w.reqCtx w.ext).2.2 }
      { w' with reqCtx := (execute call w'.reqCtx w'.ext).2.1, ext := (execute call w'.reqCtx w'.ext).2.2 }

/-- A regular step does the same in related worlds, whatever runs it starts. -/
structure StepSim (env : ExecutionEnv σ) (R : World σ → World σ → Prop) (Fine : AsyncTask → Prop) (s : RegularStep) : Prop where
  tags : ∀ e, s.condition = some e → TagsSim env R e
  takes : effectiveName env s = "join" → ∀ names,
    joinTaskNames env (resolvedConfig env s) s.parsedJoinTargets = .ok names → ∀ name ∈ names, TakesSim R Fine name
  middleware : ∀ behavior execute, env.registry (effectiveName env s) = some (.other behavior execute) → MiddlewareSim R execute
  spawns : ∀ {w w'}, R w w' → ∀ name input,
    R (w.withReq (w.reqCtx.register name ⟨effectiveName env s, s.args, rawConfig env s, s.location, input⟩))
      (w'.withReq (w'.reqCtx.register name ⟨effectiveName env s, s.args, rawConfig env s, s.location, input⟩))

/-- The steps of a pipeline do the same in related worlds; what stands in nested pipelines does not count. -/
structure OwnSim (env : ExecutionEnv σ) (R : World σ → World σ → Prop) (Fine : AsyncTask → Prop) (p : Pipeline) : Prop where
  regular : ∀ s, .regular s ∈ p.steps → StepSim env R Fine s
  dispatch : ∀ branches default location, .dispatch branches default location ∈ p.steps →
    ∀ b ∈ branches, TagsSim env R b.condition

/-- The runs of a pipeline stay together, whatever its input. -/
def RunSim (R : World σ → World σ → Prop) (run run' : RunFn σ) (p : Pipeline) : Prop :=
  ∀ input handled, Prog.Sim R (run p input handled) (run' p input handled)

/-- A change that keeps two requests alike. -/
theorem sim_modifyReq {f : RequestContext → RequestContext}
    (hf : ∀ {w w'}, R w w' → R (w.withReq (f w.reqCtx)) (w'.withReq (f w'.reqCtx))) :
    Prog.Sim R (Exec.modifyReq f : Exec σ Unit) (Exec.modifyReq f) :=
  Prog.sim_modify fun _ _ h => hf h

/-! ## The cache -/

/-- An action of another request on the store keeps two worlds alike. -/
theorem Stable.other (h : Stable R) {w w' : World σ} (hw : R w w') (a : OtherAction) :
    (w.other a).1 = (w'.other a).1 ∧ R (w.other a).2 (w'.other a).2 := by
  cases a with
  | tick nanos =>
    refine ⟨rfl, ?_⟩
    have := h.frame hw w.cache (w.clock + nanos) w.others
    simpa only [World.other, h.cache hw, h.clock hw, h.others hw] using this
  | call lag c =>
    simp only [World.other, h.cache hw, h.clock hw]
    refine ⟨trivial, ?_⟩
    have := h.frame hw (w'.cache.serve (w'.clock - lag) c).2 w'.clock w.others
    rwa [h.others hw] at this ⊢

/-- So do any number of them. -/
theorem Stable.otherAll (h : Stable R) {w w' : World σ} (hw : R w w') (as : List OtherAction) :
    (w.otherAll as).1 = (w'.otherAll as).1 ∧ R (w.otherAll as).2 (w'.otherAll as).2 := by
  induction as generalizing w w' with
  | nil => exact ⟨rfl, hw⟩
  | cons a as ih =>
    obtain ⟨hlog, hone⟩ := h.other hw a
    obtain ⟨hlogs, hall⟩ := ih hone
    refine ⟨?_, hall⟩
    change (w.other a).1 ++ ((w.other a).2.otherAll as).1 = (w'.other a).1 ++ ((w'.other a).2.otherAll as).1
    rw [hlog, hlogs]

/-- Others act alike on two alike worlds. -/
theorem sim_interfere (h : Stable R) : Prog.Sim R (Exec.interfere : Exec σ Unit) Exec.interfere := by
  refine Prog.sim_bind (Prog.sim_update ?_) fun l => Prog.sim_emitAll l
  intro w w' hw
  have htail := h.frame hw w.cache w.clock w'.others.tail
  unfold World.interfere
  rw [h.others hw]
  refine h.otherAll ?_ _
  simpa only [h.cache hw, h.clock hw] using htail

/-- The store answers alike. -/
theorem sim_serve (h : Stable R) (now : Nat) (c : CacheCall) :
    Prog.Sim R (Exec.serve now c : Exec σ CacheAnswer) (Exec.serve now c) := by
  refine Prog.sim_bind (Prog.sim_update ?_) fun answer => Prog.sim_bind (Prog.sim_emit _) fun _ => Prog.sim_pure answer
  intro w w' hw
  have hcache := h.frame hw (w'.cache.serve now c).2 w.clock w.others
  rw [h.cache hw]
  refine ⟨rfl, ?_⟩
  simpa only [h.clock hw, h.others hw] using hcache

/-- A lookup is answered alike. -/
theorem sim_lookupKey (h : Stable R) (key : String) :
    Prog.Sim R (Exec.lookupKey key : Exec σ CacheLookup) (Exec.lookupKey key) := by
  refine Prog.sim_bind (Prog.sim_gets fun _ _ hw => h.clock hw) fun now =>
    Prog.sim_bind (sim_interfere h) fun _ => Prog.sim_bind (sim_serve h _ _) fun answer => ?_
  cases answer <;> exact Prog.sim_pure _

/-- A put is answered alike. -/
theorem sim_putKey (h : Stable R) (key : String) (response : CachedResponse) (ttlSecs : Option Nat) :
    Prog.Sim R (Exec.putKey key response ttlSecs : Exec σ Unit) (Exec.putKey key response ttlSecs) := by
  refine Prog.sim_bind (sim_interfere h) fun _ => Prog.sim_bind (Prog.sim_gets fun _ _ hw => h.clock hw) fun now =>
    Prog.sim_bind (sim_serve h _ _) fun answer => ?_
  split
  · exact Prog.sim_fail _
  · exact Prog.sim_pure _

/-- A release is answered alike. -/
theorem sim_clearKey (h : Stable R) (key : String) : Prog.Sim R (Exec.clearKey key : Exec σ Unit) (Exec.clearKey key) :=
  Prog.sim_bind (sim_interfere h) fun _ => Prog.sim_bind (Prog.sim_gets fun _ _ hw => h.clock hw) fun _ =>
    Prog.sim_bind (sim_serve h _ _) fun _ => Prog.sim_pure _

/-- The cache middleware does the same on two alike worlds. -/
theorem sim_cacheMiddleware (h : Stable R) (config : String) (c : PipelineContext) :
    Prog.Sim R (CacheMiddleware.execute env config c) (CacheMiddleware.execute env config c) := by
  unfold CacheMiddleware.execute
  dsimp only
  split
  · exact Prog.sim_bind (sim_modifyReq fun hw => h.cachePolicy hw _) fun _ =>
      Prog.sim_bind (sim_lookupKey h _) fun _ => Prog.sim_pure _
  · exact Prog.sim_pure _

/-- Slots are released alike. -/
theorem sim_releaseSlots (h : Stable R) (saves : List PendingCacheSave) :
    Prog.Sim R (releaseSlots saves : Exec σ Unit) (releaseSlots saves) := by
  induction saves with
  | nil => exact Prog.sim_pure _
  | cons save saves ih =>
    refine Prog.sim_bind ?_ fun _ => ih
    unfold releaseSlot
    split
    · exact sim_clearKey h _
    · exact Prog.sim_pure _

/-- Saves are put alike. -/
theorem sim_putSaves (h : Stable R) (response : CachedResponse) (saves : List PendingCacheSave) :
    Prog.Sim R (putSaves response saves : Exec σ Unit) (putSaves response saves) := by
  induction saves with
  | nil => exact Prog.sim_pure _
  | cons save saves ih => exact Prog.sim_bind (sim_putKey h _ _ _) fun _ => ih

/-- The final saves are made alike. -/
theorem sim_runPendingCacheSaves (h : Stable R) (saves : List PendingCacheSave) (output : PipelineOutput) :
    Prog.Sim R (runPendingCacheSaves saves output : Exec σ Unit) (runPendingCacheSaves saves output) := by
  unfold runPendingCacheSaves
  split
  · exact sim_releaseSlots h saves
  · exact sim_putSaves h _ saves

/-! ## Calls -/

/-- A nested run is alike when the run is. -/
theorem sim_nested {p : Pipeline} (h : RunSim R run run' p) (entry : Entry) (input : Value) (handled : Option String) :
    Prog.Sim R (Exec.nested entry run p input handled) (Exec.nested entry run' p input handled) :=
  Prog.sim_enclose (h input handled)

/-- A resolver starts alike. -/
theorem sim_startResolver (h : Stable R) (record : ResolverRecord) (input : Value) :
    Prog.Sim R (startResolver record input : Exec σ Unit) (startResolver record input) := by
  unfold startResolver
  cases record with
  | field key => exact sim_modifyReq fun hw => h.profiler (h.logCall hw key input) (·.push key)
  | part => exact Prog.sim_pure _
  | loader name => exact sim_modifyReq fun hw => h.profiler hw (·.push name)

/-- A resolver ends alike. -/
theorem sim_endResolver (h : Stable R) (record : ResolverRecord) (result : Except WebPipeError PipelineOutput) :
    Prog.Sim R (endResolver record result : Exec σ Unit) (endResolver record result) := by
  unfold endResolver
  split
  · exact sim_modifyReq fun hw => h.profiler hw fun p => p.recordSample.pop
  · exact sim_modifyReq fun hw => h.profiler hw fun p => p.recordSample.pop
  · exact Prog.sim_pure _

/-- A resolver runs alike when its pipeline does. -/
theorem sim_runResolver (h : Stable R) {p : Pipeline} (hp : RunSim R run run' p) (record : ResolverRecord) (input : Value) :
    Prog.Sim R (runResolver run record p input) (runResolver run' record p input) := by
  refine Prog.sim_bind (sim_startResolver h record input) fun _ =>
    Prog.sim_bind (Prog.sim_attempt (sim_nested hp (.resolver record) input none)) fun result => ?_
  rcases result with (e | _) | output
  · exact Prog.sim_bind (sim_endResolver h _ _) fun _ => Prog.sim_pure _
  · exact Prog.sim_fail _
  · exact Prog.sim_bind (sim_endResolver h _ _) fun _ => Prog.sim_pure _

/-- A query is resolved alike when the pipelines of its resolvers run alike. -/
theorem sim_perform (h : Stable R) {resolvers : List Pipeline} (hrun : ∀ p ∈ resolvers, RunSim R run run' p)
    (resolution : Resolution resolvers) : Prog.Sim R (resolution.perform run) (resolution.perform run') := by
  induction resolution with
  | done result => exact Prog.sim_ofExcept _
  | mocked key input next ih =>
    exact Prog.sim_bind (sim_startResolver h _ _) fun _ =>
      Prog.sim_bind (sim_modifyReq fun hw => h.profiler hw fun p => p.recordSample.pop) fun _ => ih
  | resolve record pipeline hmem input next ih =>
    exact Prog.sim_bind (sim_runResolver h (hrun pipeline hmem) record input) fun result => ih result

/-- A call is alike when the middleware that is called, and the pipelines it runs, are. -/
theorem sim_invoke (h : Stable R) {name : String}
    (hm : ∀ behavior execute, env.registry name = some (.other behavior execute) → MiddlewareSim R execute)
    (hrun : ∀ p, ResolvesWith env name p → RunSim R run run' p)
    (args : List String) (config : String) (c : PipelineContext) (target : Option String) :
    Prog.Sim R (invoke env run name args config c target) (invoke env run' name args config c target) := by
  unfold invoke
  dsimp only
  cases hr : env.registry name with
  | none => exact Prog.sim_fail _
  | some m =>
    cases m with
    | cache =>
      exact Prog.sim_bind (Prog.sim_emit _) fun _ => Prog.sim_bind (sim_cacheMiddleware h config c) fun _ => Prog.sim_pure _
    | graphql resolvers execute =>
      exact Prog.sim_bind (Prog.sim_emit _) fun _ =>
        Prog.sim_bind (sim_perform h (fun p hp => hrun p ⟨resolvers, execute, hr, hp⟩) _) fun _ => Prog.sim_pure _
    | other behavior execute =>
      exact Prog.sim_bind (Prog.sim_emit _) fun _ =>
        Prog.sim_bind (Prog.sim_update fun w w' hw => hm behavior execute hr w w' _ hw) fun r =>
          Prog.sim_bind (Prog.sim_ofExcept _) fun _ => Prog.sim_pure _

/-- The config that a step's variable resolves to does not depend on its input. -/
theorem resolveConfig_fst (env : ExecutionEnv σ) (loc : SourceLocation) (name config : String) (input : Value) :
    (resolveConfigAndAutoname env loc name config input).1 = (resolveConfigAndAutoname env loc name config .null).1 := by
  unfold resolveConfigAndAutoname
  cases referencedVariable env loc name config with
  | none => rfl
  | some var =>
    cases input with
    | object members =>
      dsimp only
      split <;> rfl
    | _ => rfl

/-- A pipeline that is called runs alike. -/
theorem sim_handleRecursivePipeline (dbg : Option (DebuggerHook σ)) {args : List String} {config : String} {location : SourceLocation}
    (hrun : ∀ p, resolveNamedPipeline env location (Text.trim config) = some p → RunSim R run run' p) (input : Value) :
    Prog.Sim R (handleRecursivePipeline env run args config location input)
      (handleRecursivePipeline (env.withDebugger dbg) run' args config location input) := by
  unfold handleRecursivePipeline
  simp only [resolveNamedPipeline_withDebugger, pipelineInput_withDebugger]
  cases hp : resolveNamedPipeline env location (Text.trim config) with
  | none => exact Prog.sim_fail _
  | some p =>
    cases pipelineInput env args input with
    | error e => exact Prog.sim_fail _
    | ok v => exact sim_nested (hrun p hp) _ _ _

/-- The task of a step starts no runs but those that the step may start. -/
theorem TaskStarts.startsRun {s : RegularStep} {input : Value} {p : Pipeline}
    (h : TaskStarts env ⟨effectiveName env s, s.args, rawConfig env s, s.location, input⟩ p) : StartsRun env (.regular s) p := by
  cases h with
  | named hname h =>
    dsimp only at hname h
    rw [resolveConfig_fst] at h
    exact .named ((calledPipeline_of_name hname).trans h)
  | resolver h => exact .resolver h

/-- The body of a task is alike when its middleware or its pipeline is. -/
theorem sim_taskBody (h : Stable R) {task : AsyncTask}
    (hm : ∀ behavior execute, env.registry task.name = some (.other behavior execute) → MiddlewareSim R execute)
    (hrun : ∀ p, TaskStarts env task p → RunSim R run run' p) :
    Prog.Sim R (taskBody env run task) (taskBody (env.withDebugger dbg) run' task) := by
  unfold taskBody
  simp only [resolveConfigAndAutoname_withDebugger, invoke_withDebugger]
  split_ifs with hname
  · exact Prog.sim_bind (sim_handleRecursivePipeline dbg (fun p hp => hrun p (.named hname hp)) _) fun _ => Prog.sim_pure _
  · exact Prog.sim_bind (sim_invoke h hm (fun p hp => hrun p (.resolver hp)) _ _ _ _) fun _ => Prog.sim_pure _

/-- The tasks of a kind run alike. -/
def TaskSim (env env' : ExecutionEnv σ) (run run' : RunFn σ) (R : World σ → World σ → Prop) (Fine : AsyncTask → Prop) : Prop :=
  ∀ name task, Fine task → Prog.Sim R (runTask env run name task) (runTask env' run' name task)

/-- Joined tasks are delivered alike: the induction is on the names that are left. -/
theorem sim_joinTasks (h : Stable R) (htask : TaskSim env (env.withDebugger dbg) run run' R Fine) {names : List String}
    (hnames : ∀ name ∈ names, TakesSim R Fine name) (results : Object) :
    Prog.Sim R (joinTasks env run names results) (joinTasks (env.withDebugger dbg) run' names results) := by
  induction names generalizing results with
  | nil => exact Prog.sim_pure _
  | cons name names ih =>
    have hrest : ∀ results, Prog.Sim R (joinTasks env run names results) (joinTasks (env.withDebugger dbg) run' names results) :=
      ih fun n hn => hnames n (List.mem_cons_of_mem _ hn)
    intro w w' hw
    obtain ⟨htaken, hleft, hfine⟩ := hnames name List.mem_cons_self w w' hw
    unfold joinTasks
    rw [Prog.update_bind, Prog.update_bind]
    dsimp only
    rw [← htaken]
    cases htask' : (w.reqCtx.takeTask name).1 with
    | none => exact hrest _ _ _ hleft
    | some task =>
      refine Prog.sim_bind (htask name task (hfine task htask')) (fun outcome => ?_) _ _ hleft
      rcases outcome with (e | _) | ⟨value, profiler⟩
      · exact hrest _
      · exact hrest _
      · exact Prog.sim_bind (sim_modifyReq fun hw => h.profiler hw
          fun p => { p with samples := p.samples ++ profiler.samples.map (taskSample p.stack name) }) fun _ => hrest _

/-- A join is alike when the tasks it takes are. -/
theorem sim_handleJoin (h : Stable R) (htask : TaskSim env (env.withDebugger dbg) run run' R Fine) (config : String)
    (targets : Option (List String)) (hnames : ∀ names, joinTaskNames env config targets = .ok names →
      ∀ name ∈ names, TakesSim R Fine name) (input : Value) :
    Prog.Sim R (handleJoin env run config targets input) (handleJoin (env.withDebugger dbg) run' config targets input) := by
  unfold handleJoin
  rw [joinTaskNames_withDebugger]
  cases hn : joinTaskNames env config targets with
  | error e => exact fun w w' hw => Or.inr ⟨_, w, w', _, rfl, rfl, hw⟩
  | ok names =>
    change Prog.Sim R (pure names >>= _) (pure names >>= _)
    rw [pure_bind, pure_bind]
    exact Prog.sim_bind (sim_joinTasks h htask (hnames names hn) _) fun _ =>
      Prog.sim_bind (Prog.sim_emit _) fun _ => Prog.sim_pure _

/-! ## Steps -/

/-- Only a step named `join` joins. -/
theorem name_of_join {name : String} {condition : Option TagExpr} (h : detectExecutionMode name condition = .join) :
    name = "join" := by
  unfold detectExecutionMode at h
  split at h
  · cases h
  · split at h
    · assumption
    · split at h <;> cases h

/-- Only a step named `pipeline` calls a pipeline. -/
theorem name_of_recursive {name : String} {condition : Option TagExpr}
    (h : detectExecutionMode name condition = .recursive) : name = "pipeline" := by
  unfold detectExecutionMode at h
  split at h
  · cases h
  · split at h
    · cases h
    · split at h
      · assumption
      · cases h

/-- The core of a step is alike, whichever way the step is executed. -/
theorem sim_runCoreLogic (h : Stable R) (htask : TaskSim env (env.withDebugger dbg) run run' R Fine) {s : RegularStep}
    (hs : StepSim env R Fine s) {mode : ExecutionMode} (hmode : mode = detectExecutionMode (effectiveName env s) s.condition)
    (hrun : ∀ p, StartsRun env (.regular s) p → RunSim R run run' p) {config : String} (hconfig : config = resolvedConfig env s)
    (ctx : StepContext) (input : Value) (target : Option String) :
    Prog.Sim R (runCoreLogic env run s ctx mode config input target)
      (runCoreLogic (env.withDebugger dbg) run' s ctx mode config input target) := by
  have hstandard : ∀ temp, Prog.Sim R (handleStandardExecution env run (effectiveName env s) s.args config temp target)
      (handleStandardExecution env run' (effectiveName env s) s.args config temp target) := fun temp =>
    Prog.sim_bind (sim_invoke h hs.middleware (fun p hp => hrun p (.resolver hp)) _ _ _ _) fun _ => Prog.sim_pure _
  have hname := effectiveName_withDebugger env dbg s
  cases mode with
  | standard | async name =>
    unfold runCoreLogic
    simp only [hname, handleStandardExecution_withDebugger]
    exact Prog.sim_bind (hstandard _) fun _ => Prog.sim_pure _
  | join =>
    have hjoin : effectiveName env s = "join" := name_of_join hmode.symm
    have htakes := hs.takes hjoin
    rw [← hconfig] at htakes
    unfold runCoreLogic
    dsimp only
    exact Prog.sim_bind (sim_handleJoin h htask config s.parsedJoinTargets htakes input) fun _ => Prog.sim_pure _
  | recursive =>
    have hcall : effectiveName env s = "pipeline" := name_of_recursive hmode.symm
    have hcalled : ∀ p, resolveNamedPipeline env s.location (Text.trim config) = some p → RunSim R run run' p := by
      intro p hp
      rw [hconfig] at hp
      exact hrun p (.named ((calledPipeline_of_name hcall).trans hp))
    unfold runCoreLogic
    dsimp only
    exact Prog.sim_bind (sim_handleRecursivePipeline dbg hcalled input) fun _ => Prog.sim_pure _

/-- So is the step around it. -/
theorem sim_executeCore (h : Stable R) (htask : TaskSim env (env.withDebugger dbg) run run' R Fine) {s : RegularStep}
    (hs : StepSim env R Fine s) (hrun : ∀ p, StartsRun env (.regular s) p → RunSim R run run' p) {mode : ExecutionMode}
    (hmode : mode = detectExecutionMode (effectiveName env s) s.condition) (ctx : StepContext) (isLastStep : Bool) :
    Prog.Sim R (executeCore env run s ctx mode isLastStep) (executeCore (env.withDebugger dbg) run' s ctx mode isLastStep) := by
  have hlog : ∀ effName config input,
      Prog.Sim R (logPipelineCall effName config input : Exec σ Unit) (logPipelineCall effName config input) := by
    intro effName config input
    unfold logPipelineCall
    split
    · exact sim_modifyReq fun hw => h.logCall hw _ _
    · exact Prog.sim_pure _
  have hname := effectiveName_withDebugger env dbg s
  have hconfig := rawConfig_withDebugger env dbg s
  unfold executeCore
  simp only [hname, hconfig, resolveConfigAndAutoname_withDebugger, finishRegular_withDebugger]
  refine Prog.sim_bind (hlog _ _ _) fun _ => Prog.sim_bind ?_ fun _ => Prog.sim_pure _
  exact sim_runCoreLogic h htask hs hmode hrun (resolveConfig_fst _ _ _ _ _) _ _ _

/-- Whether a step runs is decided alike. -/
theorem shouldExecute_sim {condition : Option TagExpr} (ht : ∀ e, condition = some e → TagsSim env R e) {w w' : World σ}
    (hw : R w w') (v : Value) : shouldExecuteStep condition env w.reqCtx v = shouldExecuteStep condition env w'.reqCtx v := by
  cases condition with
  | none => rfl
  | some e => exact ht e rfl w w' v hw

/-- Whether a step counts as the last is seen alike. -/
theorem isEffectivelyLastStep_sim {steps : List PipelineStep} (hsteps : ∀ s, .regular s ∈ steps → StepSim env R Fine s)
    {w w' : World σ} (hw : R w w') (idx : Nat) (v : Value) :
    isEffectivelyLastStep idx steps env w.reqCtx v = isEffectivelyLastStep idx steps env w'.reqCtx v := by
  unfold isEffectivelyLastStep
  refine Bool.eq_iff_iff.mpr ?_
  simp only [List.all_eq_true]
  refine forall_congr' fun step => forall_congr' fun hmem => ?_
  cases step with
  | regular s =>
    dsimp only
    rw [shouldExecute_sim (hsteps s (List.mem_of_mem_drop hmem)).tags hw v]
  | _ => exact Iff.rfl

/-- A regular step is alike. -/
theorem sim_executeRegular (h : Stable R) (htask : TaskSim env (env.withDebugger dbg) run run' R Fine) {s : RegularStep}
    (hs : StepSim env R Fine s) (hrun : ∀ p, StartsRun env (.regular s) p → RunSim R run run' p) {ctx : StepContext}
    (hsteps : ∀ s, .regular s ∈ ctx.allSteps → StepSim env R Fine s) :
    Prog.Sim R (executeRegular env run s ctx) (executeRegular (env.withDebugger dbg) run' s ctx) := by
  have hname := effectiveName_withDebugger env dbg s
  have hconfig := rawConfig_withDebugger env dbg s
  unfold executeRegular
  simp only [hname, hconfig, shouldExecuteStep_withDebugger, isEffectivelyLastStep_withDebugger]
  refine Prog.sim_bind (Prog.sim_gets fun w w' hw => shouldExecute_sim hs.tags hw _) fun runs => ?_
  split
  · refine Prog.sim_bind (Prog.sim_gets fun w w' hw => isEffectivelyLastStep_sim hsteps hw _ _) fun isLastStep => ?_
    split
    · refine Prog.sim_bind ?_ fun _ => Prog.sim_pure _
      exact Prog.sim_bind (Prog.sim_emit _) fun _ => Prog.sim_modify fun w w' hw => hs.spawns hw _ _
    · exact sim_executeCore h htask hs hrun rfl ctx isLastStep
  · exact Prog.sim_pure _

/-- A branch is alike when its run is. -/
theorem sim_executeBranch {p : Pipeline} (hp : RunSim R run run' p) (entry : Entry) (ctx : StepContext) :
    Prog.Sim R (executeBranch run entry p ctx : Exec σ _) (executeBranch run' entry p ctx) :=
  Prog.sim_bind (sim_nested hp _ _ _) fun _ => Prog.sim_pure _

/-- The items of a loop are alike when their runs are. -/
theorem sim_foreachItems {p : Pipeline} (hp : RunSim R run run' p) (items : List Value) :
    Prog.Sim R (foreachItems run p items) (foreachItems run' p items) := by
  induction items with
  | nil => exact Prog.sim_pure _
  | cons item items ih =>
    exact Prog.sim_bind (sim_nested hp _ _ _) fun _ => Prog.sim_bind ih fun _ => Prog.sim_pure _

/-- A selected branch is one of the branches. -/
theorem selectBranch_mem {branches : List ResultBranch} {errorType : Option String} {b : ResultBranch}
    (h : selectBranch branches errorType = some b) : b ∈ branches := by
  unfold selectBranch at h
  rcases Option.or_eq_some_iff.mp h with h | ⟨-, h⟩
  · cases errorType with
    | none => exact List.mem_of_find?_eq_some h
    | some err => exact List.mem_of_find?_eq_some h
  · exact List.mem_of_find?_eq_some h

/-- The case of a dispatch is selected alike. -/
theorem selectCase_sim {branches : List DispatchBranch} (hb : ∀ b ∈ branches, TagsSim env R b.condition) {w w' : World σ}
    (hw : R w w') (v : Value) (default : Option Pipeline) :
    selectCase env w.reqCtx v branches default = selectCase env w'.reqCtx v branches default := by
  have hfind : branches.find? (fun (b : DispatchBranch) => checkTagExpr env w.reqCtx v b.condition) =
      branches.find? (fun (b : DispatchBranch) => checkTagExpr env w'.reqCtx v b.condition) := by
    induction branches with
    | nil => rfl
    | cons b branches ih =>
      rw [List.find?_cons, List.find?_cons, hb b List.mem_cons_self w w' v hw,
        ih fun x hx => hb x (List.mem_cons_of_mem _ hx)]
  unfold selectCase
  rw [hfind]

/-- A selected case is started by the step. -/
theorem selectCase_starts {branches : List DispatchBranch} {default : Option Pipeline} {location : SourceLocation}
    {c : RequestContext} {v : Value} {p : Pipeline} (h : selectCase env c v branches default = some p) :
    StartsRun env (.dispatch branches default location) p := by
  unfold selectCase at h
  split at h
  · rename_i b hfound
    cases h
    exact .dispatchCase (List.mem_of_find?_eq_some hfound)
  · subst h
    exact .dispatchDefault

/-- A step stays together with itself when the runs it may start do. -/
theorem sim_dispatchStep (h : Stable R) (htask : TaskSim env (env.withDebugger dbg) run run' R Fine) {p : Pipeline}
    (hp : OwnSim env R Fine p) {step : PipelineStep} (hstep : step ∈ p.steps)
    (hrun : ∀ q, StartsRun env step q → RunSim R run run' q) {ctx : StepContext} (hctx : ctx.allSteps = p.steps) :
    Prog.Sim R (dispatchStep env run step ctx) (dispatchStep (env.withDebugger dbg) run' step ctx) := by
  unfold dispatchStep
  cases step with
  | regular s =>
    refine sim_executeRegular h htask (hp.regular s hstep) hrun ?_
    rw [hctx]
    exact hp.regular
  | result branches location =>
    dsimp only
    unfold handleResultStep
    dsimp only
    cases hb : selectBranch branches (extractErrorType ctx.pipeCtx.state) with
    | none => exact Prog.sim_pure _
    | some b =>
      exact Prog.sim_bind (sim_nested (hrun _ (.resultBranch (selectBranch_mem hb))) _ _ _) fun _ => Prog.sim_pure _
  | ifStep condition thenBranch elseBranch location =>
    dsimp only
    unfold handleIfStep
    refine Prog.sim_bind (sim_nested (hrun _ .condition) _ _ _) fun cond => ?_
    split
    · exact sim_executeBranch (hrun _ .thenBranch) _ _
    · cases elseBranch with
      | none => exact Prog.sim_pure _
      | some q => exact sim_executeBranch (hrun _ .elseBranch) _ _
  | dispatch branches default location =>
    dsimp only
    unfold handleDispatchStep
    simp only [selectCase_withDebugger]
    intro w w' hw
    have hsame := selectCase_sim (hp.dispatch branches default location hstep) hw ctx.pipeCtx.state default
    rw [Exec.req, Prog.gets_bind, Prog.gets_bind, hsame]
    cases hsel : selectCase env w'.reqCtx ctx.pipeCtx.state branches default with
    | none => exact Prog.sim_pure _ w w' hw
    | some q => exact sim_executeBranch (hrun q (selectCase_starts hsel)) _ _ w w' hw
  | foreach selector q location =>
    dsimp only
    unfold handleForeachStep
    generalize JsonPath.getValue ctx.pipeCtx.state selector = found
    split
    · exact Prog.sim_bind (sim_foreachItems (hrun _ .foreachItem) _) fun _ => Prog.sim_pure _
    · exact Prog.sim_fail _

/-- The debuggers of two environments do the same before a step. -/
def BeforeSim (env env' : ExecutionEnv σ) (R : World σ → World σ → Prop) : Prop :=
  ∀ step name ctx, Prog.Sim R (handleDebuggerBefore env step name ctx) (handleDebuggerBefore env' step name ctx)

/-- Every step is alike, with what the debugger does before it. -/
theorem sim_executeStep (h : Stable R) (hbefore : BeforeSim env (env.withDebugger dbg) R)
    (htask : TaskSim env (env.withDebugger dbg) run run' R Fine) {p : Pipeline} (hp : OwnSim env R Fine p) {step : PipelineStep}
    (hstep : step ∈ p.steps) (hrun : ∀ q, StartsRun env step q → RunSim R run run' q) {ctx : StepContext}
    (hctx : ctx.allSteps = p.steps) :
    Prog.Sim R (executeStep env run step ctx) (executeStep (env.withDebugger dbg) run' step ctx) := by
  have hsteps : Prog.Yields (fun ctx' : StepContext => ctx'.allSteps = p.steps)
      (handleDebuggerBefore env step (determineStepName step) ctx) := by
    intro w ctx' w' l hbefore
    obtain ⟨-, -, -, ⟨_, he⟩ | ⟨state, he⟩⟩ := handleDebuggerBefore_eq_some hbefore
    · cases he
    · cases he
      exact hctx
  unfold executeStep
  dsimp only
  refine Prog.sim_bind (sim_modifyReq fun hw => h.profiler hw fun p => p.push (determineStepName step)) fun _ =>
    Prog.sim_bind_of_yields (hbefore _ _ _) hsteps fun ctx' hctx' => ?_
  refine Prog.sim_bind (Prog.sim_attempt (sim_dispatchStep h htask hp hstep hrun hctx')) fun raw =>
    Prog.sim_bind (Prog.sim_emit _) fun _ => Prog.sim_bind (sim_modifyReq fun hw => ?_) fun _ => Prog.sim_ofExcept _
  exact h.profiler hw fun p => p.recordSample.pop

/-! ## Runs -/

/-- One turn of the loop is alike. -/
theorem sim_iterate (h : Stable R) (hbefore : BeforeSim env (env.withDebugger dbg) R)
    (htask : TaskSim env (env.withDebugger dbg) run run' R Fine) {p : Pipeline} (hp : OwnSim env R Fine p) {step : PipelineStep}
    (hstep : step ∈ p.steps) (hrun : ∀ q, StartsRun env step q → RunSim R run run' q) (idx : Nat) (s : LoopState) :
    Prog.Sim R (iterate env run p.steps idx step s) (iterate (env.withDebugger dbg) run' p.steps idx step s) := by
  unfold iterate
  split
  · exact Prog.sim_bind (Prog.sim_emit _) fun _ => Prog.sim_pure _
  · refine Prog.sim_bind (Prog.sim_emit _) fun _ =>
      Prog.sim_bind (sim_executeStep h hbefore htask hp hstep hrun rfl) fun result => ?_
    obtain ⟨_ | output, ctx⟩ := result
    · exact Prog.sim_pure _
    · exact Prog.sim_bind (sim_runPendingCacheSaves h _ _) fun _ => Prog.sim_pure _

/-- The loop is alike: induction on the steps that are left. -/
theorem sim_loopSteps (h : Stable R) (hbefore : BeforeSim env (env.withDebugger dbg) R)
    (htask : TaskSim env (env.withDebugger dbg) run run' R Fine) {p : Pipeline} (hp : OwnSim env R Fine p)
    {rest : List PipelineStep} (hrest : ∀ step ∈ rest, step ∈ p.steps)
    (hrun : ∀ step ∈ p.steps, ∀ q, StartsRun env step q → RunSim R run run' q) (idx : Nat) (s : LoopState) :
    Prog.Sim R (loopSteps env run p.steps idx rest s) (loopSteps (env.withDebugger dbg) run' p.steps idx rest s) := by
  induction rest generalizing idx s with
  | nil => exact Prog.sim_pure _
  | cons step rest ih =>
    have hstep := hrest step List.mem_cons_self
    refine Prog.sim_bind (sim_iterate h hbefore htask hp hstep (hrun step hstep) idx s) fun turn => ?_
    cases turn with
    | inl s' => exact ih (fun x hx => hrest x (List.mem_cons_of_mem _ hx)) _ _
    | inr output => exact Prog.sim_pure _

/-- The runs of a pipeline stay together when its steps do, and the tasks and the runs that they may start. -/
theorem sim_runPipeline (dbg : Option (DebuggerHook σ)) (h : Stable R) (hbefore : BeforeSim env (env.withDebugger dbg) R)
    (htask : TaskSim env (env.withDebugger dbg) run run' R Fine) {p : Pipeline} (hp : OwnSim env R Fine p)
    (hrun : ∀ step ∈ p.steps, ∀ q, StartsRun env step q → RunSim R run run' q) :
    RunSim R (runPipeline env run) (runPipeline (env.withDebugger dbg) run') p := by
  intro input handled
  refine Prog.sim_bind (sim_loopSteps h hbefore htask hp (fun _ hs => hs) hrun 0 _) fun last => ?_
  cases last with
  | inl s => exact Prog.sim_bind (sim_runPendingCacheSaves h _ _) fun _ => Prog.sim_pure _
  | inr output => exact Prog.sim_pure _

end WebPipe

import WebPipe.Lemmas.Simulation
import WebPipe.Lib.Total

/-!
# The executor ends where its runs do

Every loop of the executor goes over a list that is there from the start, so nothing but nested runs can keep it from ending.
-/

namespace WebPipe

variable {σ : Type} {env : ExecutionEnv σ} {run : RunFn σ}

/-- Every run ends. -/
def RunsEnd (run : RunFn σ) : Prop := ∀ pipeline input handled, Prog.Total (run pipeline input handled)

/-! ## The store -/

theorem total_interfere : Prog.Total (Exec.interfere : Exec σ Unit) :=
  Prog.total_bind (Prog.total_update _) fun _ => Prog.total_emitAll _

theorem total_serve (now : Nat) (c : CacheCall) : Prog.Total (Exec.serve now c : Exec σ CacheAnswer) :=
  Prog.total_bind (Prog.total_update _) fun _ => Prog.total_bind (Prog.total_emit _) fun _ => Prog.total_pure _

theorem total_lookupKey (key : String) : Prog.Total (Exec.lookupKey key : Exec σ CacheLookup) := by
  refine Prog.total_bind (Prog.total_gets _) fun _ => Prog.total_bind total_interfere fun _ =>
    Prog.total_bind (total_serve _ _) fun answer => ?_
  cases answer <;> exact Prog.total_pure _

theorem total_putKey (key : String) (response : CachedResponse) (ttlSecs : Option Nat) :
    Prog.Total (Exec.putKey key response ttlSecs : Exec σ Unit) := by
  refine Prog.total_bind total_interfere fun _ => Prog.total_bind (Prog.total_gets _) fun _ =>
    Prog.total_bind (total_serve _ _) fun answer => ?_
  split
  · exact Prog.total_fail _
  · exact Prog.total_pure _

theorem total_clearKey (key : String) : Prog.Total (Exec.clearKey key : Exec σ Unit) :=
  Prog.total_bind total_interfere fun _ => Prog.total_bind (Prog.total_gets _) fun _ =>
    Prog.total_bind (total_serve _ _) fun _ => Prog.total_pure _

/-- The cache middleware ends. -/
theorem total_cacheMiddleware (config : String) (c : PipelineContext) : Prog.Total (CacheMiddleware.execute env config c) := by
  unfold CacheMiddleware.execute
  dsimp only
  split
  · exact Prog.total_bind (Prog.total_modify _) fun _ => Prog.total_bind (total_lookupKey _) fun _ => Prog.total_pure _
  · exact Prog.total_pure _

theorem total_releaseSlots (saves : List PendingCacheSave) : Prog.Total (releaseSlots saves : Exec σ Unit) := by
  induction saves with
  | nil => exact Prog.total_pure _
  | cons save saves ih =>
    refine Prog.total_bind ?_ fun _ => ih
    unfold releaseSlot
    split
    · exact total_clearKey _
    · exact Prog.total_pure _

theorem total_putSaves (response : CachedResponse) (saves : List PendingCacheSave) :
    Prog.Total (putSaves response saves : Exec σ Unit) := by
  induction saves with
  | nil => exact Prog.total_pure _
  | cons save saves ih => exact Prog.total_bind (total_putKey _ _ _) fun _ => ih

/-- The final saves end. -/
theorem total_runPendingCacheSaves (saves : List PendingCacheSave) (output : PipelineOutput) :
    Prog.Total (runPendingCacheSaves saves output : Exec σ Unit) := by
  unfold runPendingCacheSaves
  split
  · exact total_releaseSlots saves
  · exact total_putSaves _ saves

/-! ## Calls -/

/-- A nested run ends when runs do. -/
theorem total_nested (hrun : RunsEnd run) (entry : Entry) (pipeline : Pipeline) (input : Value) (handled : Option String) :
    Prog.Total (Exec.nested entry run pipeline input handled) := Prog.total_enclose (hrun _ _ _)

theorem total_startResolver (record : ResolverRecord) (input : Value) : Prog.Total (startResolver record input : Exec σ Unit) := by
  cases record with
  | field key => exact Prog.total_modify _
  | part => exact Prog.total_pure _
  | loader name => exact Prog.total_modify _

theorem total_endResolver (record : ResolverRecord) (result : Except WebPipeError PipelineOutput) :
    Prog.Total (endResolver record result : Exec σ Unit) := by
  unfold endResolver
  split
  · exact Prog.total_modify _
  · exact Prog.total_modify _
  · exact Prog.total_pure _

/-- A resolver ends when runs do. -/
theorem total_runResolver (hrun : RunsEnd run) (record : ResolverRecord) (pipeline : Pipeline) (input : Value) :
    Prog.Total (runResolver run record pipeline input) := by
  refine Prog.total_bind (total_startResolver _ _) fun _ =>
    Prog.total_bind (Prog.total_attempt (total_nested hrun _ _ _ _)) fun result => ?_
  rcases result with (e | _) | output
  · exact Prog.total_bind (total_endResolver _ _) fun _ => Prog.total_pure _
  · exact Prog.total_fail _
  · exact Prog.total_bind (total_endResolver _ _) fun _ => Prog.total_pure _

/-- A query ends when runs do: induction on what is left of it. -/
theorem total_perform (hrun : RunsEnd run) {resolvers : List Pipeline} (resolution : Resolution resolvers) :
    Prog.Total (resolution.perform run) := by
  induction resolution with
  | done result => exact Prog.total_ofExcept _
  | mocked key input next ih =>
    exact Prog.total_bind (total_startResolver _ _) fun _ => Prog.total_bind (Prog.total_modify _) fun _ => ih
  | resolve record pipeline h input next ih => exact Prog.total_bind (total_runResolver hrun _ _ _) fun result => ih result

/-- A call of a middleware ends when runs do. -/
theorem total_invoke (hrun : RunsEnd run) (name : String) (args : List String) (config : String) (c : PipelineContext)
    (target : Option String) : Prog.Total (invoke env run name args config c target) := by
  unfold invoke
  dsimp only
  split
  · exact Prog.total_fail _
  · exact Prog.total_bind (Prog.total_emit _) fun _ => Prog.total_bind (total_cacheMiddleware _ _) fun _ => Prog.total_pure _
  · exact Prog.total_bind (Prog.total_emit _) fun _ => Prog.total_bind (total_perform hrun _) fun _ => Prog.total_pure _
  · exact Prog.total_bind (Prog.total_emit _) fun _ => Prog.total_bind (Prog.total_update _) fun _ =>
      Prog.total_bind (Prog.total_ofExcept _) fun _ => Prog.total_pure _

/-- A call of a pipeline ends when runs do. -/
theorem total_handleRecursivePipeline (hrun : RunsEnd run) (args : List String) (config : String) (location : SourceLocation)
    (input : Value) : Prog.Total (handleRecursivePipeline env run args config location input) := by
  unfold handleRecursivePipeline
  dsimp only
  split
  · exact Prog.total_fail _
  · split
    · exact Prog.total_fail _
    · exact total_nested hrun _ _ _ _

/-- The body of a task ends when runs do. -/
theorem total_taskBody (hrun : RunsEnd run) (task : AsyncTask) : Prog.Total (taskBody env run task) := by
  unfold taskBody
  dsimp only
  split
  · exact Prog.total_bind (total_handleRecursivePipeline hrun _ _ _ _) fun _ => Prog.total_pure _
  · exact Prog.total_bind (total_invoke hrun _ _ _ _ _) fun _ => Prog.total_pure _

theorem total_runTask (hrun : RunsEnd run) (name : String) (task : AsyncTask) : Prog.Total (runTask env run name task) := by
  have hthread : Prog.Total (allocateThread env) := by
    unfold allocateThread
    split
    · exact Prog.total_pure _
    · exact Prog.total_modify _
  exact Prog.total_within (Prog.total_bind hthread fun _ =>
    Prog.total_bind (Prog.total_attempt (Prog.total_enclose (total_taskBody hrun task))) fun _ =>
      Prog.total_bind (Prog.total_gets _) fun _ => Prog.total_pure _)

/-- A join ends when tasks do: induction on the names that are left. -/
theorem total_joinTasks (hrun : RunsEnd run) (names : List String) (results : Object) :
    Prog.Total (joinTasks env run names results) := by
  induction names generalizing results with
  | nil => exact Prog.total_pure _
  | cons name names ih =>
    refine Prog.total_bind (Prog.total_update _) fun task => ?_
    cases task with
    | none => exact ih _
    | some task =>
      refine Prog.total_bind (total_runTask hrun name task) fun r => ?_
      rcases r with (e | _) | ⟨value, profiler⟩
      · exact ih _
      · exact ih _
      · exact Prog.total_bind (Prog.total_modify _) fun _ => ih _

theorem total_handleJoin (hrun : RunsEnd run) (config : String) (parsedTargets : Option (List String)) (input : Value) :
    Prog.Total (handleJoin env run config parsedTargets input) :=
  Prog.total_bind (Prog.total_ofExcept _) fun _ => Prog.total_bind (total_joinTasks hrun _ _) fun _ =>
    Prog.total_bind (Prog.total_emit _) fun _ => Prog.total_pure _

/-! ## Steps -/

/-- The core of a step ends when runs do. -/
theorem total_runCoreLogic (hrun : RunsEnd run) (s : RegularStep) (ctx : StepContext) (mode : ExecutionMode) (config : String)
    (input : Value) (target : Option String) : Prog.Total (runCoreLogic env run s ctx mode config input target) := by
  unfold runCoreLogic
  split
  · exact Prog.total_bind (total_handleJoin hrun _ _ _) fun _ => Prog.total_pure _
  · exact Prog.total_bind (total_handleRecursivePipeline hrun _ _ _ _) fun _ => Prog.total_pure _
  · exact Prog.total_bind (Prog.total_bind (total_invoke hrun _ _ _ _ _) fun _ => Prog.total_pure _) fun _ => Prog.total_pure _

theorem total_executeCore (hrun : RunsEnd run) (s : RegularStep) (ctx : StepContext) (mode : ExecutionMode) (isLastStep : Bool) :
    Prog.Total (executeCore env run s ctx mode isLastStep) := by
  refine Prog.total_bind ?_ fun _ => Prog.total_bind (total_runCoreLogic hrun _ _ _ _ _ _) fun _ => Prog.total_pure _
  unfold logPipelineCall
  split
  · exact Prog.total_modify _
  · exact Prog.total_pure _

/-- A regular step ends when runs do. -/
theorem total_executeRegular (hrun : RunsEnd run) (s : RegularStep) (ctx : StepContext) :
    Prog.Total (executeRegular env run s ctx) := by
  refine Prog.total_bind (Prog.total_gets _) fun runs => ?_
  split
  · refine Prog.total_bind (Prog.total_gets _) fun isLastStep => ?_
    split
    · exact Prog.total_bind (Prog.total_bind (Prog.total_emit _) fun _ => Prog.total_modify _) fun _ => Prog.total_pure _
    · exact total_executeCore hrun s ctx _ _
  · exact Prog.total_pure _

theorem total_executeBranch (hrun : RunsEnd run) (entry : Entry) (pipeline : Pipeline) (ctx : StepContext) :
    Prog.Total (executeBranch run entry pipeline ctx) :=
  Prog.total_bind (total_nested hrun _ _ _ _) fun _ => Prog.total_pure _

/-- A loop ends when runs do: induction on the items. -/
theorem total_foreachItems (hrun : RunsEnd run) (pipeline : Pipeline) (items : List Value) :
    Prog.Total (foreachItems run pipeline items) := by
  induction items with
  | nil => exact Prog.total_pure _
  | cons item items ih =>
    exact Prog.total_bind (total_nested hrun _ _ _ _) fun _ => Prog.total_bind ih fun _ => Prog.total_pure _

/-- Every kind of step ends when runs do. -/
theorem total_dispatchStep (hrun : RunsEnd run) (step : PipelineStep) (ctx : StepContext) :
    Prog.Total (dispatchStep env run step ctx) := by
  unfold dispatchStep
  cases step with
  | regular s => exact total_executeRegular hrun s ctx
  | result branches location =>
    dsimp only
    unfold handleResultStep
    dsimp only
    split
    · exact Prog.total_bind (total_nested hrun _ _ _ _) fun _ => Prog.total_pure _
    · exact Prog.total_pure _
  | ifStep condition thenBranch elseBranch location =>
    refine Prog.total_bind (total_nested hrun _ _ _ _) fun cond => ?_
    split
    · exact total_executeBranch hrun _ _ _
    · cases elseBranch with
      | some pipeline => exact total_executeBranch hrun _ _ _
      | none => exact Prog.total_pure _
  | dispatch branches default location =>
    refine Prog.total_bind (Prog.total_gets _) fun selected => ?_
    cases selected with
    | some pipeline => exact total_executeBranch hrun _ _ _
    | none => exact Prog.total_pure _
  | foreach selector pipeline location =>
    dsimp only
    unfold handleForeachStep
    split
    · exact Prog.total_bind (total_foreachItems hrun _ _) fun _ => Prog.total_pure _
    · exact Prog.total_fail _

theorem total_handleDebuggerBefore (step : PipelineStep) (name : String) (ctx : StepContext) :
    Prog.Total (handleDebuggerBefore env step name ctx) := by
  unfold handleDebuggerBefore
  split
  · exact Prog.total_pure _
  · refine Prog.total_bind (Prog.total_update _) fun r => ?_
    split
    · exact Prog.total_fail _
    · exact Prog.total_bind (Prog.total_modify _) fun _ => Prog.total_pure _

/-- A step ends with its debugger. -/
theorem total_executeStep (hrun : RunsEnd run) (step : PipelineStep) (ctx : StepContext) :
    Prog.Total (executeStep env run step ctx) :=
  Prog.total_bind (Prog.total_modify _) fun _ => Prog.total_bind (total_handleDebuggerBefore _ _ _) fun _ =>
    Prog.total_bind (Prog.total_attempt (total_dispatchStep hrun _ _)) fun _ => Prog.total_bind (Prog.total_emit _) fun _ =>
      Prog.total_bind (Prog.total_modify _) fun _ => Prog.total_ofExcept _

/-! ## Runs -/

/-- A turn of the loop ends when runs do. -/
theorem total_iterate (hrun : RunsEnd run) (steps : List PipelineStep) (idx : Nat) (step : PipelineStep) (s : LoopState) :
    Prog.Total (iterate env run steps idx step s) := by
  unfold iterate
  split
  · exact Prog.total_bind (Prog.total_emit _) fun _ => Prog.total_pure _
  · refine Prog.total_bind (Prog.total_emit _) fun _ => Prog.total_bind (total_executeStep hrun _ _) fun p => ?_
    obtain ⟨_ | output, ctx⟩ := p
    · exact Prog.total_pure _
    · exact Prog.total_bind (total_runPendingCacheSaves _ _) fun _ => Prog.total_pure _

/-- The loop ends: induction on the steps that are left. -/
theorem total_loopSteps (hrun : RunsEnd run) (steps : List PipelineStep) (idx : Nat) (rest : List PipelineStep) (s : LoopState) :
    Prog.Total (loopSteps env run steps idx rest s) := by
  induction rest generalizing idx s with
  | nil => exact Prog.total_pure _
  | cons step rest ih =>
    refine Prog.total_bind (total_iterate hrun steps idx step s) fun turn => ?_
    cases turn with
    | inl s' => exact ih _ _
    | inr output => exact Prog.total_pure _

/-- A run ends when the runs that it starts end. -/
theorem runsEnd_runPipeline (hrun : RunsEnd run) : RunsEnd (runPipeline env run) := by
  intro pipeline input handled
  refine Prog.total_bind (total_loopSteps hrun _ _ _ _) fun last => ?_
  cases last with
  | inl s => exact Prog.total_bind (total_runPendingCacheSaves _ _) fun _ => Prog.total_pure _
  | inr output => exact Prog.total_pure _

end WebPipe

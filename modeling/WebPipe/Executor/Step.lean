import WebPipe.Executor.Resolver
import WebPipe.Middleware.Cache

/-!
# Steps

`executor/step.rs`: what each kind of step does. `run` is how a step runs a pipeline: the executor itself, with less fuel.
-/

namespace WebPipe

/-- What a step works on: the state of its pipeline, the output so far, and where it stands among the steps. -/
structure StepContext where
  pipeCtx : PipelineContext
  output : PipelineOutput
  stepIndex : Nat
  allSteps : List PipelineStep

/-- Go on with the next step, or return from the pipeline. -/
inductive StepOutcome where
  | continue
  | ret (output : PipelineOutput)

/-- Different execution modes for pipeline steps. -/
inductive ExecutionMode where
  | standard
  | async (name : String)
  | join
  | recursive
deriving DecidableEq, Repr

/-- `detect_execution_mode`. -/
def detectExecutionMode (name : String) (condition : Option TagExpr) : ExecutionMode :=
  match condition.bind getAsyncFromTagExpr with
  | some asyncName => .async asyncName
  | none => if name = "join" then .join else if name = "pipeline" then .recursive else .standard

namespace StepContext

/-- The context with another state. -/
def withState (ctx : StepContext) (state : Value) : StepContext :=
  { ctx with pipeCtx := { ctx.pipeCtx with state := state } }

/-- The context with the result of a branch: the state, and the status and content type where the branch has its own. -/
def afterBranch (ctx : StepContext) (res : PipelineOutput) : StepContext :=
  { ctx with
    pipeCtx := { ctx.pipeCtx with state := res.state }
    output :=
      { ctx.output with
        statusCode := res.statusCode.or ctx.output.statusCode
        contentType := if res.contentType ≠ "application/json" then res.contentType else ctx.output.contentType } }

end StepContext

section Steps

variable {σ : Type}

/-- `regular_step_is_pipeline_shorthand`: a bare name that is no middleware calls a pipeline. -/
def isPipelineShorthand (env : ExecutionEnv σ) (s : RegularStep) : Bool :=
  !s.configPresent && decide (s.name ≠ "pipeline") && decide (s.name ≠ "loader") && (env.getBehavior s.name).isNone

/-- `effective_name`. -/
def effectiveName (env : ExecutionEnv σ) (s : RegularStep) : String :=
  if s.name = "pipeline" ∨ isPipelineShorthand env s then "pipeline" else s.name

/-- `raw_config`. -/
def rawConfig (env : ExecutionEnv σ) (s : RegularStep) : String :=
  if s.name = "pipeline" then s.config else if isPipelineShorthand env s then s.name else s.config

/-- `is_effectively_last_step`: no later step would execute on this state. -/
def isEffectivelyLastStep (idx : Nat) (steps : List PipelineStep) (env : ExecutionEnv σ) (ctx : RequestContext)
    (state : Value) : Bool :=
  (steps.drop (idx + 1)).all fun
    | .regular s => !shouldExecuteStep s.condition env ctx state
    | _ => false

/-! ## The result of a regular step -/

/-- `update_pipeline_state`. -/
def updatePipelineState (c : PipelineContext) (value : Value) (behavior : StateBehavior) (isLastStep : Bool) :
    PipelineContext :=
  match behavior with
  | .merge => c.mergeState value
  | .transform =>
    if isLastStep then c.replaceState value
    else (c.replaceState value).restoreSystemKeys c.backupSystemKeys
  | .render => c.replaceState value
  | .readOnly => c

/-- `apply_data_wrap`: the result under `data.<target>`. -/
def applyDataWrap (state value : Value) (target : String) : Value :=
  match state with
  | .object members =>
    let dataEntry := match IndexMap.get members "data" with
      | some (.object data) => data
      | _ => []
    .object (IndexMap.insert members "data" (.object (IndexMap.insert dataEntry target value)))
  | _ => .object [("data", .object [(target, value)])]

/-- `apply_result_to_state`. -/
def applyResultToState (env : ExecutionEnv σ) (c : PipelineContext) (effName : String) (value : Value)
    (target : Option String) (isLastStep : Bool) : PipelineContext :=
  let wraps := (effName = "pg" ∨ effName = "fetch" ∨ effName = "graphql") ∧ (extractErrorType value).isNone
  match target with
  | some name =>
    if wraps then { c with state := applyDataWrap c.state value name }
    else updatePipelineState c value ((env.getBehavior effName).getD .merge) isLastStep
  | none => updatePipelineState c value ((env.getBehavior effName).getD .merge) isLastStep

/-- `update_metadata`. -/
def updateMetadata (output : PipelineOutput) (effName contentType : String) (status : Option Nat) (isLastStep : Bool) :
    PipelineOutput :=
  { output with
    contentType :=
      if (contentType ≠ "application/json" ∨ isLastStep) ∧
        (effName = "pipeline" ∨ isLastStep ∨ effName = "handlebars" ∨ effName = "gg" ∨ effName = "algraf" ∨ effName = "ag")
      then contentType else output.contentType
    statusCode := status.or output.statusCode }

/-- Remove the result name that a variable added. -/
def removeResultName (state : Value) : Value :=
  match state with
  | .object members => .object (IndexMap.swapRemove members "resultName")
  | _ => state

/-- What `execute` does with a step's result: the state, the metadata, the cache hit, the cleanup. -/
def finishRegular (env : ExecutionEnv σ) (s : RegularStep) (ctx : StepContext) (result : PipelineOutput)
    (target : Option String) (cleanup isLastStep : Bool) : StepOutcome × StepContext :=
  let effName := effectiveName env s
  let value := overrideErrorType result.state (s.condition.bind getErrorFromTagExpr)
  let pipeCtx := applyResultToState env ctx.pipeCtx effName value target isLastStep
  let output := updateMetadata ctx.output effName result.contentType result.statusCode isLastStep
  match pipeCtx.cacheHit with
  | some hit =>
    (.ret { state := hit.body, contentType := hit.contentType, statusCode := hit.statusCode.or output.statusCode },
      { ctx with pipeCtx := { pipeCtx with cacheHit := none }, output := output })
  | none =>
    let state := if cleanup then removeResultName pipeCtx.state else pipeCtx.state
    (.continue, { ctx with pipeCtx := { pipeCtx with state := state }, output := output })

/-! ## Resolvers -/

/-- What the run of a resolver leaves in the request when it starts. -/
def startResolver (record : ResolverRecord) (input : Value) : Exec σ Unit :=
  match record with
  | .field key => Exec.modifyReq fun c =>
      { c.logCall key input with profiler := c.profiler.push key }
  | .part => pure ()
  | .loader name => Exec.modifyReq fun c => { c with profiler := c.profiler.push name }

/-- What the run of a resolver leaves when it has ended: the pipeline of a field that failed leaves no sample, and its key on the
stack. -/
def endResolver (record : ResolverRecord) (result : Except WebPipeError PipelineOutput) : Exec σ Unit :=
  match record, result with
  | .field _, .ok _ => Exec.modifyReq fun c => { c with profiler := c.profiler.recordSample.pop }
  | .loader _, _ => Exec.modifyReq fun c => { c with profiler := c.profiler.recordSample.pop }
  | _, _ => pure ()

/-- Run the pipeline of a resolver in the request of the query. Its error is an error of the field; a panic takes the query down. -/
def runResolver (run : RunFn σ) (record : ResolverRecord) (pipeline : Pipeline) (input : Value) :
    Exec σ (Except WebPipeError Value) := do
  startResolver record input
  match ← Prog.attempt (Exec.nested (.resolver record) run pipeline input none) with
  | .ok output => do
    endResolver record (.ok output)
    pure (.ok output.state)
  | .error (.err e) => do
    endResolver record (.error e)
    pure (.error e)
  | .error .panic => Prog.fail .panic

/-- Resolve the fields of a query. -/
def Resolution.perform {resolvers : List Pipeline} (run : RunFn σ) : Resolution resolvers → Exec σ (MiddlewareOutput × Value)
  | .done result => Prog.ofExcept result
  | .mocked key input next => do
    startResolver (.field key) input
    Exec.modifyReq fun c => { c with profiler := c.profiler.recordSample.pop }
    perform run next
  | .resolve record pipeline _ input next => do
    let result ← runResolver run record pipeline input
    perform run (next result)

/-! ## Calls -/

/-- A call of a middleware on a pipeline context. -/
def invoke (env : ExecutionEnv σ) (run : RunFn σ) (name : String) (args : List String) (config : String) (c : PipelineContext)
    (target : Option String) : Exec σ (MiddlewareOutput × PipelineContext) :=
  let call : MiddlewareCall := { args := args, config := config, state := c.state, targetName := target }
  match env.registry name with
  | none => Exec.throwErr (.plain .middlewareNotFound name)
  | some .cache => do
    Prog.emit (.invoked name call)
    let c ← CacheMiddleware.execute env config c
    pure ({}, c)
  | some (.graphql _ execute) => do
    Prog.emit (.invoked "graphql" call)
    let (output, state) ← (execute call).perform run
    pure (output, { c with state := state })
  | some (.other _ execute) => do
    Prog.emit (.invoked name call)
    let r ← Prog.update fun w =>
      ((execute call w.reqCtx w.ext).1,
        { w with reqCtx := (execute call w.reqCtx w.ext).2.1, ext := (execute call w.reqCtx w.ext).2.2 })
    let (output, state) ← Prog.ofExcept r
    pure (output, { c with state := state })

/-- `handle_standard_execution`, with the context it leaves. -/
def handleStandardExecution (env : ExecutionEnv σ) (run : RunFn σ) (name : String) (args : List String) (config : String)
    (c : PipelineContext) (target : Option String) : Exec σ (PipelineOutput × PipelineContext) := do
  let (output, c) ← invoke env run name args config c target
  pure ({ state := c.state, contentType := output.contentType.getD "application/json", statusCode := none }, c)

/-- The input of a named pipeline: with an argument, its value over the input. -/
def pipelineInput (env : ExecutionEnv σ) (args : List String) (input : Value) : Except WebPipeError Value :=
  match args with
  | [] => .ok input
  | arg :: _ =>
    match env.evaluate arg input with
    | .error e => .error (.plain .middlewareExecutionError s!"pipeline argument evaluation failed: {e.display}")
    | .ok value =>
      match input, value with
      | .object base, .object members => .ok (.object (IndexMap.insertAll base members))
      | _, _ => .ok value

/-- `handle_recursive_pipeline`: call a named pipeline. -/
def handleRecursivePipeline (env : ExecutionEnv σ) (run : RunFn σ) (args : List String) (config : String)
    (location : SourceLocation) (input : Value) : Exec σ PipelineOutput :=
  let pipelineName := Text.trim config
  match resolveNamedPipeline env location pipelineName with
  | none => Exec.throwErr (.plain .pipelineNotFound pipelineName)
  | some pipeline =>
    match pipelineInput env args input with
    | .error e => Exec.throwErr e
    | .ok input => Exec.nested .named run pipeline input none

/-! ## Async tasks -/

/-- The body of the task that `spawn_async_step` spawns. -/
def taskBody (env : ExecutionEnv σ) (run : RunFn σ) (task : AsyncTask) : Exec σ Value :=
  let resolved := resolveConfigAndAutoname env task.location task.name task.config task.input
  if task.name = "pipeline" then do
    let res ← handleRecursivePipeline env run task.args resolved.1 task.location resolved.2.1
    pure res.state
  else do
    let (_, c) ← invoke env run task.name task.args resolved.1 (PipelineContext.new resolved.2.1) none
    pure c.state

/-- Attach a location to an error; a panic has none. -/
def locate (location : SourceLocation) : Failure → Failure
  | .err e => .err (e.withSourceLocation location)
  | .panic => .panic

/-- Give the request a thread of the debugger. -/
def allocateThread (env : ExecutionEnv σ) : Exec σ Unit :=
  match env.debugger with
  | none => pure ()
  | some dbg => Prog.modify fun w =>
      { w with reqCtx := { w.reqCtx with debugThreadId := some (dbg.allocateThreadId w.ext).1 }
               ext := (dbg.allocateThreadId w.ext).2 }

/-- Run a spawned task with a request context of its own. The model runs it when it is awaited: a task that no `join` awaits does not
run, and its calls are in no log. -/
def runTask (env : ExecutionEnv σ) (run : RunFn σ) (name : String) (task : AsyncTask) :
    Exec σ (Except Failure (Value × Profiler)) :=
  Prog.within (fun w => { w with reqCtx := {} }) (fun w w' => { w' with reqCtx := w.reqCtx }) do
    allocateThread env
    let r ← Prog.attempt (Prog.enclose (fun l _ => .task name l) (taskBody env run task))
    let profiler ← Exec.req RequestContext.profiler
    pure ((r.map (fun v => (v, profiler))).mapError (locate task.location))

/-- The sample of a task as a sample of the request that awaited it. -/
def taskSample (stack : List String) (taskName sample : String) : String :=
  let path := ";".intercalate stack
  if stack.isEmpty then s!"async:{taskName};{sample}" else s!"{path};async:{taskName};{sample}"

/-- Await tasks in order and collect their results; a task that was never spawned is passed over. -/
def joinTasks (env : ExecutionEnv σ) (run : RunFn σ) : List String → Object → Exec σ Object
  | [], results => pure results
  | taskName :: rest, results => do
    let task ← Prog.update fun w =>
      ((w.reqCtx.takeTask taskName).1, { w with reqCtx := (w.reqCtx.takeTask taskName).2 })
    match task with
    | none => joinTasks env run rest results
    | some task =>
      match ← runTask env run taskName task with
      | .ok (value, profiler) => do
        Exec.modifyReq fun c =>
          { c with profiler := { c.profiler with
              samples := c.profiler.samples ++ profiler.samples.map (taskSample c.profiler.stack taskName) } }
        joinTasks env run rest (IndexMap.insert results taskName value)
      | .error (.err e) =>
        joinTasks env run rest (IndexMap.insert results taskName (.object [("error", .string e.display)]))
      | .error .panic =>
        joinTasks env run rest
          (IndexMap.insert results taskName (.object [("error", .string s!"Task panicked: {env.joinErrorText}")]))

/-- `parse_join_task_names`. -/
def parseJoinTaskNames (env : ExecutionEnv σ) (config : String) : Except WebPipeError (List String) :=
  let trimmed := Text.trim config
  if trimmed.startsWith "[" then
    match env.parseStringArray trimmed with
    | some names => .ok names
    | none => .error (.plain .configError "Invalid JSON array for join config")
  else
    let names := ((Text.split ',' trimmed).map Text.trim).filter (fun s => !s.isEmpty)
    if names.isEmpty then .error (.plain .configError "join config must specify at least one task name")
    else .ok names

/-- The tasks a `join` step awaits. -/
def joinTaskNames (env : ExecutionEnv σ) (config : String) (parsedTargets : Option (List String)) :
    Except WebPipeError (List String) :=
  match parsedTargets with
  | some targets => .ok targets
  | none => parseJoinTaskNames env config

/-- `handle_join`: the results of the tasks under `async`. -/
def handleJoin (env : ExecutionEnv σ) (run : RunFn σ) (config : String) (parsedTargets : Option (List String))
    (input : Value) : Exec σ PipelineOutput := do
  let names ← Prog.ofExcept ((joinTaskNames env config parsedTargets).mapError .err)
  let results ← joinTasks env run names []
  Prog.emit (.joined names results)
  let value := match input with
    | .object members => .object (IndexMap.insert members "async" (.object results))
    | _ => input
  pure { state := value, contentType := "application/json", statusCode := none }

/-- `spawn_async_step`: the task keeps what it needs of the step. -/
def spawnAsyncStep (name : String) (args : List String) (config : String) (location : SourceLocation) (input : Value)
    (asyncName : String) : Exec σ Unit := do
  let task : AsyncTask := { name := name, args := args, config := config, location := location, input := input }
  Prog.emit (.spawned asyncName task)
  Exec.modifyReq (fun c => c.register asyncName task)

/-! ## Regular steps -/

/-- The identity of a step, for default cache keys. -/
def stepId (location : SourceLocation) (stepIndex : Nat) : String :=
  let path := location.filePath.getD "?"
  s!"{path}:{location.line}:{location.column}#{stepIndex}"

/-- `run_core_logic`, with the pipeline context it leaves. -/
def runCoreLogic (env : ExecutionEnv σ) (run : RunFn σ) (s : RegularStep) (ctx : StepContext) (mode : ExecutionMode)
    (config : String) (input : Value) (target : Option String) : Exec σ (PipelineOutput × PipelineContext) :=
  match mode with
  | .join => do
    let result ← handleJoin env run config s.parsedJoinTargets input
    pure (result, ctx.pipeCtx)
  | .recursive => do
    let result ← handleRecursivePipeline env run s.args config s.location input
    pure (result, ctx.pipeCtx)
  | _ => do
    let temp : PipelineContext :=
      { PipelineContext.new input with currentStepId := some (stepId s.location ctx.stepIndex) }
    let (result, temp) ← handleStandardExecution env run (effectiveName env s) s.args config temp target
    pure (result, { ctx.pipeCtx with
      pendingCacheSaves := ctx.pipeCtx.pendingCacheSaves ++ temp.pendingCacheSaves
      cacheHit := temp.cacheHit })

/-- Log a call of a pipeline, for assertions in tests. -/
def logPipelineCall (effName config : String) (input : Value) : Exec σ Unit :=
  if effName = "pipeline" then Exec.modifyReq (fun c => c.logCall ("pipeline." ++ Text.trim config) input) else pure ()

/-- The part of `execute` after the async fast path. -/
def executeCore (env : ExecutionEnv σ) (run : RunFn σ) (s : RegularStep) (ctx : StepContext) (mode : ExecutionMode)
    (isLastStep : Bool) : Exec σ (StepOutcome × StepContext) := do
  let effName := effectiveName env s
  let resolved := resolveConfigAndAutoname env s.location effName (rawConfig env s) ctx.pipeCtx.state
  logPipelineCall effName resolved.1 resolved.2.1
  -- an auto-named input is the state itself with the name added
  let ctx := if resolved.2.2 then ctx.withState resolved.2.1 else ctx
  let target := determineTargetName s.condition ctx.pipeCtx.state resolved.2.2
  let (result, pipeCtx) ← runCoreLogic env run s ctx mode resolved.1 resolved.2.1 target.1
  pure (finishRegular env s { ctx with pipeCtx := pipeCtx } result target.1 target.2 isLastStep)

/-- `RegularStepExecutor::execute`. -/
def executeRegular (env : ExecutionEnv σ) (run : RunFn σ) (s : RegularStep) (ctx : StepContext) :
    Exec σ (StepOutcome × StepContext) := do
  let runs ← Exec.req (fun c => shouldExecuteStep s.condition env c ctx.pipeCtx.state)
  if runs then do
    let isLastStep ← Exec.req (fun c => isEffectivelyLastStep ctx.stepIndex ctx.allSteps env c ctx.pipeCtx.state)
    match detectExecutionMode (effectiveName env s) s.condition with
    | .async asyncName => do
      spawnAsyncStep (effectiveName env s) s.args (rawConfig env s) s.location ctx.pipeCtx.state asyncName
      pure (.continue, ctx)
    | mode => executeCore env run s ctx mode isLastStep
  else pure (.continue, ctx)

/-! ## Control flow -/

/-- `execute_branch`. -/
def executeBranch (run : RunFn σ) (entry : Entry) (pipeline : Pipeline) (ctx : StepContext) :
    Exec σ (StepOutcome × StepContext) := do
  let res ← Exec.nested entry run pipeline ctx.pipeCtx.state none
  pure (.continue, ctx.afterBranch res)

/-- The truth value of a condition's result. -/
def isTruthy : Value → Bool
  | .bool b => b
  | .null => false
  | _ => true

/-- `handle_if_step`. -/
def handleIfStep (run : RunFn σ) (condition thenBranch : Pipeline) (elseBranch : Option Pipeline) (ctx : StepContext) :
    Exec σ (StepOutcome × StepContext) := do
  let cond ← Exec.nested .condition run condition ctx.pipeCtx.state none
  if isTruthy cond.state then executeBranch run .thenBranch thenBranch ctx
  else
    match elseBranch with
    | some pipeline => executeBranch run .elseBranch pipeline ctx
    | none => pure (.continue, ctx)

/-- The pipeline of the first case whose tags hold, or the default. -/
def selectCase (env : ExecutionEnv σ) (c : RequestContext) (state : Value) (branches : List DispatchBranch)
    (default : Option Pipeline) : Option Pipeline :=
  match branches.find? (fun (b : DispatchBranch) => checkTagExpr env c state b.condition) with
  | some b => some b.pipeline
  | none => default

/-- `handle_dispatch_step`. -/
def handleDispatchStep (env : ExecutionEnv σ) (run : RunFn σ) (branches : List DispatchBranch)
    (default : Option Pipeline) (ctx : StepContext) : Exec σ (StepOutcome × StepContext) := do
  let selected ← Exec.req (fun c => selectCase env c ctx.pipeCtx.state branches default)
  match selected with
  | some pipeline => executeBranch run .dispatchCase pipeline ctx
  | none => pure (.continue, ctx)

/-- Run a pipeline on each item. -/
def foreachItems (run : RunFn σ) (pipeline : Pipeline) : List Value → Exec σ (List Value)
  | [] => pure []
  | item :: rest => do
    let res ← Exec.nested .foreachItem run pipeline item none
    let results ← foreachItems run pipeline rest
    pure (res.state :: results)

/-- `handle_foreach_step`: the array is taken out of the state and its results are put back. -/
def handleForeachStep (run : RunFn σ) (selector : String) (pipeline : Pipeline) (ctx : StepContext) :
    Exec σ (StepOutcome × StepContext) :=
  match JsonPath.getValue ctx.pipeCtx.state selector with
  | some (.array items) => do
    let results ← foreachItems run pipeline items
    let state := JsonPath.setValue ctx.pipeCtx.state selector .null
    pure (.continue, ctx.withState (JsonPath.setValue state selector (.array results)))
  | _ =>
    Exec.throwErr (.plain .middlewareExecutionError s!"foreach: path '{selector}' is not an array or does not exist")

/-- Give a result the cookies of its input, unless it has its own. -/
def restoreCookies (input result : Value) : Value :=
  match input.get "setCookies", result with
  | some cookies, .object members =>
    if (IndexMap.get members "setCookies").isSome then result
    else .object (IndexMap.insert members "setCookies" cookies)
  | _, _ => result

/-- `handle_result_step`: run the selected branch, which handles the error, and return. -/
def handleResultStep (run : RunFn σ) (branches : List ResultBranch) (ctx : StepContext) :
    Exec σ (StepOutcome × StepContext) :=
  let input := ctx.pipeCtx.state
  match selectBranch branches (extractErrorType input) with
  | some branch => do
    let res ← Exec.nested .resultBranch run branch.pipeline input (extractErrorType input)
    let state := restoreCookies input res.state
    let contentType := if res.contentType ≠ "application/json" then res.contentType else ctx.output.contentType
    pure (.ret { state := state, contentType := contentType, statusCode := some branch.statusCode }, ctx.withState state)
  | none =>
    pure (.ret { state := input, contentType := ctx.output.contentType, statusCode := ctx.output.statusCode }, ctx)

/-! ## Debugger and profiler -/

/-- The last component of a path. -/
def fileName (path : String) : String :=
  match ((Text.split '/' path).filter (fun c => !c.isEmpty && decide (c ≠ "."))).getLast? with
  | some name => if name = ".." then path else name
  | none => path

/-- `determine_step_name`. -/
def determineStepName (step : PipelineStep) : String :=
  let baseName := match step with
    | .regular s => if s.name = "pipeline" then s!"pipeline:{Text.trim s.config}" else s.name
    | .ifStep .. => "if"
    | .result .. => "result"
    | .dispatch .. => "dispatch"
    | .foreach .. => "foreach"
  match step.location.filePath with
  | some path => s!"{baseName}@{fileName path}"
  | none => baseName

/-- `handle_debugger_before`: the debugger may change the state and how stepping goes on. -/
def handleDebuggerBefore (env : ExecutionEnv σ) (step : PipelineStep) (stepName : String) (ctx : StepContext) :
    Exec σ StepContext :=
  match env.debugger with
  | none => pure ctx
  | some dbg => do
    let r ← Prog.update fun w =>
      let out := dbg.beforeStep (w.reqCtx.debugThreadId.getD 0) stepName step.location ctx.pipeCtx.state
        w.reqCtx.profiler.stack w.ext
      (out.1, { w with ext := out.2 })
    match r with
    | .error message => Exec.throwErr (.plain .debuggerError message)
    | .ok (mode, state) => do
      Exec.modifyReq (fun c => { c with debugStepMode := mode })
      pure (ctx.withState state)

end Steps

end WebPipe

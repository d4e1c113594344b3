import WebPipe.Executor.Step

/-!
# Running pipelines

`executor/mod.rs`: one step with its error handling, the loop over the steps with the error short-circuit, and the cache saves
at its two exits. The executor calls itself through the handlers of the steps; `fuel` bounds the depth of these calls.
-/

namespace WebPipe

section Run

variable {σ : Type}

/-! ## One step -/

/-- Run the handler of a step. -/
def dispatchStep (env : ExecutionEnv σ) (run : RunFn σ) (step : PipelineStep) (ctx : StepContext) :
    Exec σ (StepOutcome × StepContext) :=
  match step with
  | .regular s => executeRegular env run s ctx
  | .result branches _ => handleResultStep run branches ctx
  | .ifStep condition thenBranch elseBranch _ => handleIfStep run condition thenBranch elseBranch ctx
  | .dispatch branches default _ => handleDispatchStep env run branches default ctx
  | .foreach selector pipeline _ => handleForeachStep run selector pipeline ctx

/-- What becomes of a step's outcome: a middleware failure of a regular step turns into an error envelope. -/
def settle (step : PipelineStep) (ctx : StepContext) (raw : Except Failure (StepOutcome × StepContext)) :
    Except Failure (StepOutcome × StepContext) :=
  match step, raw with
  | .regular s, .error (.err e) =>
    match (e.withSourceLocation s.location).extractMiddlewareFailure with
    | some (message, location) =>
      let error := makeMiddlewareErrorValue s.name message location
      .ok (.continue, ctx.withState (overrideErrorType error (s.condition.bind getErrorFromTagExpr)))
    | none => .error (.err (e.withSourceLocation s.location))
  | _, raw => raw

/-- The failure of an outcome. -/
def failureOf {α : Type} : Except Failure α → Option Failure
  | .ok _ => none
  | .error f => some f

/-- The state an outcome leaves. -/
def stateAfter : StepOutcome × StepContext → Value
  | (.continue, ctx) => ctx.pipeCtx.state
  | (.ret output, _) => output.state

/-- `execute_step`. -/
def executeStep (env : ExecutionEnv σ) (run : RunFn σ) (step : PipelineStep) (ctx : StepContext) :
    Exec σ (StepOutcome × StepContext) := do
  let stepName := determineStepName step
  Exec.modifyReq (fun c => { c with profiler := c.profiler.push stepName })
  let ctx ← handleDebuggerBefore env step stepName ctx
  let raw ← Prog.attempt (dispatchStep env run step ctx)
  let result := settle step ctx raw
  Prog.emit (.settled step ctx.pipeCtx.state (failureOf raw) (result.map stateAfter))
  Exec.modifyReq (fun c => { c with profiler := c.profiler.recordSample.pop })
  Prog.ofExcept result

/-! ## Cache saves -/

/-- Nothing is cached of an error envelope or a status of 500 and above. -/
def uncacheable (output : PipelineOutput) : Bool :=
  (extractErrorType output.state).isSome || output.statusCode.any (fun s => decide (500 ≤ s))

/-- Release the refresh slot that a save holds. -/
def releaseSlot (save : PendingCacheSave) : Exec σ Unit :=
  if save.refreshing then Exec.clearKey save.key else pure ()

/-- Release the refresh slots that saves hold. -/
def releaseSlots : List PendingCacheSave → Exec σ Unit
  | [] => pure ()
  | save :: rest => do
    releaseSlot save
    releaseSlots rest

/-- Put a response under the keys of saves. -/
def putSaves (response : CachedResponse) : List PendingCacheSave → Exec σ Unit
  | [] => pure ()
  | save :: rest => do
    Exec.putKey save.key response (some save.ttl)
    putSaves response rest

/-- `run_pending_cache_saves`. -/
def runPendingCacheSaves (saves : List PendingCacheSave) (output : PipelineOutput) : Exec σ Unit :=
  if uncacheable output then releaseSlots saves
  else putSaves { body := output.state, contentType := output.contentType, statusCode := output.statusCode } saves

/-! ## The loop -/

/-- What the loop carries from step to step. -/
structure LoopState where
  pipeCtx : PipelineContext
  contentType : String
  statusCode : Option Nat
  handledErrorType : Option String

namespace LoopState

/-- The loop starts with the input as its state. -/
def start (input : Value) (handled : Option String) : LoopState :=
  { pipeCtx := PipelineContext.new input, contentType := "application/json", statusCode := none, handledErrorType := handled }

/-- What the run returns when no step is left. -/
def output (s : LoopState) : PipelineOutput :=
  { state := s.pipeCtx.state, contentType := s.contentType, statusCode := s.statusCode }

/-- The error type the state carries. -/
def currentErrorType (s : LoopState) : Option String := extractErrorType s.pipeCtx.state

/-- The handled error type is forgotten once the state no longer carries it. -/
def recompute (s : LoopState) : LoopState :=
  { s with handledErrorType := if s.handledErrorType = s.currentErrorType then s.handledErrorType else none }

/-- The step is passed over: the state carries an error that this run does not handle, and the step is no `result`. -/
def skips (s : LoopState) (step : PipelineStep) : Bool :=
  s.currentErrorType.isSome && s.recompute.handledErrorType.isNone && !step.isResult

/-- What a step is given. -/
def stepContext (s : LoopState) (idx : Nat) (steps : List PipelineStep) : StepContext :=
  { pipeCtx := s.pipeCtx
    output := { state := .null, contentType := s.contentType, statusCode := s.statusCode }
    stepIndex := idx
    allSteps := steps }

/-- The loop after a step that goes on. -/
def next (s : LoopState) (ctx : StepContext) : LoopState :=
  { pipeCtx := ctx.pipeCtx, contentType := ctx.output.contentType, statusCode := ctx.output.statusCode,
    handledErrorType := s.recompute.handledErrorType }

end LoopState

/-- One turn of the loop: the loop goes on, or the pipeline returns. -/
def iterate (env : ExecutionEnv σ) (run : RunFn σ) (steps : List PipelineStep) (idx : Nat) (step : PipelineStep)
    (s : LoopState) : Exec σ (LoopState ⊕ PipelineOutput) :=
  if s.skips step then do
    Prog.emit (.skipped step s.pipeCtx.state)
    pure (.inl s.recompute)
  else do
    Prog.emit (.entered step s.pipeCtx.state)
    let (outcome, ctx) ← executeStep env run step (s.stepContext idx steps)
    match outcome with
    | .continue => pure (.inl (s.next ctx))
    | .ret output => do
      runPendingCacheSaves ctx.pipeCtx.pendingCacheSaves output
      pure (.inr output)

/-- The loop over the steps from an index on. -/
def loopSteps (env : ExecutionEnv σ) (run : RunFn σ) (steps : List PipelineStep) :
    Nat → List PipelineStep → LoopState → Exec σ (LoopState ⊕ PipelineOutput)
  | _, [], s => pure (.inl s)
  | idx, step :: rest, s => do
    match ← iterate env run steps idx step s with
    | .inl s => loopSteps env run steps (idx + 1) rest s
    | .inr output => pure (.inr output)

/-- The end of a run: the saves of a pipeline that fell off its end. -/
def finishRun : LoopState ⊕ PipelineOutput → Exec σ PipelineOutput
  | .inr output => pure output
  | .inl s => do
    runPendingCacheSaves s.pipeCtx.pendingCacheSaves s.output
    pure s.output

/-- The body of `execute_pipeline_internal_with_error_short_circuit`. -/
def runPipeline (env : ExecutionEnv σ) (run : RunFn σ) (pipeline : Pipeline) (input : Value) (handled : Option String) :
    Exec σ PipelineOutput := do
  let last ← loopSteps env run pipeline.steps 0 pipeline.steps (.start input handled)
  finishRun last

/-- `execute_pipeline_internal_with_error_short_circuit`. -/
def executeWithErrorShortCircuit (env : ExecutionEnv σ) : Nat → RunFn σ
  | 0 => fun _ _ _ => Prog.diverge
  | fuel + 1 => runPipeline env (executeWithErrorShortCircuit env fuel)

/-- `execute_pipeline_internal`: a run that handles no error. -/
def executePipelineInternal (env : ExecutionEnv σ) (fuel : Nat) (pipeline : Pipeline) (input : Value) :
    Exec σ PipelineOutput :=
  executeWithErrorShortCircuit env fuel pipeline input none

end Run

end WebPipe

import WebPipe.Lemmas.Loop

/-!
# A regular step taken apart

What a regular step resolves, what it computes, and the ways it ends: its tags pass it over, it spawns a task, it fails, or its
result enters the state.
-/

namespace WebPipe

variable {σ : Type} {env : ExecutionEnv σ} {run : RunFn σ}

/-! ## Entering a step -/

/-- What comes before the handler of a step: the profiler and the debugger. -/
def enterStep (env : ExecutionEnv σ) (step : PipelineStep) (ctx : StepContext) : Exec σ StepContext := do
  Exec.modifyReq (fun c => { c with profiler := c.profiler.push (determineStepName step) })
  handleDebuggerBefore env step (determineStepName step) ctx

/-- An executed step is entered, its handler runs, and what it ends with is settled. -/
theorem executeStep_entered {step : PipelineStep} {ctx : StepContext} {w w' : World σ} {out : StepOutcome × StepContext}
    {l : List Event} (h : executeStep env run step ctx w = some (.ok out, w', l)) :
    ∃ ctx₁ w₁ raw w₂ l₁, Prog.Ends (enterStep env step ctx) w (.ok ctx₁) w₁ ∧
      dispatchStep env run step ctx₁ w₁ = some (raw, w₂, l₁) ∧ settle step ctx₁ raw = .ok out := by
  unfold executeStep at h
  rw [Exec.modifyReq, Prog.modify_bind] at h
  obtain ⟨ctx₁, w₁, l₁, l₂, hd, hrest, -⟩ := Prog.bind_eq_ok h
  obtain ⟨raw, w₂, l₃, l₄, ha, hend, -⟩ := Prog.bind_eq_ok hrest
  obtain ⟨raw', he, hdispatch⟩ := Prog.attempt_eq_some ha
  obtain rfl : raw = raw' := Except.ok.inj he
  obtain ⟨l₅, hlast, -⟩ := Prog.emit_bind_eq_some hend
  rw [Exec.modifyReq, Prog.modify_bind] at hlast
  obtain ⟨hr, -, -⟩ := Prog.ofExcept_eq_some hlast
  exact ⟨ctx₁, w₁, raw, w₂, l₃, (Prog.ends_modify _ w).bind ⟨l₁, hd⟩, hdispatch, hr.symm⟩

/-! ## A step in place -/

/-- The config of a step with its variable resolved, its input, and whether the input was named for the variable. -/
def resolvedStep (env : ExecutionEnv σ) (s : RegularStep) (state : Value) : String × Value × Bool :=
  resolveConfigAndAutoname env s.location (effectiveName env s) (rawConfig env s) state

/-- The context that the result of a step enters. -/
def namedContext (env : ExecutionEnv σ) (s : RegularStep) (ctx : StepContext) : StepContext :=
  if (resolvedStep env s ctx.pipeCtx.state).2.2 then ctx.withState (resolvedStep env s ctx.pipeCtx.state).2.1 else ctx

/-- The target of a step, and whether the name of it is removed afterwards. -/
def targetOf (env : ExecutionEnv σ) (s : RegularStep) (ctx : StepContext) : Option String × Bool :=
  determineTargetName s.condition (namedContext env s ctx).pipeCtx.state (resolvedStep env s ctx.pipeCtx.state).2.2

/-- The result of a step that is executed in place, before it enters the state. -/
def stepResult (env : ExecutionEnv σ) (run : RunFn σ) (s : RegularStep) (ctx : StepContext) :
    Exec σ (PipelineOutput × PipelineContext) := do
  logPipelineCall (effectiveName env s) (resolvedStep env s ctx.pipeCtx.state).1 (resolvedStep env s ctx.pipeCtx.state).2.1
  runCoreLogic env run s (namedContext env s ctx) (detectExecutionMode (effectiveName env s) s.condition)
    (resolvedStep env s ctx.pipeCtx.state).1 (resolvedStep env s ctx.pipeCtx.state).2.1 (targetOf env s ctx).1

/-- A step in place computes its result, and then the result enters the state. -/
theorem executeCore_eq_stepResult (env : ExecutionEnv σ) (run : RunFn σ) (s : RegularStep) (ctx : StepContext) (isLastStep : Bool) :
    executeCore env run s ctx (detectExecutionMode (effectiveName env s) s.condition) isLastStep = (do
      let p ← stepResult env run s ctx
      pure (finishRegular env s { namedContext env s ctx with pipeCtx := p.2 } p.1 (targetOf env s ctx).1 (targetOf env s ctx).2
        isLastStep)) := by
  unfold executeCore stepResult targetOf namedContext resolvedStep
  dsimp only
  generalize resolveConfigAndAutoname env s.location (effectiveName env s) (rawConfig env s) ctx.pipeCtx.state = resolved
  generalize (if resolved.2.2 = true then ctx.withState resolved.2.1 else ctx) = ctx'
  rw [bind_assoc]

/-- The task that a step hands over. -/
def taskOf (env : ExecutionEnv σ) (s : RegularStep) (state : Value) : AsyncTask :=
  { name := effectiveName env s, args := s.args, config := rawConfig env s, location := s.location, input := state }

/-- The result of a step leaves the state to be changed by what the step does with it. -/
theorem runCoreLogic_state {s : RegularStep} {ctx : StepContext} {mode : ExecutionMode} {config : String} {input : Value}
    {target : Option String} {w w' : World σ} {result : PipelineOutput} {pipeCtx : PipelineContext} {l : List Event}
    (h : runCoreLogic env run s ctx mode config input target w = some (.ok (result, pipeCtx), w', l)) :
    pipeCtx.state = ctx.pipeCtx.state := by
  unfold runCoreLogic at h
  split at h
  · obtain ⟨_, _, _, _, -, hend, -⟩ := Prog.bind_eq_ok h
    cases hend
    rfl
  · obtain ⟨_, _, _, _, -, hend, -⟩ := Prog.bind_eq_ok h
    cases hend
    rfl
  · obtain ⟨_, _, _, _, -, hend, -⟩ := Prog.bind_eq_ok h
    cases hend
    rfl

/-- The middleware is given the state with the name of its variable. -/
theorem stepResult_state {s : RegularStep} {ctx : StepContext} {w w' : World σ} {result : PipelineOutput}
    {pipeCtx : PipelineContext} {l : List Event} (h : stepResult env run s ctx w = some (.ok (result, pipeCtx), w', l)) :
    pipeCtx.state = (namedContext env s ctx).pipeCtx.state := by
  obtain ⟨_, _, _, _, -, hcore, -⟩ := Prog.bind_eq_ok h
  exact runCoreLogic_state hcore

/-- The step goes to a task. -/
def isAsync (env : ExecutionEnv σ) (s : RegularStep) : Bool :=
  match detectExecutionMode (effectiveName env s) s.condition with
  | .async _ => true
  | _ => false

/-- The value of a step's result, with the error type of its tag. -/
def resultValue (s : RegularStep) (result : PipelineOutput) : Value :=
  overrideErrorType result.state (s.condition.bind getErrorFromTagExpr)

/-- The result of a step goes under `data`. -/
def Wraps (effName : String) (value : Value) : Prop :=
  (effName = "pg" ∨ effName = "fetch" ∨ effName = "graphql") ∧ (extractErrorType value).isNone

/-- A value that is wrapped is put under `data`. -/
theorem applyResultToState_of_wraps {effName : String} {value : Value} (h : Wraps effName value) (c : PipelineContext)
    (target : String) (isLastStep : Bool) :
    applyResultToState env c effName value (some target) isLastStep = { c with state := applyDataWrap c.state value target } :=
  if_pos h

/-- Any other is merged, or replaces the state. -/
theorem applyResultToState_of_not_wraps {effName : String} {value : Value} (h : ¬Wraps effName value) (c : PipelineContext)
    (target : Option String) (isLastStep : Bool) :
    applyResultToState env c effName value target isLastStep =
      updatePipelineState c value ((env.getBehavior effName).getD .merge) isLastStep := by
  cases target with
  | none => rfl
  | some target => exact if_neg h

/-- The context with the result of a step in it. -/
def withResult (env : ExecutionEnv σ) (s : RegularStep) (ctx : StepContext) (result : PipelineOutput)
    (pipeCtx : PipelineContext) (isLastStep : Bool) : StepOutcome × StepContext :=
  finishRegular env s { namedContext env s ctx with pipeCtx := pipeCtx } result (targetOf env s ctx).1 (targetOf env s ctx).2
    isLastStep

/-- The ways a regular step ends. -/
inductive RegularEnd (env : ExecutionEnv σ) (run : RunFn σ) (s : RegularStep) (ctx : StepContext) (w : World σ) :
    Except Failure (StepOutcome × StepContext) → World σ → List Event → Prop
  | idle (htags : shouldExecuteStep s.condition env w.reqCtx ctx.pipeCtx.state = false) :
      RegularEnd env run s ctx w (.ok (.continue, ctx)) w []
  | spawn {name : String} (htags : shouldExecuteStep s.condition env w.reqCtx ctx.pipeCtx.state = true)
      (hmode : detectExecutionMode (effectiveName env s) s.condition = .async name) :
      RegularEnd env run s ctx w (.ok (.continue, ctx))
        { w with reqCtx := w.reqCtx.register name (taskOf env s ctx.pipeCtx.state) }
        [.spawned name (taskOf env s ctx.pipeCtx.state)]
  | fail {f : Failure} {w' : World σ} {l : List Event}
      (htags : shouldExecuteStep s.condition env w.reqCtx ctx.pipeCtx.state = true) (hsync : isAsync env s = false)
      (hx : stepResult env run s ctx w = some (.error f, w', l)) : RegularEnd env run s ctx w (.error f) w' l
  | done {result : PipelineOutput} {pipeCtx : PipelineContext} {w' : World σ} {l : List Event}
      (htags : shouldExecuteStep s.condition env w.reqCtx ctx.pipeCtx.state = true) (hsync : isAsync env s = false)
      (hx : stepResult env run s ctx w = some (.ok (result, pipeCtx), w', l)) :
      RegularEnd env run s ctx w
        (.ok (withResult env s ctx result pipeCtx
          (isEffectivelyLastStep ctx.stepIndex ctx.allSteps env w.reqCtx ctx.pipeCtx.state))) w' l

/-- A step in place ends with its failure, or with its result in the state. -/
theorem executeCore_end {s : RegularStep} {ctx : StepContext} {isLastStep : Bool} {w w' : World σ}
    {r : Except Failure (StepOutcome × StepContext)} {l : List Event}
    (h : executeCore env run s ctx (detectExecutionMode (effectiveName env s) s.condition) isLastStep w = some (r, w', l)) :
    (∃ f, stepResult env run s ctx w = some (.error f, w', l) ∧ r = .error f) ∨
      ∃ result pipeCtx, stepResult env run s ctx w = some (.ok (result, pipeCtx), w', l) ∧
        r = .ok (withResult env s ctx result pipeCtx isLastStep) := by
  rw [executeCore_eq_stepResult] at h
  rcases Prog.bind_eq_some h with ⟨f, hx, rfl⟩ | ⟨⟨result, pipeCtx⟩, w₁, l₁, l₂, hx, hend, rfl⟩
  · exact Or.inl ⟨f, hx, rfl⟩
  · cases hend
    exact Or.inr ⟨result, pipeCtx, by rw [List.append_nil]; exact hx, rfl⟩

/-- How a regular step ends. -/
theorem executeRegular_end {s : RegularStep} {ctx : StepContext} {w w' : World σ}
    {r : Except Failure (StepOutcome × StepContext)} {l : List Event}
    (h : executeRegular env run s ctx w = some (r, w', l)) : RegularEnd env run s ctx w r w' l := by
  unfold executeRegular Exec.req at h
  rw [Prog.gets_bind] at h
  dsimp only at h
  by_cases htags : shouldExecuteStep s.condition env w.reqCtx ctx.pipeCtx.state = true
  · rw [if_pos htags, Prog.gets_bind] at h
    cases hmode : detectExecutionMode (effectiveName env s) s.condition with
    | async name =>
      rw [hmode] at h
      cases h
      exact .spawn htags hmode
    | _ =>
      have hsync : isAsync env s = false := by simp [isAsync, hmode]
      rw [hmode] at h
      dsimp only at h
      rw [← hmode] at h
      rcases executeCore_end h with ⟨f, hx, rfl⟩ | ⟨result, pipeCtx, hx, rfl⟩
      · exact .fail htags hsync hx
      · exact .done htags hsync hx
  · rw [if_neg htags] at h
    cases h
    exact .idle (Bool.not_eq_true _ ▸ htags)

end WebPipe

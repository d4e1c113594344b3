import WebPipe.Lemmas.Join
import WebPipe.Lemmas.Regular
import WebPipe.Theorems.FlagElision

/-!
# What a task returns, and what its step would have returned

A step is called in place or, tagged `@async`, by a task that a later `join` awaits. Both resolve the config and the input of the step
alike. The task has a context of its own, without the flags, the conditions and the request of the one that spawned it, and it calls
the middleware without a target: the two return the same where the step sees neither.
-/

namespace WebPipe

variable {σ : Type} {env : ExecutionEnv σ} {run : RunFn σ}

/-! ## A call -/

/-- What a middleware answers a call with; the cache, which answers nothing, keeps the state. -/
def Middleware.answer (m : Middleware σ) (run : RunFn σ) (call : MiddlewareCall) : Exec σ (MiddlewareOutput × Value) :=
  match m with
  | .cache => pure ({}, call.state)
  | .graphql _ execute => (execute call).perform run
  | .other _ execute => do
    let r ← Prog.update fun w =>
      ((execute call w.reqCtx w.ext).1,
        { w with reqCtx := (execute call w.reqCtx w.ext).2.1, ext := (execute call w.reqCtx w.ext).2.2 })
    Prog.ofExcept r

/-- A call of a middleware that is not the cache answers what the middleware answers. -/
theorem invoke_ends {name : String} {m : Middleware σ} (hr : env.registry name = some m) (hcache : m ≠ .cache) (args : List String)
    (config : String) (c : PipelineContext) (target : Option String) {w w₁ : World σ} {r : Except Failure (MiddlewareOutput × Value)}
    (h : Prog.Ends (m.answer run { args := args, config := config, state := c.state, targetName := target }) w r w₁) :
    Prog.Ends (invoke env run name args config c target) w (r.map fun p => (p.1, { c with state := p.2 })) w₁ := by
  have hrest : ∀ {x : Exec σ (MiddlewareOutput × Value)} {w : World σ}, Prog.Ends x w r w₁ →
      Prog.Ends (x >>= fun p => pure (p.1, { c with state := p.2 })) w (r.map fun p => (p.1, { c with state := p.2 })) w₁ := by
    intro x w hx
    cases r with
    | error f => exact hx.bind_error
    | ok p => exact hx.bind (Prog.ends_pure _ _)
  unfold invoke
  dsimp only
  rw [hr]
  cases m with
  | cache => exact absurd rfl hcache
  | graphql resolvers execute => exact (Prog.ends_emit _ _).bind (hrest h)
  | other behavior execute =>
    refine (Prog.ends_emit _ _).bind ((Prog.ends_update _ _).bind (hrest ?_))
    obtain ⟨l, hanswer⟩ := h
    unfold Middleware.answer at hanswer
    dsimp only at hanswer
    rw [Prog.update_bind] at hanswer
    exact ⟨l, hanswer⟩

/-- A call that returned is one that the middleware answered. -/
theorem answer_of_invoke {name : String} {m : Middleware σ} (hr : env.registry name = some m) (hcache : m ≠ .cache)
    {args : List String} {config : String} {c c' : PipelineContext} {target : Option String} {w w₁ : World σ}
    {output : MiddlewareOutput} {l : List Event} (h : invoke env run name args config c target w = some (.ok (output, c'), w₁, l)) :
    Prog.Ends (m.answer run { args := args, config := config, state := c.state, targetName := target }) w (.ok (output, c'.state)) w₁ := by
  unfold invoke at h
  dsimp only at h
  rw [hr] at h
  cases m with
  | cache => exact absurd rfl hcache
  | graphql resolvers execute =>
    obtain ⟨l', hperform, -⟩ := Prog.emit_bind_eq_some h
    obtain ⟨p, w₂, l₁, l₂, hp, hret, -⟩ := Prog.bind_eq_ok hperform
    cases hret
    exact ⟨_, hp⟩
  | other behavior execute =>
    obtain ⟨l', hother, -⟩ := Prog.emit_bind_eq_some h
    rw [Prog.update_bind] at hother
    obtain ⟨p, w₂, l₁, l₂, hp, hret, -⟩ := Prog.bind_eq_ok hother
    cases hret
    exact (Prog.ends_update _ _).bind ⟨_, hp⟩

/-! ## What a task sees -/

/-- Contexts that agree on every part that the request has as a new context has it. -/
structure LikeNew (request c c' : RequestContext) : Prop where
  flags : request.featureFlags = (fun _ => none) → c.featureFlags = c'.featureFlags
  conditions : request.conditions = (fun _ => none) → c.conditions = c'.conditions
  metadata : request.request = .null → c.request = c'.request
  cachePolicy : request.cachePolicy = none → c.cachePolicy = c'.cachePolicy
  tasks : ∀ name, request.asyncRegistry name = none → c.asyncRegistry name = c'.asyncRegistry name

/-- The request differs from a new context in no part that the two agree on. -/
theorem likeNew_new (request : RequestContext) : LikeNew request request {} := ⟨id, id, id, id, fun _ => id⟩

/-- Without a debugger a run never leaves the contexts that agree on these parts. -/
theorem hides_likeNew (hdebug : env.debugger = none) (request : RequestContext) : Hides env (LikeNew request) where
  register h name task := by
    refine ⟨h.flags, h.conditions, h.metadata, h.cachePolicy, fun n hn => ?_⟩
    unfold RequestContext.register
    dsimp only
    rw [h.tasks n hn]
  logCall h _ _ := ⟨h.flags, h.conditions, h.metadata, h.cachePolicy, h.tasks⟩
  profiler h _ := ⟨h.flags, h.conditions, h.metadata, h.cachePolicy, h.tasks⟩
  cachePolicy h _ := ⟨h.flags, h.conditions, h.metadata, fun _ => rfl, h.tasks⟩
  stepMode h _ := ⟨h.flags, h.conditions, h.metadata, h.cachePolicy, h.tasks⟩
  debugger hsome := absurd hdebug hsome

/-- The step, called with a target, sees neither what its request has beyond a new context nor the target. -/
structure Portable (env : ExecutionEnv σ) (request : RequestContext) (s : RegularStep) (target : Option String) : Prop where
  pipeline : ∀ p, calledPipeline env s = some p → Tame env (LikeNew request) p
  middleware : effectiveName env s ≠ "pipeline" → ∀ behavior execute,
    env.registry (effectiveName env s) = some (.other behavior execute) → MiddlewareAgrees (LikeNew request) execute ∧
      ∀ (call : MiddlewareCall) c ext, (execute { call with targetName := target } c ext).1 = (execute { call with targetName := none } c ext).1
  graphql : effectiveName env s ≠ "pipeline" → ∀ resolvers execute,
    env.registry (effectiveName env s) = some (.graphql resolvers execute) → (∀ p ∈ resolvers, Tame env (LikeNew request) p) ∧
      ∀ call : MiddlewareCall, execute { call with targetName := target } = execute { call with targetName := none }

/-- A middleware that reads nothing of the difference answers without it. -/
theorem unseen_answer_other {A : RequestContext → RequestContext → Prop} (behavior : StateBehavior)
    {execute : MiddlewareCall → RequestContext → σ → Except Failure (MiddlewareOutput × Value) × RequestContext × σ}
    (h : MiddlewareAgrees A execute) (run : RunFn σ) (call : MiddlewareCall) :
    Unseen A ((Middleware.other behavior execute).answer run call) := by
  refine Prog.sim_bind (Prog.sim_update fun w w' hw => ?_) fun r => Prog.sim_ofExcept r
  obtain ⟨hout, hctx, hext⟩ := h w.reqCtx w'.reqCtx call w.ext hw.reqCtx
  rw [← hw.ext]
  exact ⟨hout, hw.cache, hw.clock, hw.others, hext, hctx⟩

/-- A portable step's middleware answers in a new context, without a target, what it answers in place. -/
theorem Portable.answer {m : Middleware σ} {s : RegularStep} {target : Option String} {w : World σ}
    (hp : Portable env w.reqCtx s target) (hdebug : env.debugger = none) (hr : env.registry (effectiveName env s) = some m)
    (hpipe : effectiveName env s ≠ "pipeline") {n : ℕ} {args : List String} {config : String} {state : Value} {w₁ w₂ w₃ : World σ}
    {output : MiddlewareOutput} {v : Value}
    (h : Prog.Ends (m.answer (executeWithErrorShortCircuit env n)
      { args := args, config := config, state := state, targetName := target }) w₁ (.ok (output, v)) w₂)
    (hsame : SameBut (LikeNew w.reqCtx) w₁ w₃) :
    ∃ output w₄, Prog.Ends (m.answer (executeWithErrorShortCircuit env n)
      { args := args, config := config, state := state, targetName := none }) w₃ (.ok (output, v)) w₄ := by
  generalize hcall : ({ args := args, config := config, state := state, targetName := none } : MiddlewareCall) = call
  have htargeted : ({ args := args, config := config, state := state, targetName := target } : MiddlewareCall) =
      { call with targetName := target } := by rw [← hcall]
  have hplain : ({ call with targetName := none } : MiddlewareCall) = call := by rw [← hcall]
  rw [htargeted] at h
  cases m with
  | cache =>
    subst hcall
    obtain ⟨he, -⟩ := Prog.Ends.unique h (Prog.ends_pure _ _)
    cases he
    exact ⟨_, _, Prog.ends_pure _ _⟩
  | graphql resolvers execute =>
    obtain ⟨htame, htarget⟩ := hp.graphql hpipe resolvers execute hr
    have hblind : Unseen (LikeNew w.reqCtx) ((Middleware.graphql resolvers execute : Middleware σ).answer
        (executeWithErrorShortCircuit env n) { call with targetName := target }) :=
      sim_perform (hides_likeNew hdebug _).stable (fun p hmem => unseen_execute (hides_likeNew hdebug _) (htame p hmem) n) _
    obtain ⟨w₄, hends, -⟩ := Prog.Ends.of_blind h hblind hsame
    unfold Middleware.answer at hends ⊢
    dsimp only at hends ⊢
    rw [htarget call, hplain] at hends
    exact ⟨_, _, hends⟩
  | other behavior execute =>
    obtain ⟨hagrees, htarget⟩ := hp.middleware hpipe behavior execute hr
    obtain ⟨w₄, hends, -⟩ := Prog.Ends.of_blind h (unseen_answer_other behavior hagrees _ _) hsame
    obtain ⟨l, hends⟩ := hends
    unfold Middleware.answer at hends
    dsimp only at hends
    rw [Prog.update_bind] at hends
    obtain ⟨he, -, -⟩ := Prog.ofExcept_eq_some hends
    have hnone : (execute call w₃.reqCtx w₃.ext).1 = .ok (output, v) := by
      have htarget := htarget call w₃.reqCtx w₃.ext
      rw [hplain] at htarget
      exact htarget.symm.trans he.symm
    have hret : ∀ w : World σ, Prog.Ends (Prog.ofExcept (execute call w₃.reqCtx w₃.ext).1 : Exec σ _) w (.ok (output, v)) w := by
      intro w
      rw [hnone]
      exact Prog.ends_ofExcept (.ok (output, v)) w
    exact ⟨output, _, (Prog.ends_update _ _).bind (hret _)⟩

/-- A step that is neither a join nor tagged `@async` calls a pipeline or a middleware. -/
theorem mode_of_call {s : RegularStep} (hasync : s.condition.bind getAsyncFromTagExpr = none) (hcall : effectiveName env s ≠ "join") :
    detectExecutionMode (effectiveName env s) s.condition =
      if effectiveName env s = "pipeline" then .recursive else .standard := by
  unfold detectExecutionMode
  rw [hasync]
  dsimp only
  rw [if_neg hcall]

/-- The world in which a call of a pipeline is logged is like one with a new context. -/
theorem logPipelineCall_likeNew (name config : String) (input : Value) (w : World σ) :
    ∃ w₁, Prog.Ends (logPipelineCall name config input) w (.ok ()) w₁ ∧ w₁.ext = w.ext ∧
      SameBut (LikeNew w.reqCtx) w₁ { w with reqCtx := {} } := by
  have hnew := likeNew_new w.reqCtx
  unfold logPipelineCall
  split
  · exact ⟨_, Prog.ends_modify _ _, rfl, rfl, rfl, rfl, rfl,
      ⟨hnew.flags, hnew.conditions, hnew.metadata, hnew.cachePolicy, hnew.tasks⟩⟩
  · exact ⟨w, Prog.ends_pure _ _, rfl, rfl, rfl, rfl, rfl, hnew⟩

/-- What a middleware answered, from the result of its step. -/
theorem answer_of_core {m : Middleware σ} {s : RegularStep} {ctx : StepContext} {config : String} {input : Value}
    {target : Option String} {w w' : World σ} {result : PipelineOutput} {pipeCtx : PipelineContext} {l : List Event}
    (hr : env.registry (effectiveName env s) = some m) (hcache : m ≠ .cache)
    (h : runCoreLogic env run s ctx .standard config input target w = some (.ok (result, pipeCtx), w', l)) :
    ∃ output, Prog.Ends (m.answer run { args := s.args, config := config, state := input, targetName := target }) w
      (.ok (output, result.state)) w' := by
  obtain ⟨⟨res, temp⟩, w₁, l₁, l₂, hstandard, hret, -⟩ := Prog.bind_eq_ok h
  cases hret
  obtain ⟨⟨output, c⟩, w₂, l₃, l₄, hinvoke, hret, -⟩ := Prog.bind_eq_ok hstandard
  cases hret
  exact ⟨output, answer_of_invoke hr hcache hinvoke⟩

/-- What a step gives its middleware. -/
def stepCall (env : ExecutionEnv σ) (s : RegularStep) (state : Value) (target : Option String) : MiddlewareCall :=
  { args := s.args, config := (resolvedStep env s state).1, state := (resolvedStep env s state).2.1, targetName := target }

/-- A task of a middleware calls it without a target. -/
theorem taskBody_middleware {s : RegularStep} (hpipe : effectiveName env s ≠ "pipeline") (state : Value) :
    taskBody env run (taskOf env s state) =
      invoke env run (effectiveName env s) s.args (resolvedStep env s state).1 (PipelineContext.new (resolvedStep env s state).2.1)
        none >>= fun p => pure p.2.state := by
  unfold taskBody taskOf resolvedStep
  dsimp only
  rw [if_neg hpipe]

/-- The task of a middleware step returns the state that the middleware answers. -/
theorem taskBody_answer {m : Middleware σ} {s : RegularStep} (hpipe : effectiveName env s ≠ "pipeline")
    (hr : env.registry (effectiveName env s) = some m) (hcache : m ≠ .cache) {state : Value} {w w₁ : World σ}
    {r : Except Failure (MiddlewareOutput × Value)} (h : Prog.Ends (m.answer run (stepCall env s state none)) w r w₁) :
    Prog.Ends (taskBody env run (taskOf env s state)) w (r.map Prod.snd) w₁ := by
  rw [taskBody_middleware hpipe]
  unfold stepCall at h
  generalize resolvedStep env s state = resolved at h ⊢
  have hinvoke := invoke_ends hr hcache s.args resolved.1 (PipelineContext.new resolved.2.1) none h
  cases r with
  | error f => exact hinvoke.bind_error
  | ok p => exact hinvoke.bind (Prog.ends_pure _ _)

/-- A task of a pipeline returns what a call of the pipeline returns. -/
theorem taskBody_pipeline {s : RegularStep} {state : Value} (hpipe : effectiveName env s = "pipeline") :
    taskBody env run (taskOf env s state) =
      handleRecursivePipeline env run s.args (resolvedStep env s state).1 s.location (resolvedStep env s state).2.1 >>= fun res =>
        pure res.state := by
  unfold taskBody taskOf resolvedStep
  dsimp only
  rw [if_pos hpipe]

/-- The task of a portable step returns what the step returns in place. -/
theorem taskBody_of_stepResult {n : ℕ} {s : RegularStep} {ctx : StepContext} {w w₁ : World σ} {result : PipelineOutput}
    {pipeCtx : PipelineContext} (hdebug : env.debugger = none) (hasync : s.condition.bind getAsyncFromTagExpr = none)
    (hcall : effectiveName env s ≠ "join") (hcache : env.registry (effectiveName env s) ≠ some .cache)
    (hp : Portable env w.reqCtx s (targetOf env s ctx).1)
    (h : Prog.Ends (stepResult env (executeWithErrorShortCircuit env n) s ctx) w (.ok (result, pipeCtx)) w₁) :
    ∃ w₂, Prog.Ends (taskBody env (executeWithErrorShortCircuit env n) (taskOf env s ctx.pipeCtx.state)) { w with reqCtx := {} }
      (.ok result.state) w₂ := by
  have hconfig : (resolvedStep env s ctx.pipeCtx.state).1 = resolvedConfig env s := resolveConfig_fst _ _ _ _ _
  obtain ⟨l, h⟩ := h
  unfold stepResult at h
  rw [mode_of_call hasync hcall] at h
  obtain ⟨⟨⟩, w₃, l₁, l₂, hlog, hcore, -⟩ := Prog.bind_eq_ok h
  obtain ⟨w₄, hlog', hext, hsame⟩ := logPipelineCall_likeNew (effectiveName env s) (resolvedStep env s ctx.pipeCtx.state).1
    (resolvedStep env s ctx.pipeCtx.state).2.1 w
  obtain ⟨-, rfl⟩ := Prog.Ends.unique hlog' ⟨_, hlog⟩
  by_cases hpipe : effectiveName env s = "pipeline"
  · rw [if_pos hpipe] at hcore
    rw [taskBody_pipeline hpipe]
    obtain ⟨res, w₅, l₃, l₄, hrun, hret, -⟩ := Prog.bind_eq_ok hcore
    cases hret
    have hblind : Unseen (LikeNew w.reqCtx) (handleRecursivePipeline env (executeWithErrorShortCircuit env n) s.args
        (resolvedStep env s ctx.pipeCtx.state).1 s.location (resolvedStep env s ctx.pipeCtx.state).2.1) := by
      refine unseen_handleRecursivePipeline (fun p hresolve => ?_) _
      rw [hconfig] at hresolve
      exact unseen_execute (hides_likeNew hdebug _) (hp.pipeline p ((calledPipeline_of_name hpipe).trans hresolve)) n
    obtain ⟨w₆, hrun', -⟩ := Prog.Ends.of_blind ⟨_, hrun⟩ hblind hsame
    exact ⟨w₆, hrun'.bind (Prog.ends_pure _ _)⟩
  · rw [if_neg hpipe] at hcore
    cases hr : env.registry (effectiveName env s) with
    | none =>
      obtain ⟨_, _, _, _, hstandard, -, -⟩ := Prog.bind_eq_ok hcore
      obtain ⟨_, _, _, _, hinvoke, -, -⟩ := Prog.bind_eq_ok hstandard
      unfold invoke at hinvoke
      dsimp only at hinvoke
      rw [hr] at hinvoke
      cases hinvoke
    | some m =>
      have hcache' : m ≠ .cache := fun hm => hcache (hm ▸ hr)
      obtain ⟨output, hanswer⟩ := answer_of_core hr hcache' hcore
      obtain ⟨output', w₅, htask⟩ := hp.answer hdebug hr hpipe hanswer hsame
      refine ⟨w₅, taskBody_answer (r := .ok (output', result.state)) hpipe hr hcache' ?_⟩
      unfold stepCall
      exact htask

/-! ## A task and its join -/

/-- The world that the handler of a step starts in. -/
def World.enter (w : World σ) (step : PipelineStep) : World σ :=
  { w with reqCtx := { w.reqCtx with profiler := w.reqCtx.profiler.push (determineStepName step) } }

/-- The world after the end of a step. -/
def World.leave (w : World σ) : World σ :=
  { w with reqCtx := { w.reqCtx with profiler := w.reqCtx.profiler.recordSample.pop } }

/-- A step that goes on takes the loop one turn on. -/
theorem iterate_ends (hdebug : env.debugger = none) {st : LoopState} {steps : List PipelineStep} {idx : ℕ} (step : PipelineStep)
    {ctx : StepContext} {w w₁ : World σ} (hskip : st.skips step = false)
    (h : Prog.Ends (dispatchStep env run step (st.stepContext idx steps)) (w.enter step) (.ok (.continue, ctx)) w₁) :
    Prog.Ends (iterate env run steps idx step st) w (.ok (.inl (st.next ctx))) w₁.leave := by
  have hbefore : ∀ name, handleDebuggerBefore env step name (st.stepContext idx steps) = pure (st.stepContext idx steps) := by
    intro name
    unfold handleDebuggerBefore
    rw [hdebug]
  have hsettle : ∀ p : StepOutcome × StepContext, settle step (st.stepContext idx steps) (.ok p) = .ok p := by
    intro p
    cases step <;> rfl
  have hstep : Prog.Ends (executeStep env run step (st.stepContext idx steps)) w (.ok (.continue, ctx)) w₁.leave := by
    unfold executeStep
    dsimp only
    rw [hbefore, pure_bind]
    refine (Prog.ends_modify _ _).bind (h.attempt.bind ((Prog.ends_emit _ _).bind ((Prog.ends_modify _ _).bind ?_)))
    rw [hsettle]
    exact Prog.ends_ofExcept (.ok _) _
  rw [iterate_of_not_skips hskip]
  exact (Prog.ends_emit _ _).bind (hstep.bind (Prog.ends_pure _ _))

/-- A step tagged `@async` registers its task and goes on. -/
theorem executeRegular_spawn (run : RunFn σ) (s : RegularStep) {e : TagExpr} {t : String} (he : getAsyncFromTagExpr e = some t)
    (ctx : StepContext) {w : World σ} (hcheck : checkTagExpr env w.reqCtx ctx.pipeCtx.state e = true) :
    Prog.Ends (executeRegular env run { s with condition := some e } ctx) w (.ok (.continue, ctx))
      { w with reqCtx := w.reqCtx.register t (taskOf env s ctx.pipeCtx.state) } := by
  have hmode : detectExecutionMode (effectiveName env { s with condition := some e }) (some e) = .async t := by
    unfold detectExecutionMode
    rw [Option.bind_some, he]
  unfold executeRegular
  refine (Prog.ends_gets _ _).bind ?_
  have hruns : shouldExecuteStep (some e) env w.reqCtx ctx.pipeCtx.state = true := hcheck
  dsimp only
  rw [if_pos hruns]
  refine (Prog.ends_gets _ _).bind ?_
  rw [hmode]
  exact ((Prog.ends_emit _ _).bind (Prog.ends_modify _ _)).bind (Prog.ends_pure _ _)

/-- The step awaits one task. -/
structure Awaits (env : ExecutionEnv σ) (j : RegularStep) (t : String) : Prop where
  name : effectiveName env j = "join"
  condition : j.condition = none
  targets : joinTaskNames env (resolvedConfig env j) j.parsedJoinTargets = .ok [t]

/-- A task that ends has an outcome: what its body returned, or the text of its failure. -/
theorem runTask_ends (hdebug : env.debugger = none) (name : String) {task : AsyncTask} {w w₁ : World σ} {r : Except Failure Value}
    (h : Prog.Ends (taskBody env run task) { w with reqCtx := {} } r w₁) :
    ∃ outcome, Prog.Ends (runTask env run name task) w (.ok outcome) { w₁ with reqCtx := w.reqCtx } ∧
      (∀ v, r = .ok v → outcomeValue env outcome = v) ∧
      ∀ f, r = .error f → ∃ text, outcomeValue env outcome = .object [("error", .string text)] := by
  have hthread : (allocateThread env : Exec σ Unit) = pure () := by
    unfold allocateThread
    rw [hdebug]
  have hends : Prog.Ends (runTask env run name task) w
      (.ok ((r.map fun v => (v, w₁.reqCtx.profiler)).mapError (locate task.location))) { w₁ with reqCtx := w.reqCtx } := by
    unfold runTask
    rw [hthread, pure_bind]
    exact Prog.Ends.within (h.enclose.attempt.bind ((Prog.ends_gets _ _).bind (Prog.ends_pure _ _)))
  refine ⟨_, hends, ?_, ?_⟩
  · rintro v rfl
    rfl
  · rintro f rfl
    cases f with
    | err e => exact ⟨_, rfl⟩
    | panic => exact ⟨_, rfl⟩

/-- The join of one registered task leaves its outcome. -/
theorem executeRegular_join {j : RegularStep} {t : String} (hj : Awaits env j t) (ctx : StepContext) {w w₁ : World σ}
    {task : AsyncTask} (htask : w.reqCtx.asyncRegistry t = some task) {outcome : Except Failure (Value × Profiler)}
    (h : Prog.Ends (runTask env run t task) { w with reqCtx := (w.reqCtx.takeTask t).2 } (.ok outcome) w₁) :
    ∃ isLastStep w₂, Prog.Ends (executeRegular env run j ctx) w
      (.ok (afterJoin env j ctx isLastStep [(t, outcomeValue env outcome)])) w₂ := by
  have hmode : detectExecutionMode (effectiveName env j) j.condition = .join := by
    unfold detectExecutionMode
    rw [hj.condition, hj.name]
    rfl
  have hruns : shouldExecuteStep j.condition env w.reqCtx ctx.pipeCtx.state = true := by
    rw [hj.condition]
    rfl
  have hmerge : ∃ w₂, Prog.Ends (mergeSamples t outcome : Exec σ Unit) w₁ (.ok ()) w₂ := by
    rcases outcome with e | ⟨v, profiler⟩
    · exact ⟨_, Prog.ends_pure _ _⟩
    · exact ⟨_, Prog.ends_modify _ _⟩
  obtain ⟨w₂, hmerge⟩ := hmerge
  have hawait : Prog.Ends (awaitTask env run t task) { w with reqCtx := (w.reqCtx.takeTask t).2 } (.ok (outcomeValue env outcome)) w₂ :=
    h.bind (hmerge.bind (Prog.ends_pure _ _))
  have hjoin : Prog.Ends (joinTasks env run [t] []) w (.ok [(t, outcomeValue env outcome)]) w₂ := by
    rw [joinTasks_cons]
    refine (Prog.ends_update _ _).bind ?_
    have htaken : (w.reqCtx.takeTask t).1 = some task := htask
    dsimp only
    rw [htaken]
    exact hawait.bind (Prog.ends_pure _ _)
  refine ⟨isEffectivelyLastStep ctx.stepIndex ctx.allSteps env w.reqCtx ctx.pipeCtx.state, w₂, ?_⟩
  unfold executeRegular
  refine (Prog.ends_gets _ _).bind ?_
  dsimp only
  rw [if_pos hruns]
  refine (Prog.ends_gets _ _).bind ?_
  rw [hmode]
  dsimp only
  rw [executeCore_join hj.name, hj.targets]
  exact (Prog.ends_ofExcept (.ok [t]) _).bind (hjoin.bind ((Prog.ends_emit _ _).bind (Prog.ends_pure _ _)))

/-- What a state holds under `async` for a task. -/
def asyncResult (state : Value) (t : String) : Option Value := (state.get "async").bind fun results => results.get t

/-- What a state holds under `data` for a result name. -/
def dataResult (state : Value) (n : String) : Option Value := (state.get "data").bind fun data => data.get n

/-- After the first of two steps has left the state alone, the loop does not pass the second over either. -/
theorem skips_next {st : LoopState} {step : PipelineStep} (step' : PipelineStep) (h : st.skips step = false) (ctx : StepContext)
    (hstate : ctx.pipeCtx.state = st.pipeCtx.state) (hresult : step.isResult = false) : (st.next ctx).skips step' = false := by
  unfold LoopState.skips at h ⊢
  rw [hresult] at h
  have herror : (st.next ctx).currentErrorType = st.currentErrorType := congrArg extractErrorType hstate
  rw [herror]
  cases hc : st.currentErrorType with
  | none => rfl
  | some err =>
    rw [hc] at h
    have hhandled : st.recompute.handledErrorType.isNone = false := by simpa using h
    have hsame : st.recompute.handledErrorType = some err := by
      unfold LoopState.recompute at hhandled ⊢
      dsimp only at hhandled ⊢
      split at hhandled
      · rename_i heq
        rw [if_pos heq, heq, hc]
      · cases hhandled
    have hnext : (st.next ctx).recompute.handledErrorType = some err := by
      unfold LoopState.recompute
      dsimp only
      rw [herror, hc, LoopState.next, hsame, if_pos rfl]
    rw [hnext]
    rfl

/-- The turn of a step tagged `@async`: its task is registered. -/
theorem iterate_spawn (run : RunFn σ) (hdebug : env.debugger = none) {s : RegularStep} {e : TagExpr} {t : String}
    (he : getAsyncFromTagExpr e = some t) {st : LoopState} (steps : List PipelineStep) (idx : ℕ) (w : World σ)
    (hskip : st.skips (.regular s) = false) (hcheck : ∀ c, checkTagExpr env c st.pipeCtx.state e = true) :
    ∃ c : RequestContext, c.asyncRegistry t = some (taskOf env s st.pipeCtx.state) ∧
      Prog.Ends (iterate env run steps idx (.regular { s with condition := some e }) st) w
        (.ok (.inl (st.next (st.stepContext idx steps)))) { w with reqCtx := c } := by
  have hspawn := executeRegular_spawn run s he (st.stepContext idx steps) (w := w.enter (.regular { s with condition := some e }))
    (hcheck _)
  have hturn := iterate_ends hdebug (.regular { s with condition := some e }) hskip hspawn
  have hregistered : ((w.enter (.regular { s with condition := some e })).reqCtx.register t
      (taskOf env s st.pipeCtx.state)).asyncRegistry t = some (taskOf env s st.pipeCtx.state) := if_pos rfl
  refine ⟨_, ?_, hturn⟩
  exact hregistered

/-- The turn of a join of one registered task: its outcome enters the state. -/
theorem iterate_join (hdebug : env.debugger = none) (hmerge : (env.getBehavior "join").getD .merge = .merge) {j : RegularStep}
    {t : String} (hj : Awaits env j t) {st : LoopState} (steps : List PipelineStep) (idx : ℕ) {members : Object}
    (hskip : st.skips (.regular j) = false) (hpipe : st.pipeCtx = PipelineContext.new (.object members))
    (hkeys : IndexMap.Distinct members) {w w₁ : World σ} {task : AsyncTask} (htask : w.reqCtx.asyncRegistry t = some task)
    {r : Except Failure Value} (hbody : Prog.Ends (taskBody env run task) { w with reqCtx := {} } r w₁) :
    ∃ st' w₂ u, Prog.Ends (iterate env run steps idx (.regular j) st) w (.ok (.inl st')) w₂ ∧
      asyncResult st'.pipeCtx.state t = some u ∧ st'.pipeCtx.pendingCacheSaves = [] ∧ (∀ v, r = .ok v → u = v) ∧
      ∀ f, r = .error f → ∃ text, u = .object [("error", .string text)] := by
  obtain ⟨outcome, hrun, hok, herror⟩ := runTask_ends hdebug t
    (w := { w.enter (.regular j) with reqCtx := ((w.enter (.regular j)).reqCtx.takeTask t).2 }) hbody
  obtain ⟨isLastStep, w₂, hjoin⟩ := executeRegular_join hj (st.stepContext idx steps) (w := w.enter (.regular j)) htask hrun
  have hstate : (st.stepContext idx steps).pipeCtx = PipelineContext.new (.object members) := hpipe
  obtain ⟨after, ctx', hafter, hobject, -, hasync, -, hsaves⟩ := afterJoin_state hj.name hmerge
    (congrArg PipelineContext.state hstate) hkeys (congrArg PipelineContext.cacheHit hstate) isLastStep
    [(t, outcomeValue env outcome)]
  rw [hafter] at hjoin
  refine ⟨_, _, outcomeValue env outcome, iterate_ends hdebug (.regular j) hskip hjoin, ?_, ?_, hok, herror⟩
  · have hobject : (st.next ctx').pipeCtx.state = .object after := hobject
    have hget : Value.get (.object after) "async" = some (.object [(t, outcomeValue env outcome)]) := hasync
    have hresult : Value.get (.object [(t, outcomeValue env outcome)]) t = some (outcomeValue env outcome) := if_pos rfl
    unfold asyncResult
    rw [hobject, hget, Option.bind_some, hresult]
  · exact hsaves.trans (congrArg PipelineContext.pendingCacheSaves hstate)

/-- A run without saves that falls off its end returns. -/
theorem finishRun_ends {st : LoopState} (hsaves : st.pipeCtx.pendingCacheSaves = []) (w : World σ) :
    Prog.Ends (finishRun (.inl st)) w (.ok st.output) w := by
  have hnone : Prog.Ends (runPendingCacheSaves st.pipeCtx.pendingCacheSaves st.output) w (.ok ()) w := by
    unfold runPendingCacheSaves
    rw [hsaves]
    split
    · exact Prog.ends_pure _ _
    · exact Prog.ends_pure _ _
  exact hnone.bind (Prog.ends_pure _ _)

/-- A run that spawns a task and joins it leaves what the body of the task returned. -/
theorem execute_spawn_join {n : ℕ} {s j : RegularStep} {t : String} {e : TagExpr} {members : Object} {handled : Option String}
    {w w₁ : World σ} {r : Except Failure Value} (hdebug : env.debugger = none)
    (hmerge : (env.getBehavior "join").getD .merge = .merge) (hj : Awaits env j t) (hkeys : IndexMap.Distinct members)
    (hskip : (LoopState.start (.object members) handled).skips (.regular s) = false) (he : getAsyncFromTagExpr e = some t)
    (hcheck : ∀ c, checkTagExpr env c (.object members) e = true)
    (hbody : Prog.Ends (taskBody env (executeWithErrorShortCircuit env n) (taskOf env s (.object members)))
      { w with reqCtx := {} } r w₁) :
    ∃ output w₂ u, Prog.Ends (executeWithErrorShortCircuit env (n + 1)
        { steps := [.regular { s with condition := some e }, .regular j] } (.object members) handled) w (.ok output) w₂ ∧
      asyncResult output.state t = some u ∧ (∀ v, r = .ok v → u = v) ∧
      ∀ f, r = .error f → ∃ text, u = .object [("error", .string text)] := by
  generalize hsteps : [PipelineStep.regular { s with condition := some e }, .regular j] = steps
  obtain ⟨c, hregistered, hspawn⟩ := iterate_spawn (executeWithErrorShortCircuit env n) hdebug he steps 0 w hskip hcheck
  have hskip' := skips_next (.regular j) hskip ((LoopState.start (.object members) handled).stepContext 0 steps) rfl rfl
  obtain ⟨st', w₂, u, hjoin, hu, hsaves, hok, herror⟩ := iterate_join (w := { w with reqCtx := c }) hdebug hmerge hj
    steps 1 hskip' rfl hkeys hregistered hbody
  refine ⟨st'.output, w₂, u, ?_, hu, hok, herror⟩
  subst hsteps
  have hloop : Prog.Ends (loopSteps env (executeWithErrorShortCircuit env n)
      [.regular { s with condition := some e }, .regular j] 0 [.regular { s with condition := some e }, .regular j]
      (.start (.object members) handled)) w (.ok (.inl st')) w₂ := by
    rw [loopSteps_cons]
    refine hspawn.bind ?_
    change Prog.Ends (loopSteps env _ _ 1 [.regular j] _) _ _ _
    rw [loopSteps_cons]
    exact hjoin.bind (Prog.ends_pure _ _)
  exact hloop.bind (finishRun_ends hsaves w₂)

/-! ## A result name -/

/-- The tag `@async(t)`. -/
def asyncTag (t : String) : TagExpr := .tag { name := "async", negated := false, args := [t] }

/-- The tag `@result(n)`. -/
def resultTag (n : String) : TagExpr := .tag { name := "result", negated := false, args := [n] }

/-- What a result is wrapped in is found under its name. -/
theorem dataResult_applyDataWrap (state v : Value) (n : String) : dataResult (applyDataWrap state v n) n = some v := by
  have hwrap : ∀ members data : Object,
      dataResult (.object (IndexMap.insert members "data" (.object (IndexMap.insert data n v)))) n = some v := by
    intro members data
    have houter : Value.get (.object (IndexMap.insert members "data" (.object (IndexMap.insert data n v)))) "data" =
        some (.object (IndexMap.insert data n v)) := IndexMap.get_insert_self _ _ _
    unfold dataResult
    rw [houter, Option.bind_some]
    exact IndexMap.get_insert_self data n v
  unfold applyDataWrap
  cases state with
  | object members => exact hwrap members _
  | _ => exact hwrap [] []

/-- A middleware that answers gives its step a result without saves. -/
theorem core_ends (run : RunFn σ) {m : Middleware σ} {s : RegularStep} (hr : env.registry (effectiveName env s) = some m)
    (hcache : m ≠ .cache) (ctx : StepContext) (state : Value) (target : Option String) {w w' : World σ} {output : MiddlewareOutput}
    {v : Value} (h : Prog.Ends (m.answer run (stepCall env s state target)) w (.ok (output, v)) w') :
    ∃ result pipeCtx, Prog.Ends
        (runCoreLogic env run s ctx .standard (resolvedStep env s state).1 (resolvedStep env s state).2.1 target) w
        (.ok (result, pipeCtx)) w' ∧
      result.state = v ∧ pipeCtx.cacheHit = none ∧ pipeCtx.pendingCacheSaves = ctx.pipeCtx.pendingCacheSaves := by
  unfold stepCall at h
  generalize resolvedStep env s state = resolved at h ⊢
  have hinvoke := invoke_ends hr hcache s.args resolved.1
    { PipelineContext.new resolved.2.1 with currentStepId := some (stepId s.location ctx.stepIndex) } target h
  refine ⟨{ state := v, contentType := output.contentType.getD "application/json", statusCode := none },
    { ctx.pipeCtx with pendingCacheSaves := ctx.pipeCtx.pendingCacheSaves ++ [], cacheHit := none }, ?_, rfl, rfl,
    List.append_nil _⟩
  have hstandard : Prog.Ends (handleStandardExecution env run (effectiveName env s) s.args resolved.1
      { PipelineContext.new resolved.2.1 with currentStepId := some (stepId s.location ctx.stepIndex) } target) w
      (.ok ({ state := v, contentType := output.contentType.getD "application/json", statusCode := none },
        { PipelineContext.new v with currentStepId := some (stepId s.location ctx.stepIndex) })) w' :=
    hinvoke.bind (Prog.ends_pure _ _)
  exact hstandard.bind (Prog.ends_pure _ _)

/-- A `pg`, `fetch` or `graphql` step with a result name wraps the value of its middleware under the name. -/
theorem finishRegular_named {s : RegularStep} (ctx : StepContext) {pipeCtx : PipelineContext} {result : PipelineOutput} {name : String}
    {v : Value} (hcondition : s.condition = some (resultTag name))
    (hfetches : effectiveName env s = "pg" ∨ effectiveName env s = "fetch" ∨ effectiveName env s = "graphql")
    (hresult : result.state = v) (htyped : extractErrorType v = none) (hhit : pipeCtx.cacheHit = none) (isLastStep : Bool) :
    ∃ ctx', finishRegular env s { ctx with pipeCtx := pipeCtx } result (some name) false isLastStep = (.continue, ctx') ∧
      dataResult ctx'.pipeCtx.state name = some v ∧ ctx'.pipeCtx.pendingCacheSaves = pipeCtx.pendingCacheSaves := by
  have hvalue : overrideErrorType result.state (s.condition.bind getErrorFromTagExpr) = v := by
    rw [hcondition, hresult]
    rfl
  have hwraps : (effectiveName env s = "pg" ∨ effectiveName env s = "fetch" ∨ effectiveName env s = "graphql") ∧
      (extractErrorType v).isNone = true := ⟨hfetches, by rw [htyped]; rfl⟩
  have happly : applyResultToState env pipeCtx (effectiveName env s) v (some name) isLastStep =
      { pipeCtx with state := applyDataWrap pipeCtx.state v name } := if_pos hwraps
  unfold finishRegular
  dsimp only
  rw [hvalue, happly, hhit]
  exact ⟨_, rfl, dataResult_applyDataWrap _ _ _, rfl⟩

/-- A step that runs in place ends where its result is finished. -/
theorem executeRegular_ends {run : RunFn σ} {s : RegularStep} {ctx ctx' : StepContext} {w w' : World σ} {result : PipelineOutput}
    {pipeCtx : PipelineContext} (hruns : shouldExecuteStep s.condition env w.reqCtx ctx.pipeCtx.state = true)
    (hmode : detectExecutionMode (effectiveName env s) s.condition = .standard)
    (hstep : Prog.Ends (stepResult env run s ctx) w (.ok (result, pipeCtx)) w')
    (hends : finishRegular env s { namedContext env s ctx with pipeCtx := pipeCtx } result (targetOf env s ctx).1 (targetOf env s ctx).2
      (isEffectivelyLastStep ctx.stepIndex ctx.allSteps env w.reqCtx ctx.pipeCtx.state) = (.continue, ctx')) :
    Prog.Ends (executeRegular env run s ctx) w (.ok (.continue, ctx')) w' := by
  unfold executeRegular
  refine (Prog.ends_gets _ _).bind ?_
  dsimp only
  rw [if_pos hruns]
  refine (Prog.ends_gets _ _).bind ?_
  have hcore := executeCore_eq_stepResult env run s ctx
    (isEffectivelyLastStep ctx.stepIndex ctx.allSteps env w.reqCtx ctx.pipeCtx.state)
  rw [hmode] at hcore ⊢
  dsimp only
  rw [hcore]
  refine hstep.bind ?_
  dsimp only
  rw [hends]
  exact Prog.ends_pure _ _

/-- A `pg`, `fetch` or `graphql` step with a result name stores what its middleware answers under the name. -/
theorem execute_in_place {n : ℕ} {m : Middleware σ} {s : RegularStep} {name : String} {members : Object} {handled : Option String}
    {w w₁ : World σ} (hdebug : env.debugger = none) (hskip : (LoopState.start (.object members) handled).skips (.regular s) = false)
    (hcondition : s.condition = some (resultTag name))
    (hfetches : effectiveName env s = "pg" ∨ effectiveName env s = "fetch" ∨ effectiveName env s = "graphql")
    (hr : env.registry (effectiveName env s) = some m) (hcache : m ≠ .cache)
    (hblind : Unseen (LikeNew w.reqCtx)
      (m.answer (executeWithErrorShortCircuit env n) (stepCall env s (.object members) (some name))))
    {answer : MiddlewareOutput} {v : Value}
    (hanswer : Prog.Ends (m.answer (executeWithErrorShortCircuit env n) (stepCall env s (.object members) (some name)))
      { w with reqCtx := {} } (.ok (answer, v)) w₁)
    (htyped : extractErrorType v = none) :
    ∃ output w', Prog.Ends (executeWithErrorShortCircuit env (n + 1) { steps := [.regular s] } (.object members) handled) w
      (.ok output) w' ∧ dataResult output.state name = some v := by
  have hcall : effectiveName env s ≠ "join" ∧ effectiveName env s ≠ "pipeline" := by
    rcases hfetches with h | h | h <;> rw [h] <;> decide
  have hmode : detectExecutionMode (effectiveName env s) s.condition = .standard := by
    rw [mode_of_call (by rw [hcondition]; rfl) hcall.1, if_neg hcall.2]
  generalize hctx : (LoopState.start (.object members) handled).stepContext 0 [.regular s] = ctx
  have hstate : ctx.pipeCtx.state = .object members := by
    rw [← hctx]
    rfl
  have hsaves : ctx.pipeCtx.pendingCacheSaves = [] := by
    rw [← hctx]
    rfl
  have htarget : targetOf env s ctx = (some name, false) := by
    unfold targetOf
    rw [hcondition]
    rfl
  have hnamed : (namedContext env s ctx).pipeCtx.pendingCacheSaves = [] := by
    unfold namedContext
    generalize resolvedStep env s ctx.pipeCtx.state = resolved
    split
    · exact hsaves
    · exact hsaves
  -- the request, with its profiler on, is one the middleware does not tell from a new one
  have hnew := likeNew_new w.reqCtx
  have hrequest : LikeNew w.reqCtx {} (w.enter (.regular s)).reqCtx :=
    ⟨fun h => (hnew.flags h).symm, fun h => (hnew.conditions h).symm, fun h => (hnew.metadata h).symm,
      fun h => (hnew.cachePolicy h).symm, fun t ht => (hnew.tasks t ht).symm⟩
  obtain ⟨w₂, hplace, -⟩ := Prog.Ends.of_blind hanswer hblind
    (⟨rfl, rfl, rfl, rfl, hrequest⟩ : SameBut _ { w with reqCtx := {} } (w.enter (.regular s)))
  rw [← hstate] at hplace
  obtain ⟨result, pipeCtx, hcore, hresult, hhit, hsaves₁⟩ := core_ends (executeWithErrorShortCircuit env n) hr hcache
    (namedContext env s ctx) _ _ hplace
  have hstep : Prog.Ends (stepResult env (executeWithErrorShortCircuit env n) s ctx) (w.enter (.regular s))
      (.ok (result, pipeCtx)) w₂ := by
    unfold stepResult logPipelineCall
    rw [if_neg hcall.2, pure_bind, hmode, htarget]
    exact hcore
  obtain ⟨ctx', hends, hdata, hsaves'⟩ := finishRegular_named (namedContext env s ctx) hcondition hfetches hresult htyped hhit
    (isEffectivelyLastStep ctx.stepIndex ctx.allSteps env (w.enter (.regular s)).reqCtx ctx.pipeCtx.state)
  have hruns : shouldExecuteStep s.condition env (w.enter (.regular s)).reqCtx ctx.pipeCtx.state = true := by
    rw [hcondition]
    rfl
  have hregular : Prog.Ends (executeRegular env (executeWithErrorShortCircuit env n) s ctx) (w.enter (.regular s))
      (.ok (.continue, ctx')) w₂ := by
    refine executeRegular_ends hruns hmode hstep ?_
    rw [htarget]
    exact hends
  subst hctx
  have hturn := iterate_ends hdebug (.regular s) hskip hregular
  refine ⟨((LoopState.start (.object members) handled).next ctx').output, w₂.leave, ?_, hdata⟩
  have hloop : Prog.Ends (loopSteps env (executeWithErrorShortCircuit env n) [.regular s] 0 [.regular s]
      (.start (.object members) handled)) w (.ok (.inl ((LoopState.start (.object members) handled).next ctx'))) w₂.leave := by
    rw [loopSteps_cons]
    exact hturn.bind (Prog.ends_pure _ _)
  exact hloop.bind (finishRun_ends (hsaves'.trans (hsaves₁.trans hnamed)) _)

/-! ## Async transparency -/

/-- What the first step of a run works on. -/
def firstContext (members : Object) (handled : Option String) (s : RegularStep) : StepContext :=
  (LoopState.start (.object members) handled).stepContext 0 [.regular s]

/-- Without a debugger, a step that sees neither what its request has beyond a new context nor its target leaves under
`.async.<task>`, as a task that is joined, what it returns in place; and a fetching step with a result name leaves under
`.async.<task>.data.<name>` what it stores under `.data.<name>` in place exactly when its middleware answers without a target, under
`data.<name>`, what it answers with the name as its target. -/
theorem async_transparent_when (env : ExecutionEnv σ) (n : ℕ) (s j : RegularStep) (t : String) (members : Object)
    (handled : Option String) (w : World σ) (hdebug : env.debugger = none) (hmerge : (env.getBehavior "join").getD .merge = .merge)
    (hj : Awaits env j t) (hkeys : IndexMap.Distinct members)
    (hskip : (LoopState.start (.object members) handled).skips (.regular s) = false) (hcall : effectiveName env s ≠ "join")
    (hcache : env.registry (effectiveName env s) ≠ some .cache) :
    (s.condition = none → Portable env w.reqCtx s (targetOf env s (firstContext members handled s)).1 → ∀ result pipeCtx w₁,
      Prog.Ends (stepResult env (executeWithErrorShortCircuit env n) s (firstContext members handled s)) w
        (.ok (result, pipeCtx)) w₁ →
      ∃ output w₂, Prog.Ends (executeWithErrorShortCircuit env (n + 1)
          { steps := [.regular { s with condition := some (asyncTag t) }, .regular j] } (.object members) handled) w (.ok output) w₂ ∧
        asyncResult output.state t = some result.state) ∧
    ∀ name m answer v w₁ r w₂, s.condition = some (resultTag name) →
      (effectiveName env s = "pg" ∨ effectiveName env s = "fetch" ∨ effectiveName env s = "graphql") →
      env.registry (effectiveName env s) = some m →
      Unseen (LikeNew w.reqCtx) (m.answer (executeWithErrorShortCircuit env n) (stepCall env s (.object members) (some name))) →
      Prog.Ends (m.answer (executeWithErrorShortCircuit env n) (stepCall env s (.object members) (some name)))
        { w with reqCtx := {} } (.ok (answer, v)) w₁ →
      Prog.Ends (m.answer (executeWithErrorShortCircuit env n) (stepCall env s (.object members) none)) { w with reqCtx := {} } r w₂ →
      extractErrorType v = none →
      (∃ output w₃, Prog.Ends (executeWithErrorShortCircuit env (n + 1) { steps := [.regular s] } (.object members) handled) w
        (.ok output) w₃ ∧ dataResult output.state name = some v) ∧
      ∃ output w₃, Prog.Ends (executeWithErrorShortCircuit env (n + 1)
          { steps := [.regular { s with condition := some (.and (asyncTag t) (resultTag name)) }, .regular j] } (.object members)
          handled) w (.ok output) w₃ ∧
        ((asyncResult output.state t).bind (dataResult · name) = some v ↔
          ∃ answer' v', r = .ok (answer', v') ∧ dataResult v' name = some v) := by
  refine ⟨?_, ?_⟩
  · intro hcondition hp result pipeCtx w₁ hresult
    have hasync : s.condition.bind getAsyncFromTagExpr = none := by
      rw [hcondition]
      rfl
    obtain ⟨w₂, hbody⟩ := taskBody_of_stepResult hdebug hasync hcall hcache hp hresult
    obtain ⟨output, w₃, u, hrun, hu, hok, -⟩ := execute_spawn_join (e := asyncTag t) hdebug hmerge hj hkeys hskip rfl
      (fun _ => rfl) hbody
    exact ⟨output, w₃, hrun, hok _ rfl ▸ hu⟩
  · intro name m answer v w₁ r w₂ hcondition hfetches hr hblind hanswer htask htyped
    have hpipe : effectiveName env s ≠ "pipeline" := by
      rcases hfetches with h | h | h <;> rw [h] <;> decide
    have hcache' : m ≠ .cache := fun hm => hcache (hm ▸ hr)
    refine ⟨execute_in_place hdebug hskip hcondition hfetches hr hcache' hblind hanswer htyped, ?_⟩
    obtain ⟨output, w₃, u, hrun, hu, hok, herror⟩ := execute_spawn_join (e := .and (asyncTag t) (resultTag name)) hdebug hmerge hj
      hkeys hskip rfl (fun _ => rfl) (taskBody_answer hpipe hr hcache' htask)
    refine ⟨output, w₃, hrun, ?_⟩
    rw [hu, Option.bind_some]
    cases r with
    | error f =>
      obtain ⟨text, rfl⟩ := herror f rfl
      constructor
      · intro h
        cases h
      · rintro ⟨_, _, h, -⟩
        cases h
    | ok p =>
      obtain ⟨answer', v'⟩ := p
      obtain rfl := hok v' rfl
      constructor
      · exact fun h => ⟨answer', u, rfl, h⟩
      · rintro ⟨_, _, h, hdata⟩
        cases h
        exact hdata

/-- `reveal` answers with a secret, `graphql` with the one field of its query, which it takes out for a target of that name; the
pipeline `gate` reveals the secret to the users of a flag. -/
def taskEnv : ExecutionEnv Unit :=
  { registry := fun name =>
      if name = "reveal" then some (.stateless .transform fun _ => .ok ({}, .string "secret"))
      else if name = "graphql" then some (.graphql [] fun call => .done (.ok ({},
        if call.targetName = some "user" then .string "ada" else .object [("data", .object [("user", .string "ada")])])))
      else none
    namedPipelines := fun _ name => if name = "gate" then some gatedPage else none }

/-- The step `join: t`. -/
def joinStep : RegularStep := { name := "join", config := "t", configPresent := true, parsedJoinTargets := some ["t"] }

theorem awaits_joinStep : Awaits taskEnv joinStep "t" := ⟨by decide +kernel, rfl, rfl⟩

theorem middlewareAgrees_stateless (A : RequestContext → RequestContext → Prop) {behavior behavior' : StateBehavior}
    {answer : MiddlewareCall → Except Failure (MiddlewareOutput × Value)}
    {execute : MiddlewareCall → RequestContext → σ → Except Failure (MiddlewareOutput × Value) × RequestContext × σ}
    (h : some (Middleware.stateless behavior answer) = some (.other behavior' execute)) :
    MiddlewareAgrees A execute ∧ ∀ call c ext, (execute call c ext).1 = answer call := by
  cases h
  exact ⟨fun _ _ _ _ hc => ⟨rfl, hc, rfl⟩, fun _ _ _ => rfl⟩

/-- The secret as the result of a task, and the field of a query under the name of its result, on an empty state. -/
theorem async_transparent_when_tasks :
    (∃ output w₂, Prog.Ends (executeWithErrorShortCircuit taskEnv 2
        { steps := [.regular { name := "reveal", condition := some (asyncTag "t") }, .regular joinStep] } (.object []) none)
        (requestWith fun _ => some true) (.ok output) w₂ ∧
      asyncResult output.state "t" = some (.string "secret")) ∧
    ∃ output w₂, Prog.Ends (executeWithErrorShortCircuit taskEnv 2
        { steps := [.regular { name := "graphql", condition := some (.and (asyncTag "t") (resultTag "user")) }, .regular joinStep] }
        (.object []) none) (requestWith fun _ => some true) (.ok output) w₂ ∧
      (asyncResult output.state "t").bind (dataResult · "user") = some (.string "ada") := by
  refine ⟨?_, ?_⟩
  · have hreveal : taskEnv.registry (effectiveName taskEnv { name := "reveal" }) =
        some (.stateless .transform fun _ => .ok ({}, .string "secret")) := rfl
    have hpipe : effectiveName taskEnv { name := "reveal" } ≠ "pipeline" := by decide +kernel
    have hmode : detectExecutionMode (effectiveName taskEnv { name := "reveal" }) none = .standard := by decide +kernel
    have hanswer : ∀ (call : MiddlewareCall) w, Prog.Ends ((Middleware.stateless .transform fun _ => .ok ({}, .string "secret") :
        Middleware Unit).answer (executeWithErrorShortCircuit taskEnv 1) call) w (.ok ({}, .string "secret")) w :=
      fun call w => (Prog.ends_update _ _).bind (Prog.ends_pure _ _)
    obtain ⟨result, pipeCtx, hcore, hresult, -, -⟩ := core_ends (executeWithErrorShortCircuit taskEnv 1) hreveal nofun
      (namedContext taskEnv { name := "reveal" } (firstContext [] none { name := "reveal" })) (.object [])
      (targetOf taskEnv { name := "reveal" } (firstContext [] none { name := "reveal" })).1 (hanswer _ (requestWith fun _ => some true))
    have hstep : Prog.Ends (stepResult taskEnv (executeWithErrorShortCircuit taskEnv 1) { name := "reveal" }
        (firstContext [] none { name := "reveal" })) (requestWith fun _ => some true) (.ok (result, pipeCtx))
        (requestWith fun _ => some true) := by
      unfold stepResult logPipelineCall
      rw [if_neg hpipe, pure_bind, hmode]
      exact hcore
    have hportable : Portable taskEnv (requestWith fun _ => some true).reqCtx { name := "reveal" }
        (targetOf taskEnv { name := "reveal" } (firstContext [] none { name := "reveal" })).1 := by
      refine ⟨fun p hp => ?_, fun _ behavior execute hr => ?_, fun _ resolvers execute hr => ?_⟩
      · rw [calledPipeline, if_neg hpipe] at hp
        cases hp
      · obtain ⟨hagrees, hanswer⟩ := middlewareAgrees_stateless (LikeNew (requestWith fun _ => some true).reqCtx)
          (hreveal.symm.trans hr)
        exact ⟨hagrees, fun call c ext => by rw [hanswer, hanswer]⟩
      · cases hreveal.symm.trans hr
    obtain ⟨output, w₂, hrun, hsecret⟩ := (async_transparent_when taskEnv 1 { name := "reveal" } joinStep "t" [] none
      (requestWith fun _ => some true) rfl rfl awaits_joinStep List.nodup_nil rfl (by decide +kernel) (by rw [hreveal]; nofun)).1
      rfl hportable result pipeCtx _ hstep
    exact ⟨output, w₂, hrun, hresult ▸ hsecret⟩
  · have hgraphql : taskEnv.registry (effectiveName taskEnv { name := "graphql", condition := some (resultTag "user") }) =
        some (.graphql [] fun call => .done (.ok ({}, if call.targetName = some "user" then .string "ada"
          else .object [("data", .object [("user", .string "ada")])]))) := rfl
    have hname : effectiveName taskEnv { name := "graphql", condition := some (resultTag "user") } = "graphql" := by decide +kernel
    have hblind : ∀ call : MiddlewareCall, Unseen (LikeNew (requestWith fun _ => some true).reqCtx)
        ((Middleware.graphql [] fun call => .done (.ok ({}, if call.targetName = some "user" then .string "ada"
          else .object [("data", .object [("user", .string "ada")])])) : Middleware Unit).answer
            (executeWithErrorShortCircuit taskEnv 1) call) := by
      intro call
      exact Prog.sim_ofExcept (.ok _)
    obtain ⟨-, output, w₂, hrun, huser⟩ := (async_transparent_when taskEnv 1
      { name := "graphql", condition := some (resultTag "user") } joinStep "t" [] none (requestWith fun _ => some true) rfl rfl
      awaits_joinStep List.nodup_nil rfl (by decide +kernel) (by rw [hgraphql]; nofun)).2 "user" _ {} (.string "ada") _
      (.ok ({}, .object [("data", .object [("user", .string "ada")])])) _ rfl (Or.inr (Or.inr hname)) hgraphql
      (hblind _) (Prog.ends_ofExcept (.ok _) _)
      (Prog.ends_ofExcept (.ok _) _) rfl
    exact ⟨output, w₂, hrun, huser.mpr ⟨{}, _, rfl, rfl⟩⟩

/-- The user of a flag sees the secret in place, and an empty page as the result of a task. -/
theorem task_loses_flags :
    (stepResult taskEnv (executeWithErrorShortCircuit taskEnv 2) (callStep "gate") (firstContext [] none (callStep "gate"))
      (requestWith fun _ => some true)).map (fun p => p.1.toOption.map fun r => r.1.state.toJson) = some (some "\"secret\"") ∧
    (executeWithErrorShortCircuit taskEnv 3
      { steps := [.regular { callStep "gate" with condition := some (asyncTag "t") }, .regular joinStep] } (.object []) none
      (requestWith fun _ => some true)).map (fun p => (p.1.toOption.bind fun output => asyncResult output.state "t").map Value.toJson) =
        some (some "\x7b\x7d") := by
  refine ⟨?_, ?_⟩
  · decide +kernel
  · decide +kernel

end WebPipe

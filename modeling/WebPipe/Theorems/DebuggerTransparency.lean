import WebPipe.Debugger.Hook
import WebPipe.Lemmas.Registry
import WebPipe.Lemmas.Simulation

/-!
# What a debugger changes

Every pause leaves the state as it was, and what the hook records in the request context is read by debuggers only. So a run under the
debug server and one without a debugger make the same calls and come to the same result. Pipelines with `graphql` steps are left out.
A task is run where it is joined; of tasks that nobody joins nothing is compared.
-/

namespace WebPipe

variable {τ : Type} {env : ExecutionEnv (τ × DapClient)}

/-- A request context without what debuggers record in it. -/
def RequestContext.undebugged (c : RequestContext) : RequestContext := { c with debugThreadId := none, debugStepMode := none }

/-- Middleware other than `graphql` neither reads nor changes what debuggers keep. -/
def IgnoresDebugger (env : ExecutionEnv (τ × DapClient)) : Prop :=
  ∀ name behavior execute, name ≠ "graphql" → env.registry name = some (.other behavior execute) →
    ∀ call c c' (ext ext' : τ × DapClient), c.undebugged = c'.undebugged → ext.1 = ext'.1 →
      (execute call c ext).1 = (execute call c' ext').1 ∧
      (execute call c ext).2.1.undebugged = (execute call c' ext').2.1.undebugged ∧
      (execute call c ext).2.2.1 = (execute call c' ext').2.2.1

/-- No pipeline that runs of the pipeline may come to has a `graphql` step. -/
def WithoutGraphql {σ : Type} (env : ExecutionEnv σ) (p : Pipeline) : Prop :=
  ∀ q, Leads env p q → ∀ s, .regular s ∈ q.steps → effectiveName env s ≠ "graphql"

/-- A task neither calls `graphql` nor a pipeline that does. -/
structure TaskWithoutGraphql {σ : Type} (env : ExecutionEnv σ) (task : AsyncTask) : Prop where
  name : task.name ≠ "graphql"
  pipeline : ∀ p, TaskStarts env task p → WithoutGraphql env p

/-- Worlds that differ in what debuggers keep only. -/
structure SameButDebugger (env : ExecutionEnv (τ × DapClient)) (w w' : World (τ × DapClient)) : Prop where
  cache : w.cache = w'.cache
  clock : w.clock = w'.clock
  others : w.others = w'.others
  ext : w.ext.1 = w'.ext.1
  reqCtx : w.reqCtx.undebugged = w'.reqCtx.undebugged
  tasks : ∀ name task, w.reqCtx.asyncRegistry name = some task → TaskWithoutGraphql env task

/-! ## The relation -/

/-- Contexts that are the same but for the debugger differ in two fields. -/
theorem undebugged_eq {c c' : RequestContext} (h : c.undebugged = c'.undebugged) :
    c' = { c with debugThreadId := c'.debugThreadId, debugStepMode := c'.debugStepMode } := by
  cases c
  cases c'
  simp only [RequestContext.undebugged, RequestContext.mk.injEq] at h
  simp_all

/-- What is written to both contexts alike leaves them alike. -/
theorem undebugged_congr {c c' : RequestContext} (h : c.undebugged = c'.undebugged) {f : RequestContext → RequestContext}
    (hf : ∀ c id mode, (f { c with debugThreadId := id, debugStepMode := mode }).undebugged = (f c).undebugged) :
    (f c).undebugged = (f c').undebugged := by
  have hchange := hf c c'.debugThreadId c'.debugStepMode
  rw [← undebugged_eq h] at hchange
  exact hchange.symm

/-- A request is the same as itself but for the debugger. -/
theorem sameButDebugger_self {w : World (τ × DapClient)}
    (htasks : ∀ name task, w.reqCtx.asyncRegistry name = some task → TaskWithoutGraphql env task) : SameButDebugger env w w :=
  ⟨rfl, rfl, rfl, rfl, rfl, htasks⟩

/-- A change to the request contexts that does not read what debuggers record, and adds no task with `graphql`. -/
theorem SameButDebugger.withReq {w w' : World (τ × DapClient)} (h : SameButDebugger env w w') {f : RequestContext → RequestContext}
    (hf : ∀ c id mode, (f { c with debugThreadId := id, debugStepMode := mode }).undebugged = (f c).undebugged)
    (htasks : ∀ name task, (f w.reqCtx).asyncRegistry name = some task → TaskWithoutGraphql env task) :
    SameButDebugger env (w.withReq (f w.reqCtx)) (w'.withReq (f w'.reqCtx)) :=
  ⟨h.cache, h.clock, h.others, h.ext, undebugged_congr h.reqCtx hf, htasks⟩

theorem stable_sameButDebugger : Stable (SameButDebugger env) where
  cache hw := hw.cache
  clock hw := hw.clock
  others hw := hw.others
  frame hw _ _ _ := ⟨rfl, rfl, rfl, hw.ext, hw.reqCtx, hw.tasks⟩
  logCall hw key v := hw.withReq (f := fun c => c.logCall key v) (fun _ _ _ => rfl) hw.tasks
  profiler hw f := hw.withReq (f := fun c => { c with profiler := f c.profiler }) (fun _ _ _ => rfl) hw.tasks
  cachePolicy hw policy := hw.withReq (f := fun c => { c with cachePolicy := policy }) (fun _ _ _ => rfl) hw.tasks

/-! ## Steps -/

/-- Tags do not read what debuggers record. -/
theorem tagsSim_debugger (e : TagExpr) : TagsSim env (SameButDebugger env) e := by
  intro w w' v hw
  rw [undebugged_eq hw.reqCtx]
  induction e with
  | tag t => rfl
  | and l r ihl ihr => rw [checkTagExpr, checkTagExpr, ihl, ihr]
  | or l r ihl ihr => rw [checkTagExpr, checkTagExpr, ihl, ihr]

/-- A join takes the same task on both sides. -/
theorem takesSim_debugger (name : String) : TakesSim (SameButDebugger env) (TaskWithoutGraphql env) name := by
  intro w w' hw
  refine ⟨?_, hw.withReq (f := fun c => (c.takeTask name).2) (fun _ _ _ => rfl) ?_, hw.tasks name⟩
  · rw [undebugged_eq hw.reqCtx]
    rfl
  · intro n task htask
    simp only [RequestContext.takeTask] at htask
    split_ifs at htask
    exact hw.tasks n task htask

variable {p : Pipeline}

/-- What a pipeline without graphql starts is without graphql. -/
theorem WithoutGraphql.of_starts {σ : Type} {env : ExecutionEnv σ} {q : Pipeline} (h : WithoutGraphql env p) {step : PipelineStep}
    (hstep : step ∈ p.steps) (hq : StartsRun env step q) : WithoutGraphql env q :=
  fun x hx => h x (.head ⟨step, hstep, hq⟩ hx)

/-- The task that a step spawns calls no `graphql`. -/
theorem WithoutGraphql.task {σ : Type} {env : ExecutionEnv σ} (h : WithoutGraphql env p) {s : RegularStep}
    (hs : .regular s ∈ p.steps) (input : Value) :
    TaskWithoutGraphql env ⟨effectiveName env s, s.args, rawConfig env s, s.location, input⟩ where
  name := h p .refl s hs
  pipeline _ hq := h.of_starts hs hq.startsRun

theorem WithoutGraphql.ownSim (hignores : IgnoresDebugger env) (hleaves : LeavesTasks env) (h : WithoutGraphql env p) :
    OwnSim env (SameButDebugger env) (TaskWithoutGraphql env) p where
  dispatch _ _ _ _ b _ := tagsSim_debugger b.condition
  regular s hs := {
    tags := fun e _ => tagsSim_debugger e
    takes := fun _ _ _ name _ => takesSim_debugger name
    middleware := by
      intro behavior execute hr w w' call hw
      obtain ⟨hout, hctx, hext⟩ := hignores _ behavior execute (h p .refl s hs) hr call _ _ _ _ hw.reqCtx hw.ext
      refine ⟨hout, hw.cache, hw.clock, hw.others, hext, hctx, fun name task htask => hw.tasks name task ?_⟩
      rw [← hleaves _ behavior execute hr call w.reqCtx w.ext]
      exact htask
    spawns := by
      intro w w' hw name input
      refine hw.withReq (f := fun c => c.register name _) (fun _ _ _ => rfl) fun n task htask => ?_
      simp only [RequestContext.register] at htask
      split_ifs at htask
      · cases htask
        exact h.task hs input
      · exact hw.tasks n task htask }

/-! ## The debugger -/

/-- Before a step the hook leaves the state of the step, as no debugger does. -/
theorem before_debugger (hdebug : env.debugger = some dapDebuggerHook) :
    BeforeSim env (env.withDebugger none) (SameButDebugger env) := by
  intro step name ctx w w' hw
  obtain ⟨mode, dap, hhook⟩ := beforeStep_transparent (w.reqCtx.debugThreadId.getD 0) name step.location ctx.pipeCtx.state
    w.reqCtx.profiler.stack w.ext
  refine Or.inr ⟨.ok ctx, { w with reqCtx := { w.reqCtx with debugStepMode := mode }, ext := (w.ext.1, dap) }, w', [], ?_, rfl,
    hw.cache, hw.clock, hw.others, hw.ext, hw.reqCtx, hw.tasks⟩
  unfold handleDebuggerBefore
  rw [hdebug]
  dsimp only
  rw [Prog.update_bind]
  dsimp only
  rw [hhook]
  rfl

/-- A task has a thread of its own under a debugger. -/
theorem allocateThread_debugger (hdebug : env.debugger = some dapDebuggerHook) :
    Prog.Sim (SameButDebugger env) (allocateThread env) (allocateThread (env.withDebugger none)) := by
  intro w w' hw
  have hallocate : allocateThread env = Prog.modify fun w =>
      { w with reqCtx := { w.reqCtx with debugThreadId := some (dapDebuggerHook.allocateThreadId w.ext).1 }
               ext := (dapDebuggerHook.allocateThreadId w.ext).2 } := by
    unfold allocateThread
    rw [hdebug]
  rw [hallocate]
  exact Or.inr ⟨.ok (), _, w', [], rfl, rfl, hw.cache, hw.clock, hw.others, hw.ext, hw.reqCtx, hw.tasks⟩

/-- Tasks without `graphql` run alike when the pipelines without it do. -/
theorem taskSim_debugger (hignores : IgnoresDebugger env) (hleaves : LeavesTasks env)
    (hdebug : env.debugger = some dapDebuggerHook) {run run' : RunFn (τ × DapClient)}
    (hrun : ∀ q, WithoutGraphql env q → RunSim (SameButDebugger env) run run' q) :
    TaskSim env (env.withDebugger none) run run' (SameButDebugger env) (TaskWithoutGraphql env) := by
  intro name task htask
  have hbody : Prog.Sim (SameButDebugger env) (taskBody env run task) (taskBody (env.withDebugger none) run' task) := by
    refine sim_taskBody stable_sameButDebugger (fun behavior execute hr w w' call hw => ?_) fun q hq => hrun q (htask.pipeline q hq)
    obtain ⟨hout, hctx, hext⟩ := hignores _ behavior execute htask.name hr call _ _ _ _ hw.reqCtx hw.ext
    refine ⟨hout, hw.cache, hw.clock, hw.others, hext, hctx, fun n t ht => hw.tasks n t ?_⟩
    rw [← hleaves _ behavior execute hr call w.reqCtx w.ext]
    exact ht
  unfold runTask
  refine Prog.sim_within (Q := SameButDebugger env) ?_ ?_ ?_
  · refine Prog.sim_bind (allocateThread_debugger hdebug) fun _ => Prog.sim_bind (Prog.sim_attempt (Prog.sim_enclose hbody)) fun r =>
      Prog.sim_bind (Prog.sim_gets fun w w' hw => ?_) fun _ => Prog.sim_pure _
    rw [undebugged_eq hw.reqCtx]
  · intro w w' hw
    exact ⟨hw.cache, hw.clock, hw.others, hw.ext, rfl, fun n t ht => by simp at ht⟩
  · intro w w' v v' hw hv
    exact ⟨hv.cache, hv.clock, hv.others, hv.ext, hw.reqCtx, hw.tasks⟩

/-! ## Runs -/

/-- Under the debug server a pipeline runs as without a debugger. -/
theorem runSim_debugger (hignores : IgnoresDebugger env) (hleaves : LeavesTasks env)
    (hdebug : env.debugger = some dapDebuggerHook) (n : Nat) (hp : WithoutGraphql env p) :
    RunSim (SameButDebugger env) (executeWithErrorShortCircuit env n) (executeWithErrorShortCircuit (env.withDebugger none) n) p := by
  induction n generalizing p with
  | zero => exact fun _ _ => Prog.sim_diverge
  | succ n ih =>
    have htask := taskSim_debugger hignores hleaves hdebug (fun q hq => ih hq)
    exact sim_runPipeline none stable_sameButDebugger (before_debugger hdebug) htask (hp.ownSim hignores hleaves)
      fun step hstep q hq => ih (hp.of_starts hstep hq)

/-- A run under the debug server has the outcome and the log of the run without a debugger: whatever the breakpoints, the stepping modes
and the answers of the client. -/
theorem debugger_transparent (hignores : IgnoresDebugger env) (hleaves : LeavesTasks env)
    (hdebug : env.debugger = some dapDebuggerHook) (n : Nat) (hp : WithoutGraphql env p) (input : Value) (w : World (τ × DapClient))
    (htasks : ∀ name task, w.reqCtx.asyncRegistry name = some task → TaskWithoutGraphql env task) :
    (executePipelineInternal env n p input w).map (fun out => (out.1, out.2.2)) =
      (executePipelineInternal (env.withDebugger none) n p input w).map (fun out => (out.1, out.2.2)) := by
  rcases runSim_debugger hignores hleaves hdebug n hp input none w w (sameButDebugger_self htasks) with
    ⟨hs, ht⟩ | ⟨r, s', t', l, hs, ht, -⟩
  · unfold executePipelineInternal
    rw [hs, ht]
  · unfold executePipelineInternal
    rw [hs, ht]
    rfl

/-- `greet` answers with a greeting, under the debug server. -/
def debuggedEnv : ExecutionEnv (Unit × DapClient) :=
  { registry := fun name => if name = "greet" then some (.stateless .merge fun _ => .ok ({}, .string "hello")) else none
    debugger := some dapDebuggerHook }

/-- A pipeline of one step, at line 3. -/
def greeting : Pipeline := { steps := [.regular { name := "greet", configPresent := true, location := { line := 3 } }] }

/-- A request to the server of `app.wp`, with a breakpoint at line 3 and a client that steps over. -/
def breakpointWorld : World (Unit × DapClient) :=
  .start (.newWithLimits 0 0 0 0 0)
    ((), { server := { filePath := "app.wp", breakpoints := AList.insert "app.wp" [3] ∅ }, answers := fun _ => .stepOver })

/-- The only middleware greets. -/
theorem greet_eq {name : String} {behavior : StateBehavior}
    {execute : MiddlewareCall → RequestContext → Unit × DapClient →
      Except Failure (MiddlewareOutput × Value) × RequestContext × (Unit × DapClient)}
    (h : debuggedEnv.registry name = some (.other behavior execute)) :
    execute = fun _ c ext => (.ok ({}, .string "hello"), c, ext) := by
  unfold debuggedEnv at h
  dsimp only at h
  split at h
  · cases h
    rfl
  · cases h

/-- The greeting needs no graphql. -/
theorem withoutGraphql_greeting : WithoutGraphql debuggedEnv greeting := by
  intro q hq s hs
  rcases Relation.ReflTransGen.cases_head hq with rfl | ⟨q, ⟨step, hstep, hq⟩, -⟩
  · simp only [greeting, List.mem_singleton, PipelineStep.regular.injEq] at hs
    rw [hs]
    decide +kernel
  · simp only [greeting, List.mem_singleton] at hstep
    subst hstep
    cases hq with
    | named h =>
      rw [calledPipeline, if_neg (by decide +kernel)] at h
      cases h
    | resolver h =>
      obtain ⟨resolvers, execute, hr, -⟩ := h
      cases hr

/-- With the breakpoint at its step the greeting is the one of a run without a debugger. -/
theorem debugger_transparent_greeting :
    (executePipelineInternal debuggedEnv 1 greeting (.object []) breakpointWorld).map (fun out => (out.1, out.2.2)) =
      (executePipelineInternal (debuggedEnv.withDebugger none) 1 greeting (.object []) breakpointWorld).map
        (fun out => (out.1, out.2.2)) := by
  refine debugger_transparent ?_ ?_ rfl 1 withoutGraphql_greeting (.object []) breakpointWorld ?_
  · intro name behavior execute _ hr call c c' ext ext' hc hext
    rw [greet_eq hr]
    exact ⟨rfl, hc, hext⟩
  · intro name behavior execute hr call c ext
    rw [greet_eq hr]
  · intro name task htask
    cases htask

end WebPipe

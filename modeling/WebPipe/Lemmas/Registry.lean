import WebPipe.Lemmas.Join
import WebPipe.Lemmas.Trace
import WebPipe.Lib.Mailbox

/-!
# The tasks of a request along a run

Every spawn and every join of a request is in the log of its run, in order, whatever pipelines, branches and items they are nested
in, those of resolvers included. The registry after a run is that of a mailbox after these operations, and every join delivers what
the mailbox holds.
-/

namespace WebPipe

open Mailbox

variable {σ : Type} {env : ExecutionEnv σ} {run : RunFn σ}

/-! ## Operations -/

/-- What a request does to its tasks. -/
inductive RequestOp where
  | spawned (name : String) (task : AsyncTask)
  | joined (names : List String) (results : Object)

/-- A spawn registers a task; a join takes what is registered under its names. -/
def RequestOp.mailboxOp : RequestOp → Op String AsyncTask
  | .spawned name task => .put name task
  | .joined names _ => .take names

mutual

/-- The operations of a request in an event. A task is a request of its own. -/
def Event.requestOps : Event → List RequestOp
  | .spawned name task => [.spawned name task]
  | .joined names results => [.joined names results]
  | .run _ _ _ _ inner _ => requestOps inner
  | _ => []

/-- The operations of a request in a log. -/
def requestOps : List Event → List RequestOp
  | [] => []
  | e :: l => e.requestOps ++ requestOps l

end

/-- The operations of a log in order. -/
theorem requestOps_append (a b : List Event) : requestOps (a ++ b) = requestOps a ++ requestOps b := by
  induction a with
  | nil => rfl
  | cons e a ih => rw [List.cons_append, requestOps, requestOps, ih, List.append_assoc]

/-- Those of a nested run are its log's. -/
theorem requestOps_run (entry : Entry) (pipeline : Pipeline) (input : Value) (handled : Option String) (inner : List Event)
    (result : Except Failure PipelineOutput) :
    requestOps [.run entry pipeline input handled inner result] = requestOps inner := by
  rw [requestOps, Event.requestOps, requestOps, List.append_nil]

/-- The registry that operations lead to. -/
def registryAfter (registry : String → Option AsyncTask) (ops : List RequestOp) : String → Option AsyncTask :=
  heldFrom registry (ops.map RequestOp.mailboxOp)

/-- Operations act one after the other. -/
theorem registryAfter_append (registry : String → Option AsyncTask) (a b : List RequestOp) :
    registryAfter registry (a ++ b) = registryAfter (registryAfter registry a) b := by
  unfold registryAfter
  rw [List.map_append, heldFrom_append]

/-- A spawn puts its task under its name. -/
theorem registryAfter_spawned (registry : String → Option AsyncTask) (ops : List RequestOp) (name : String) (task : AsyncTask)
    (n : String) :
    registryAfter registry (ops ++ [.spawned name task]) n = if n = name then some task else registryAfter registry ops n := by
  rw [registryAfter_append]
  rfl

/-- A join empties its names. -/
theorem registryAfter_joined (registry : String → Option AsyncTask) (ops : List RequestOp) (names : List String) (results : Object)
    (n : String) :
    registryAfter registry (ops ++ [.joined names results]) n = if n ∈ names then none else registryAfter registry ops n := by
  rw [registryAfter_append]
  rfl

/-- Some run of the task by the executor ends with the value as its outcome. -/
def TaskOutcome (env : ExecutionEnv σ) (task : AsyncTask) (v : Value) : Prop :=
  ∃ fuel, OutcomeOf env (executeWithErrorShortCircuit env fuel) task v

/-- The results of a join of these names: one outcome of each task that is registered under one of them. -/
def Delivers (env : ExecutionEnv σ) (registry : String → Option AsyncTask) (names : List String) (results : Object) : Prop :=
  ∀ n, (∃ task v, n ∈ names ∧ registry n = some task ∧ IndexMap.get results n = some v ∧ TaskOutcome env task v) ∨
    IndexMap.get results n = none ∧ (n ∉ names ∨ registry n = none)

/-- The operations in the log lead from the registry before to the registry after, and every join delivers. -/
def Conducts (env : ExecutionEnv σ) (w : World σ) (l : List Event) (w' : World σ) : Prop :=
  w'.reqCtx.asyncRegistry = registryAfter w.reqCtx.asyncRegistry (requestOps l) ∧
    ∀ a names results b, requestOps l = a ++ .joined names results :: b →
      Delivers env (registryAfter w.reqCtx.asyncRegistry a) names results

/-- Middleware that runs no pipelines leaves the tasks of the request that calls it. -/
def LeavesTasks (env : ExecutionEnv σ) : Prop :=
  ∀ name behavior execute, env.registry name = some (.other behavior execute) → ∀ call ctx ext,
    (execute call ctx ext).2.1.asyncRegistry = ctx.asyncRegistry

/-! ## What conducts -/

/-- What leaves the registry alone, and logs no operation, conducts. -/
theorem conducts_of_no_ops {w w' : World σ} {l : List Event} (hreg : w'.reqCtx.asyncRegistry = w.reqCtx.asyncRegistry)
    (hno : requestOps l = []) : Conducts env w l w' := by
  refine ⟨?_, fun a names results b he => ?_⟩
  · rw [hno]
    exact hreg
  · rw [hno] at he
    simp at he

/-- Two stretches of a log conduct one after the other. -/
theorem Conducts.trans {w w₁ w₂ : World σ} {l₁ l₂ : List Event} (h₁ : Conducts env w l₁ w₁) (h₂ : Conducts env w₁ l₂ w₂) :
    Conducts env w (l₁ ++ l₂) w₂ := by
  refine ⟨?_, fun a names results b he => ?_⟩
  · rw [requestOps_append, registryAfter_append, h₂.1, h₁.1]
  · rw [requestOps_append] at he
    -- the join is one of the first log or one of the second
    rcases List.append_eq_append_iff.mp he with ⟨c, rfl, hc⟩ | ⟨c, hc, hb⟩
    · rw [registryAfter_append, ← h₁.1]
      exact h₂.2 c names results b hc
    · cases c with
      | nil =>
        rw [List.append_nil] at hc
        have hdelivers := h₂.2 [] names results b hb.symm
        rw [h₁.1, hc] at hdelivers
        exact hdelivers
      | cons op c =>
        obtain ⟨rfl, -⟩ := List.cons.inj hb
        exact h₁.2 a names results c hc

theorem rests_conducts (env : ExecutionEnv σ) : Rests (Conducts env) where
  quiet _ hreg := conducts_of_no_ops hreg rfl
  trans := Conducts.trans

/-- A nested run conducts what it logs. -/
theorem conducts_run {w w' : World σ} {inner : List Event} (h : Conducts env w inner w') (entry : Entry) (pipeline : Pipeline)
    (input : Value) (handled : Option String) (result : Except Failure PipelineOutput) :
    Conducts env w [.run entry pipeline input handled inner result] w' := by
  unfold Conducts
  rw [requestOps_run]
  exact h

theorem conducts_cache (env : ExecutionEnv σ) : CoversCache (Conducts env) :=
  fun _ _ _ _ => conducts_of_no_ops rfl rfl

/-- A spawn is logged with its task. -/
theorem conducts_spawn (name : String) (args : List String) (config : String) (location : SourceLocation) (input : Value)
    (asyncName : String) : Prog.Follows (Conducts env) (spawnAsyncStep name args config location input asyncName : Exec σ Unit) := by
  intro w r w' l h
  unfold spawnAsyncStep at h
  obtain ⟨l', hmod, rfl⟩ := Prog.emit_bind_eq_some h
  cases hmod
  refine ⟨rfl, fun a names results b he => ?_⟩
  have hmem : RequestOp.joined names results ∈ requestOps [.spawned asyncName _] := he ▸ List.mem_append_right a List.mem_cons_self
  cases List.mem_singleton.mp hmem

/-- Joins await their tasks in logs of their own. -/
theorem joinTasks_no_ops {names : List String} {results : Object} {w w' : World σ} {r : Except Failure Object} {l : List Event}
    (h : joinTasks env run names results w = some (r, w', l)) : requestOps l = [] := by
  have hpasses : Passes (fun (_ : World σ) l (_ : World σ) => requestOps l = []) :=
    { quiet := fun _ => rfl
      trans := fun h₁ h₂ => by rw [requestOps_append, h₁, h₂]; rfl }
  exact follows_joinTasks hpasses (fun _ _ _ _ _ _ _ => rfl) names results _ _ _ _ h

/-- A join is logged with its names, and delivers the outcomes of the tasks it took. -/
theorem conducts_join (n : Nat) (config : String) (parsedTargets : Option (List String)) (input : Value) :
    Prog.Follows (Conducts env) (handleJoin env (executeWithErrorShortCircuit env n) config parsedTargets input) := by
  intro w r w' l h
  obtain ⟨_, hnames, rfl⟩ | ⟨names, w₁, l₁, l₂, hnames, hrest, rfl⟩ := Prog.bind_eq_some h
  · obtain ⟨-, rfl, rfl⟩ := Prog.ofExcept_eq_some hnames
    exact conducts_of_no_ops rfl rfl
  obtain ⟨-, rfl, rfl⟩ := Prog.ofExcept_eq_some hnames
  obtain ⟨_, htasks, rfl⟩ | ⟨results, w₂, l₃, l₄, htasks, hend, rfl⟩ := Prog.bind_eq_some hrest
  · obtain ⟨_, he, -⟩ := joinTasks_eq_some htasks
    cases he
  obtain ⟨_, he, hreg, hget⟩ := joinTasks_eq_some htasks
  cases he
  obtain ⟨l₅, hlast, rfl⟩ := Prog.emit_bind_eq_some hend
  cases hlast
  have hops : requestOps ([] ++ (l₃ ++ [.joined names results])) = [.joined names results] := by
    rw [List.nil_append, requestOps_append, joinTasks_no_ops htasks]
    rfl
  refine ⟨?_, fun a names' results' b he => ?_⟩
  · rw [hops]
    exact funext hreg
  · rw [hops] at he
    obtain ⟨rfl, he⟩ : a = [] ∧ RequestOp.joined names results = .joined names' results' := by
      cases a with
      | nil => exact ⟨rfl, (List.cons.inj he).1⟩
      | cons op a =>
        obtain ⟨-, he⟩ := List.cons.inj he
        simp at he
    cases he
    intro n'
    rcases hget n' with ⟨hnone, hno⟩ | ⟨task, v, hin, hsome, hv, hout⟩
    · exact Or.inr ⟨hnone, hno⟩
    · exact Or.inl ⟨task, v, hin, hsome, hv, n, hout⟩

/-! ## Runs -/

section Runs

variable (hleaves : LeavesTasks env)

include hleaves

theorem conducts_others : CoversOthers env (Conducts env) :=
  fun name behavior execute hname call w => conducts_of_no_ops (hleaves name behavior execute hname call w.reqCtx w.ext) rfl

/-- The core of a step conducts. -/
theorem coversCore_conducts {n : Nat} (hruns : CoversRuns (executeWithErrorShortCircuit env n) (Conducts env)) :
    CoversCore env (executeWithErrorShortCircuit env n) (Conducts env) :=
  { toFrames := (rests_conducts env).frames
    runs := hruns.nested
    joins := conducts_join n
    spawns := conducts_spawn
    invokes := follows_invoke (rests_conducts env).frames (rests_conducts env).records hruns (fun _ _ _ => conducts_of_no_ops rfl rfl)
      (conducts_others hleaves) (conducts_cache env) }

/-- A step conducts. -/
theorem conducts_step {n : Nat} (hruns : CoversRuns (executeWithErrorShortCircuit env n) (Conducts env)) (step : PipelineStep)
    (ctx : StepContext) : Prog.Follows (Conducts env) (executeStep env (executeWithErrorShortCircuit env n) step ctx) := by
  have hR := rests_conducts env
  have hdebug : ∀ name, Prog.Follows (Conducts env) (handleDebuggerBefore env step name ctx) := by
    intro name
    unfold handleDebuggerBefore
    split
    · exact Prog.follows_pure hR.chain _
    · refine Prog.follows_bind hR.chain (Prog.follows_update fun _ => hR.quiet rfl rfl) fun r => ?_
      split
      · exact Prog.follows_fail hR.chain _
      · exact Prog.follows_bind hR.chain (Prog.follows_modify fun _ => hR.quiet rfl rfl) fun _ => Prog.follows_pure hR.chain _
  refine Prog.follows_bind hR.chain (Prog.follows_modify fun _ => hR.quiet rfl rfl) fun _ =>
    Prog.follows_bind hR.chain (hdebug _) fun ctx' => ?_
  refine Prog.follows_bind hR.chain (Prog.follows_attempt (follows_dispatchCore (coversCore_conducts hleaves hruns) _ _)) fun raw => ?_
  refine Prog.follows_bind hR.chain (Prog.follows_emit fun _ => conducts_of_no_ops rfl rfl) fun _ => ?_
  exact Prog.follows_bind hR.chain (Prog.follows_modify fun _ => hR.quiet rfl rfl) fun _ => Prog.follows_ofExcept hR.chain _

/-- Every run of the executor conducts the tasks of its request. -/
theorem conducts_execute {n : Nat} {pipeline : Pipeline} {input : Value} {handled : Option String} {w w' : World σ}
    {r : Except Failure PipelineOutput} {l : List Event}
    (h : executeWithErrorShortCircuit env n pipeline input handled w = some (r, w', l)) : Conducts env w l w' := by
  induction n generalizing pipeline input handled w r w' l with
  | zero => cases h
  | succ n ih =>
    have hruns : CoversRuns (executeWithErrorShortCircuit env n) (Conducts env) :=
      fun _ _ _ _ _ _ _ hrun => conducts_run (ih hrun) _ _ _ _ _
    have hloop : CoversLoop env (executeWithErrorShortCircuit env n) (Conducts env) :=
      { toFrames := (rests_conducts env).frames
        turns := follows_iterate (rests_conducts env).frames (conducts_step hleaves hruns) (conducts_cache env)
          (fun _ _ _ => conducts_of_no_ops rfl rfl) fun _ _ _ => conducts_of_no_ops rfl rfl
        cache := conducts_cache env }
    exact follows_runPipeline hloop _ _ _ _ _ _ _ h

/-- So does every task, in a request of its own. -/
theorem conducts_taskBody {n : Nat} {task : AsyncTask} {w w' : World σ} {r : Except Failure Value} {l : List Event}
    (h : taskBody env (executeWithErrorShortCircuit env n) task w = some (r, w', l)) : Conducts env w l w' := by
  have hR := rests_conducts env
  have hruns : CoversRuns (executeWithErrorShortCircuit env n) (Conducts env) :=
    fun _ _ _ _ _ _ _ hrun => conducts_run (conducts_execute hleaves hrun) _ _ _ _ _
  have hfollows : Prog.Follows (Conducts env) (taskBody env (executeWithErrorShortCircuit env n) task) :=
    follows_taskBody_of_invokes hR.chain hruns.nested
      (follows_invoke hR.frames hR.records hruns (fun _ _ _ => conducts_of_no_ops rfl rfl) (conducts_others hleaves)
        (conducts_cache env)) task
  exact hfollows _ _ _ _ h

end Runs

end WebPipe

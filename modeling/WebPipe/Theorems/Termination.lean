import WebPipe.Lemmas.Halting
import WebPipe.Lemmas.Registry

/-!
# Pipelines that do not call themselves end

When no chain of nested runs goes on for ever, there is a fuel that is enough for every input, whatever the middleware and the debugger do,
and more fuel changes nothing. A task runs where it is awaited, maybe deep inside; so fuel for the deepest task is added to that of the
pipeline, and fuel for the tasks of that task to this.
-/

namespace WebPipe

variable {σ : Type} {env : ExecutionEnv σ} {run run' : RunFn σ}

/-! ## Depths of nested runs -/

/-- Runs of the pipeline nest less than so deep. -/
def Nests (env : ExecutionEnv σ) : Nat → Pipeline → Prop
  | 0, _ => False
  | depth + 1, p => ∀ q, Starts env p q → Nests env depth q

/-- Runs that a task starts nest less than so deep. -/
def TaskNests (env : ExecutionEnv σ) (depth : Nat) (task : AsyncTask) : Prop := ∀ p, TaskStarts env task p → Nests env depth p

/-- A greater bound on the nesting is one too. -/
theorem Nests.mono {d d' : Nat} {p : Pipeline} (h : Nests env d p) (hle : d ≤ d') : Nests env d' p := by
  induction d generalizing d' p with
  | zero => cases h
  | succ d ih =>
    obtain ⟨k, rfl⟩ : ∃ k, d' = k + 1 := ⟨d' - 1, by omega⟩
    exact fun q hq => ih (h q hq) (by omega)

/-- The pipelines that resolve the fields of a middleware. -/
def Middleware.resolvers : Middleware σ → List Pipeline
  | .graphql resolvers _ => resolvers
  | _ => []

/-- The pipelines that a step may start runs of. -/
def callees (env : ExecutionEnv σ) : PipelineStep → List Pipeline
  | .regular s => (calledPipeline env s).toList ++ (env.registry (effectiveName env s)).toList.flatMap Middleware.resolvers
  | .result branches _ => branches.map fun (b : ResultBranch) => b.pipeline
  | .ifStep condition thenBranch elseBranch _ => condition :: thenBranch :: elseBranch.toList
  | .dispatch branches default _ => (branches.map fun (b : DispatchBranch) => b.pipeline) ++ default.toList
  | .foreach _ pipeline _ => [pipeline]

/-- The pipelines that a step starts are among its callees. -/
theorem mem_callees {step : PipelineStep} {q : Pipeline} (h : StartsRun env step q) : q ∈ callees env step := by
  cases h with
  | named h => simp [callees, h]
  | resolver h =>
    obtain ⟨resolvers, execute, hr, hq⟩ := h
    simp [callees, hr, Middleware.resolvers, hq]
  | resultBranch h => exact List.mem_map.mpr ⟨_, h, rfl⟩
  | condition | thenBranch | elseBranch | foreachItem => simp [callees]
  | dispatchCase h => exact List.mem_append_left _ (List.mem_map.mpr ⟨_, h, rfl⟩)
  | dispatchDefault => simp [callees]

/-- Without an endless chain of nested runs there is a bound on their depth: a pipeline starts runs of finitely many. -/
theorem exists_nests {p : Pipeline} (h : Acc (fun q p => Starts env p q) p) : ∃ d, Nests env d p := by
  induction h with
  | intro p _ ih =>
    have hall : ∀ qs : List Pipeline, (∀ q ∈ qs, Starts env p q) → ∃ d, ∀ q ∈ qs, Nests env d q := by
      intro qs
      induction qs with
      | nil => exact fun _ => ⟨0, nofun⟩
      | cons q qs ihqs =>
        intro hstarts
        obtain ⟨d, hd⟩ := ih q (hstarts q List.mem_cons_self)
        obtain ⟨d', hd'⟩ := ihqs fun x hx => hstarts x (List.mem_cons_of_mem _ hx)
        refine ⟨max d d', fun x hx => ?_⟩
        rcases List.mem_cons.mp hx with rfl | hx
        · exact hd.mono (Nat.le_max_left ..)
        · exact (hd' x hx).mono (Nat.le_max_right ..)
    have hmem : ∀ q, Starts env p q → q ∈ p.steps.flatMap (callees env) := by
      rintro q ⟨step, hstep, hq⟩
      exact List.mem_flatMap.mpr ⟨step, hstep, mem_callees hq⟩
    classical
    obtain ⟨d, hd⟩ := hall ((p.steps.flatMap (callees env)).filter fun q => decide (Starts env p q)) fun q hq =>
      of_decide_eq_true (List.mem_filter.mp hq).2
    exact ⟨d + 1, fun q hq => hd q (List.mem_filter.mpr ⟨hmem q hq, decide_eq_true hq⟩)⟩

/-! ## One world, with tasks that nest less than so deep -/

/-- The world is the same, and its tasks nest less than so deep. -/
def Bounded (env : ExecutionEnv σ) (depth : Nat) (w w' : World σ) : Prop :=
  w = w' ∧ ∀ name task, w.reqCtx.asyncRegistry name = some task → TaskNests env depth task

theorem stable_bounded (depth : Nat) : Stable (Bounded env depth) where
  cache h := congrArg World.cache h.1
  clock h := congrArg World.clock h.1
  others h := congrArg World.others h.1
  frame := by
    rintro w _ ⟨rfl, h⟩ cache clock others
    exact ⟨rfl, h⟩
  logCall := by
    rintro w _ ⟨rfl, h⟩ key v
    exact ⟨rfl, h⟩
  profiler := by
    rintro w _ ⟨rfl, h⟩ f
    exact ⟨rfl, h⟩
  cachePolicy := by
    rintro w _ ⟨rfl, h⟩ policy
    exact ⟨rfl, h⟩

/-- Before a step nothing but the debugger acts, on both sides alike. -/
theorem beforeSim_bounded (depth : Nat) : BeforeSim env env (Bounded env depth) := by
  intro step name ctx
  unfold handleDebuggerBefore
  split
  · exact Prog.sim_pure _
  · refine Prog.sim_bind (Prog.sim_update ?_) fun r => ?_
    · rintro w _ ⟨rfl, h⟩
      exact ⟨rfl, rfl, h⟩
    · split
      · exact Prog.sim_fail _
      · refine Prog.sim_bind (Prog.sim_modify ?_) fun _ => Prog.sim_pure _
        rintro w _ ⟨rfl, h⟩
        exact ⟨rfl, h⟩

/-- Taking a task leaves the others. -/
theorem takesSim_bounded (depth : Nat) (name : String) : TakesSim (Bounded env depth) (TaskNests env depth) name := by
  rintro w _ ⟨rfl, h⟩
  refine ⟨rfl, ⟨rfl, fun n task htask => ?_⟩, fun task htask => h name task htask⟩
  by_cases hn : n = name
  · simp [World.withReq, RequestContext.takeTask, hn] at htask
  · exact h n task (by simpa [World.withReq, RequestContext.takeTask, hn] using htask)

/-- The steps of a pipeline leave tasks that nest less deep than the pipeline. -/
theorem ownSim_bounded (hleaves : LeavesTasks env) {depth d : Nat} {p : Pipeline} (hp : Nests env (d + 1) p) (hle : d ≤ depth) :
    OwnSim env (Bounded env depth) (TaskNests env depth) p where
  dispatch := by
    rintro branches default location - b - w _ v ⟨rfl, -⟩
    rfl
  regular s hs := by
    refine ⟨?_, fun _ _ _ name _ => takesSim_bounded depth name, ?_, ?_⟩
    · rintro e - w _ v ⟨rfl, -⟩
      rfl
    · rintro behavior execute hname w _ call ⟨rfl, h⟩
      refine ⟨rfl, rfl, fun name task htask => h name task ?_⟩
      rwa [hleaves _ _ _ hname] at htask
    · rintro w _ ⟨rfl, h⟩ name input
      refine ⟨rfl, fun n task htask => ?_⟩
      by_cases hn : n = name
      · have hsame : task = ⟨effectiveName env s, s.args, rawConfig env s, s.location, input⟩ := by
          simpa [World.withReq, RequestContext.register, hn] using htask.symm
        subst hsame
        intro q hq
        exact (hp q ⟨_, hs, hq.startsRun⟩).mono hle
      · exact h n task (by simpa [World.withReq, RequestContext.register, hn] using htask)

/-- A task runs in a request of its own, which has no tasks yet. -/
theorem taskSim_bounded {depth : Nat} (hleaves : LeavesTasks env)
    (hrun : ∀ p, Nests env depth p → RunSim (Bounded env (depth - 1)) run run' p) :
    TaskSim env env run run' (Bounded env depth) (TaskNests env depth) := by
  intro name task htask
  have hbody : Prog.Sim (Bounded env (depth - 1)) (taskBody env run task) (taskBody env run' task) := by
    refine sim_taskBody (stable_bounded _) (fun behavior execute hname => ?_) fun p hp => hrun p (htask p hp)
    rintro w _ call ⟨rfl, h⟩
    refine ⟨rfl, rfl, fun n t ht => h n t ?_⟩
    rwa [hleaves _ _ _ hname] at ht
  have hthread : Prog.Sim (Bounded env (depth - 1)) (allocateThread env) (allocateThread env) := by
    unfold allocateThread
    split
    · exact Prog.sim_pure _
    · refine Prog.sim_modify ?_
      rintro w _ ⟨rfl, h⟩
      exact ⟨rfl, h⟩
  refine Prog.sim_within (Q := Bounded env (depth - 1)) (Prog.sim_bind hthread fun _ =>
    Prog.sim_bind (Prog.sim_attempt (Prog.sim_enclose hbody)) fun _ => Prog.sim_bind (Prog.sim_gets ?_) fun _ => Prog.sim_pure _) ?_ ?_
  · rintro w _ ⟨rfl, -⟩
    rfl
  · rintro w _ ⟨rfl, -⟩
    exact ⟨rfl, nofun⟩
  · rintro w _ w₁ _ ⟨rfl, h⟩ ⟨rfl, -⟩
    exact ⟨rfl, h⟩

/-! ## Enough fuel -/

/-- A run, with an end of its own where it has none. -/
def endRun (run : RunFn σ) : RunFn σ := fun pipeline input handled => (run pipeline input handled).orEnd .panic

/-- A run that is given an end ends. -/
theorem runsEnd_endRun (run : RunFn σ) : RunsEnd (endRun run) := fun _ _ _ => Prog.total_orEnd _ _

/-- Fuel for a task of a depth, its own tasks included. -/
def taskFuel : Nat → Nat
  | 0 => 0
  | depth + 1 => depth + 1 + taskFuel depth

/-- Runs that agree with one that ends agree with each other, where these are given ends too. -/
theorem RunSim.of_both {depth : Nat} {run₁ run₂ ended : RunFn σ} {p : Pipeline} (hended : RunsEnd ended)
    (h₁ : RunSim (Bounded env depth) run₁ ended p) (h₂ : RunSim (Bounded env depth) run₂ ended p) :
    RunSim (Bounded env depth) run₁ (endRun run₂) p := by
  rintro input handled w _ ⟨rfl, htasks⟩
  obtain ⟨r, w', l, hend⟩ := hended p input handled w
  have hsame : ∀ run, RunSim (Bounded env depth) run ended p →
      run p input handled w = some (r, w', l) ∧ Bounded env depth w' w' := by
    intro run h
    rcases h input handled w w ⟨rfl, htasks⟩ with ⟨-, hnone⟩ | ⟨r', s', t', l', hs, ht, hrel⟩
    · rw [hend] at hnone
      cases hnone
    · rw [hend] at ht
      cases ht
      obtain ⟨rfl, hrel⟩ := hrel
      exact ⟨hs, rfl, hrel⟩
  obtain ⟨hrun₁, hrel⟩ := hsame run₁ h₁
  obtain ⟨hrun₂, -⟩ := hsame run₂ h₂
  exact Or.inr ⟨r, w', w', l, hrun₁, Prog.orEnd_of_some hrun₂, hrel⟩

/-- With enough fuel runs end, and then the fuel makes no difference. -/
theorem fuel_agrees (hleaves : LeavesTasks env) (depth : Nat) :
    ∀ d ≤ depth + 1, ∀ n m, d + taskFuel depth ≤ n → d + taskFuel depth ≤ m → ∀ p, Nests env d p →
      RunSim (Bounded env depth) (executeWithErrorShortCircuit env n) (endRun (executeWithErrorShortCircuit env m)) p := by
  -- the tasks of tasks nest less deep; that is the outer induction
  induction depth using Nat.strong_induction_on with
  | _ depth ihtasks =>
    intro d
    induction d with
    | zero => exact fun _ _ _ _ _ _ hp => hp.elim
    | succ d ih =>
      intro hd n m hn hm p hp
      obtain ⟨n, rfl⟩ : ∃ k, n = k + 1 := ⟨n - 1, by omega⟩
      obtain ⟨m, rfl⟩ : ∃ k, m = k + 1 := ⟨m - 1, by omega⟩
      have htasks : ∀ k, d + taskFuel depth ≤ k → ∀ q, Nests env depth q →
          RunSim (Bounded env (depth - 1)) (executeWithErrorShortCircuit env k)
            (endRun (executeWithErrorShortCircuit env m)) q := by
        intro k hk q hq
        cases depth with
        | zero => cases hq
        | succ depth =>
          rw [taskFuel] at hk hm
          exact ihtasks depth (Nat.lt_succ_self _) (depth + 1) (Nat.le_refl _) k m (by omega) (by omega) q hq
      have hturn : ∀ k, d + taskFuel depth ≤ k → RunSim (Bounded env depth) (runPipeline env (executeWithErrorShortCircuit env k))
          (runPipeline env (endRun (executeWithErrorShortCircuit env m))) p := by
        intro k hk
        refine sim_runPipeline env.debugger (stable_bounded depth) (beforeSim_bounded depth) (taskSim_bounded hleaves (htasks k hk))
          (ownSim_bounded hleaves hp (by omega)) fun step hstep q hq => ?_
        exact ih (by omega) k m hk (by omega) q (hp q ⟨step, hstep, hq⟩)
      exact RunSim.of_both (runsEnd_runPipeline (runsEnd_endRun _)) (hturn n (by omega)) (hturn m (by omega))

/-- A pipeline without an endless chain of nested runs ends on every input of a new request, and with the same result whatever fuel it has
from some on. -/
theorem acyclic_execution_ends (hleaves : LeavesTasks env) {p : Pipeline} (hacyclic : Acc (fun q p => Starts env p q) p) :
    ∃ enough, ∀ input w, (∀ name, w.reqCtx.asyncRegistry name = none) →
      ∃ r w' l, ∀ n ≥ enough, executePipelineInternal env n p input w = some (r, w', l) := by
  obtain ⟨d, hd⟩ := exists_nests hacyclic
  refine ⟨d + taskFuel d, fun input w hnew => ?_⟩
  have htasks : Bounded env d w w := ⟨rfl, fun name task h => by rw [hnew name] at h; cases h⟩
  have hagree : ∀ n ≥ d + taskFuel d, ∃ r w' l, executePipelineInternal env n p input w = some (r, w', l) ∧
      (endRun (executeWithErrorShortCircuit env (d + taskFuel d))) p input none w = some (r, w', l) := by
    intro n hn
    rcases fuel_agrees hleaves d d (Nat.le_succ d) n _ hn (Nat.le_refl _) p hd input none w w htasks with
      ⟨-, hnone⟩ | ⟨r, w', w'', l, hrun, hend, rfl, -⟩
    · cases hnone
    · exact ⟨r, w', l, hrun, hend⟩
  obtain ⟨r, w', l, -, hend⟩ := hagree _ (Nat.le_refl _)
  refine ⟨r, w', l, fun n hn => ?_⟩
  obtain ⟨r', w'', l', hrun, hend'⟩ := hagree n hn
  rw [hend] at hend'
  cases hend'
  exact hrun

/-- The footer of a page. -/
def footer : Pipeline := { steps := [.regular { name := "greet", configPresent := true }] }

/-- A page calls the footer, for each of its items. -/
def pageWithFooter : Pipeline :=
  { steps := [.foreach "items" { steps := [.regular { name := "pipeline", config := "footer", configPresent := true }] } {}] }

/-- `greet` answers with a greeting; `footer` is a named pipeline. -/
def footerEnv : ExecutionEnv Unit :=
  { registry := fun name => if name = "greet" then some (.stateless .merge fun _ => .ok ({}, .string "hello")) else none
    namedPipelines := fun _ name => if name = "footer" then some footer else none }

/-- No field is resolved. -/
theorem resolves_none (name : String) (p : Pipeline) : ¬ ResolvesWith footerEnv name p := by
  rintro ⟨resolvers, execute, hr, -⟩
  unfold footerEnv at hr
  dsimp only at hr
  split at hr <;> cases hr

/-- The page calls the footer and the footer nothing. -/
theorem acyclic_pageWithFooter : Acc (fun q p => Starts footerEnv p q) pageWithFooter := by
  have hfooter : Acc (fun q p => Starts footerEnv p q) footer := by
    refine .intro _ ?_
    rintro q ⟨step, hstep, hq⟩
    obtain rfl := List.mem_singleton.mp hstep
    cases hq with
    | named h => exact absurd h (by simp [show calledPipeline footerEnv { name := "greet", configPresent := true } = none from rfl])
    | resolver h => exact absurd h (resolves_none _ _)
  refine .intro _ ?_
  rintro q ⟨step, hstep, hq⟩
  obtain rfl := List.mem_singleton.mp hstep
  cases hq with
  | foreachItem =>
    refine .intro _ ?_
    rintro q ⟨step, hstep, hq⟩
    obtain rfl := List.mem_singleton.mp hstep
    cases hq with
    | named h =>
      have hcalled : calledPipeline footerEnv { name := "pipeline", config := "footer", configPresent := true } = some footer := rfl
      rw [hcalled] at h
      cases h
      exact hfooter
    | resolver h => exact absurd h (resolves_none _ _)

/-- So pages with footers end. -/
theorem acyclic_execution_ends_page : ∃ enough, ∀ input w, (∀ name, w.reqCtx.asyncRegistry name = none) →
    ∃ r w' l, ∀ n ≥ enough, executePipelineInternal footerEnv n pageWithFooter input w = some (r, w', l) := by
  refine acyclic_execution_ends (fun name behavior execute h call ctx ext => ?_) acyclic_pageWithFooter
  unfold footerEnv at h
  dsimp only at h
  split at h
  · cases h
    rfl
  · cases h

end WebPipe

import WebPipe.Lemmas.Loop

/-!
# The anatomy of a log

Every event of a log, at any depth, was logged by a step, a run or a task of the executor at some fuel: a nested run in it is a
run of the executor, started with the error type its entry handles.
-/

namespace WebPipe

variable {σ : Type} {env : ExecutionEnv σ} {run : RunFn σ} {R : World σ → List Event → World σ → Prop}

/-! ## Runs -/

/-- The relation holds of all that a run does: its steps, and which of them it passes over and enters. -/
structure CoversRun (env : ExecutionEnv σ) (run : RunFn σ) (R : World σ → List Event → World σ → Prop) : Prop
    extends Covers env run R where
  skipped : ∀ step state w, R w [.skipped step state] w
  entered : ∀ step state w, R w [.entered step state] w

/-- The release of slots is covered by what covers the store. -/
theorem follows_releaseSlots (hR : Frames R) (hcache : CoversCache R) (saves : List PendingCacheSave) :
    Prog.Follows R (releaseSlots saves : Exec σ Unit) := by
  induction saves with
  | nil => exact Prog.follows_pure hR.chain _
  | cons save saves ih =>
    refine Prog.follows_bind hR.chain ?_ fun _ => ih
    unfold releaseSlot
    split
    · exact follows_clearKey hR hcache _
    · exact Prog.follows_pure hR.chain _

/-- The puts of saves are covered by it. -/
theorem follows_putSaves (hR : Frames R) (hcache : CoversCache R) (response : CachedResponse)
    (saves : List PendingCacheSave) : Prog.Follows R (putSaves response saves : Exec σ Unit) := by
  induction saves with
  | nil => exact Prog.follows_pure hR.chain _
  | cons save saves ih => exact Prog.follows_bind hR.chain (follows_putKey hR hcache _ _ _) fun _ => ih

/-- The final saves are covered by it. -/
theorem follows_runPendingCacheSaves (hR : Frames R) (hcache : CoversCache R) (saves : List PendingCacheSave)
    (output : PipelineOutput) : Prog.Follows R (runPendingCacheSaves saves output : Exec σ Unit) := by
  unfold runPendingCacheSaves
  split
  · exact follows_releaseSlots hR hcache saves
  · exact follows_putSaves hR hcache _ saves

/-- The relation holds of all that the loop of a run does: its turns, and the saves in the end. -/
structure CoversLoop (env : ExecutionEnv σ) (run : RunFn σ) (R : World σ → List Event → World σ → Prop) : Prop
    extends Frames R where
  turns : ∀ steps idx step s, Prog.Follows R (iterate env run steps idx step s)
  cache : CoversCache R

/-- One turn of the loop is covered when steps are. -/
theorem follows_iterate (hR : Frames R) (hsteps : ∀ step ctx, Prog.Follows R (executeStep env run step ctx)) (hcache : CoversCache R)
    (hskipped : ∀ step state w, R w [.skipped step state] w) (hentered : ∀ step state w, R w [.entered step state] w)
    (steps : List PipelineStep) (idx : Nat) (step : PipelineStep) (s : LoopState) :
    Prog.Follows R (iterate env run steps idx step s) := by
  unfold iterate
  split
  · exact Prog.follows_bind hR.chain (Prog.follows_emit (hskipped _ _)) fun _ => Prog.follows_pure hR.chain _
  · refine Prog.follows_bind hR.chain (Prog.follows_emit (hentered _ _)) fun _ =>
      Prog.follows_bind hR.chain (hsteps _ _) fun p => ?_
    obtain ⟨_ | output, ctx⟩ := p
    · exact Prog.follows_pure hR.chain _
    · exact Prog.follows_bind hR.chain (follows_runPendingCacheSaves hR hcache _ _) fun _ => Prog.follows_pure hR.chain _

theorem CoversRun.loop (h : CoversRun env run R) : CoversLoop env run R :=
  { toFrames := h.frames
    turns := follows_iterate h.frames (follows_executeStep h.toCovers) h.cache h.skipped h.entered
    cache := h.cache }

/-- The loop is covered: induction on the steps that are left. -/
theorem follows_loopSteps (h : CoversLoop env run R) (steps : List PipelineStep) (idx : Nat) (rest : List PipelineStep)
    (s : LoopState) : Prog.Follows R (loopSteps env run steps idx rest s) := by
  induction rest generalizing idx s with
  | nil => exact Prog.follows_pure h.chain _
  | cons step rest ih =>
    rw [loopSteps_cons]
    refine Prog.follows_bind h.chain (h.turns steps idx step s) fun r => ?_
    cases r with
    | inl s' => exact ih _ _
    | inr output => exact Prog.follows_pure h.chain _

/-- A run is covered when its loop and its saves are. -/
theorem follows_runPipeline (h : CoversLoop env run R) (pipeline : Pipeline) (input : Value) (handled : Option String) :
    Prog.Follows R (runPipeline env run pipeline input handled) := by
  refine Prog.follows_bind h.chain (follows_loopSteps h _ _ _ _) fun last => ?_
  cases last with
  | inl s =>
    exact Prog.follows_bind h.chain (follows_runPendingCacheSaves h.toFrames h.cache _ _) fun _ =>
      Prog.follows_pure h.chain _
  | inr output => exact Prog.follows_pure h.chain _

/-! ## Where an event comes from -/

/-- An event that a run, or a task of it, logs itself. -/
inductive Logged (env : ExecutionEnv σ) (run : RunFn σ) : Event → Prop
  | skipped (step : PipelineStep) (state : Value) : Logged env run (.skipped step state)
  | entered (step : PipelineStep) (state : Value) : Logged env run (.entered step state)
  | settled {step : PipelineStep} {ctx : StepContext} {w w' : World σ} {raw : Except Failure (StepOutcome × StepContext)}
      {l : List Event} (h : dispatchStep env run step ctx w = some (raw, w', l)) :
      Logged env run (.settled step ctx.pipeCtx.state (failureOf raw) ((settle step ctx raw).map stateAfter))
  | invoked (name : String) (call : MiddlewareCall) : Logged env run (.invoked name call)
  | spawned (name : String) (task : AsyncTask) : Logged env run (.spawned name task)
  | joined (names : List String) (results : Object) : Logged env run (.joined names results)
  | cache (own : Bool) (now : Nat) (call : CacheCall) (answer : CacheAnswer) : Logged env run (.cache own now call answer)
  | run {entry : Entry} {pipeline : Pipeline} {input : Value} {w w' : World σ} {inner : List Event}
      {result : Except Failure PipelineOutput} (h : run pipeline input (entry.handles input) w = some (result, w', inner)) :
      Logged env run (.run entry pipeline input (entry.handles input) inner result)
  | task {name : String} {task : AsyncTask} {w w' : World σ} {inner : List Event} {r : Except Failure Value}
      (h : taskBody env run task w = some (r, w', inner)) : Logged env run (.task name inner)

/-- Every event of the log was logged by a run, or a task of it. -/
def AllLogged (env : ExecutionEnv σ) (run : RunFn σ) (_ : World σ) (l : List Event) (_ : World σ) : Prop :=
  ∀ e ∈ l, Logged env run e

/-- Everything that a run logs is logged. -/
theorem coversRun_allLogged (env : ExecutionEnv σ) (run : RunFn σ) : CoversRun env run (AllLogged env run) where
  toPasses := passes_emits _
  runs _ _ _ _ _ _ _ h := by simpa [AllLogged] using .run h
  tasks _ _ _ _ _ _ h := by simpa [AllLogged] using .task h
  invoked _ _ _ := by simpa [AllLogged] using .invoked _ _
  spawned _ _ _ := by simpa [AllLogged] using .spawned _ _
  joined _ _ _ := by simpa [AllLogged] using .joined _ _
  cache _ _ _ _ := by simpa [AllLogged] using .cache _ _ _ _
  settled _ _ _ _ _ _ _ h := by simpa [AllLogged] using .settled h
  skipped _ _ _ := by simpa [AllLogged] using .skipped _ _
  entered _ _ _ := by simpa [AllLogged] using .entered _ _

/-- The end of a step is that of a handler that ran. -/
theorem Logged.of_settled {step : PipelineStep} {before : Value} {raised : Option Failure} {after : Except Failure Value}
    (h : Logged env run (.settled step before raised after)) :
    ∃ ctx raw w w' l, dispatchStep env run step ctx w = some (raw, w', l) ∧ before = ctx.pipeCtx.state ∧
      raised = failureOf raw ∧ after = (settle step ctx raw).map stateAfter := by
  cases h with
  | settled hd => exact ⟨_, _, _, _, _, hd, rfl, rfl, rfl⟩

/-- The events of a run of the executor are logged with less fuel. -/
theorem logged_execute {n : Nat} {pipeline : Pipeline} {input : Value} {handled : Option String} {w w' : World σ}
    {r : Except Failure PipelineOutput} {l : List Event}
    (h : executeWithErrorShortCircuit env (n + 1) pipeline input handled w = some (r, w', l)) :
    ∀ e ∈ l, Logged env (executeWithErrorShortCircuit env n) e :=
  follows_runPipeline (coversRun_allLogged env _).loop pipeline input handled w r w' l h

/-- A run that ends had fuel. -/
theorem execute_pos {n : Nat} {pipeline : Pipeline} {input : Value} {handled : Option String} {w w' : World σ}
    {r : Except Failure PipelineOutput} {l : List Event}
    (h : executeWithErrorShortCircuit env n pipeline input handled w = some (r, w', l)) : ∃ m, n = m + 1 := by
  cases n with
  | zero => cases h
  | succ m => exact ⟨m, rfl⟩

/-! ## Any depth -/

/-- An event of a log, or of a run or a task inside it, at any depth. -/
inductive Event.Within (e : Event) : List Event → Prop
  | here {l : List Event} (h : e ∈ l) : e.Within l
  | run {l inner : List Event} {entry : Entry} {pipeline : Pipeline} {input : Value} {handled : Option String}
      {result : Except Failure PipelineOutput} (h : .run entry pipeline input handled inner result ∈ l)
      (hin : e.Within inner) : e.Within l
  | task {l inner : List Event} {name : String} (h : .task name inner ∈ l) (hin : e.Within inner) : e.Within l

/-- What is inside a run inside a log is inside the log. -/
theorem Event.Within.trans {e : Event} {l inner : List Event} {entry : Entry} {pipeline : Pipeline} {input : Value}
    {handled : Option String} {result : Except Failure PipelineOutput} (he : e.Within inner)
    (h : (Event.run entry pipeline input handled inner result).Within l) : e.Within l := by
  induction h with
  | here hmem => exact .run hmem he
  | run hmem _ ih => exact .run hmem ih
  | task hmem _ ih => exact .task hmem ih

/-- An event inside a log is one of the log's own, or one of a run's or a task's inside it. -/
theorem Event.Within.cases_owner {e : Event} {l : List Event} (h : e.Within l) :
    e ∈ l ∨ (∃ entry p v handled inner result, (Event.run entry p v handled inner result).Within l ∧ e ∈ inner) ∨
      ∃ name inner, (Event.task name inner).Within l ∧ e ∈ inner := by
  induction h with
  | here hmem => exact Or.inl hmem
  | run hmem _ ih =>
    rcases ih with hin | ⟨entry, p, v, handled, inner, result, hrun, hin⟩ | ⟨name, inner, htask, hin⟩
    · exact Or.inr (Or.inl ⟨_, _, _, _, _, _, .here hmem, hin⟩)
    · exact Or.inr (Or.inl ⟨_, _, _, _, _, _, .run hmem hrun, hin⟩)
    · exact Or.inr (Or.inr ⟨_, _, .run hmem htask, hin⟩)
  | task hmem _ ih =>
    rcases ih with hin | ⟨entry, p, v, handled, inner, result, hrun, hin⟩ | ⟨name, inner, htask, hin⟩
    · exact Or.inr (Or.inr ⟨_, _, .here hmem, hin⟩)
    · exact Or.inr (Or.inl ⟨_, _, _, _, _, _, .task hmem hrun, hin⟩)
    · exact Or.inr (Or.inr ⟨_, _, .task hmem htask, hin⟩)

/-- Every event inside a log of the executor was logged by a run or a task at some fuel. -/
theorem logged_within {n : Nat} {e : Event} {l : List Event} (h : e.Within l)
    (hl : ∀ e ∈ l, Logged env (executeWithErrorShortCircuit env n) e) :
    ∃ m, Logged env (executeWithErrorShortCircuit env m) e := by
  induction h generalizing n with
  | here hmem => exact ⟨n, hl _ hmem⟩
  | run hmem _ ih =>
    cases hl _ hmem with
    | run hrun =>
      obtain ⟨m, rfl⟩ := execute_pos hrun
      exact ih (logged_execute hrun)
  | task hmem _ ih =>
    cases hl _ hmem with
    | task htask =>
      have hcov := coversRun_allLogged env (executeWithErrorShortCircuit env n)
      exact ih (follows_taskBody hcov.toPasses hcov.runs hcov.invoked hcov.cache _ _ _ _ _ htask)

/-- What lies at any depth of a log was logged by some run. -/
theorem logged_within_execute {n : Nat} {pipeline : Pipeline} {input : Value} {handled : Option String} {w w' : World σ}
    {r : Except Failure PipelineOutput} {l : List Event}
    (h : executeWithErrorShortCircuit env n pipeline input handled w = some (r, w', l)) {e : Event} (hin : e.Within l) :
    ∃ m, Logged env (executeWithErrorShortCircuit env m) e := by
  obtain ⟨k, rfl⟩ := execute_pos h
  exact logged_within hin (logged_execute h)

/-- A run inside the log of a run is a run of the executor, started with the error type its entry handles. -/
theorem run_within {n : Nat} {pipeline : Pipeline} {input : Value} {handled : Option String} {w w' : World σ}
    {r : Except Failure PipelineOutput} {l : List Event}
    (h : executeWithErrorShortCircuit env n pipeline input handled w = some (r, w', l)) {entry : Entry} {p : Pipeline}
    {v : Value} {hd : Option String} {inner : List Event} {result : Except Failure PipelineOutput}
    (hin : (Event.run entry p v hd inner result).Within l) :
    hd = entry.handles v ∧ ∃ m w₁ w₂, executeWithErrorShortCircuit env m p v hd w₁ = some (result, w₂, inner) := by
  obtain ⟨m, hm⟩ := logged_within_execute h hin
  cases hm with
  | run hrun => exact ⟨rfl, m, _, _, hrun⟩

end WebPipe

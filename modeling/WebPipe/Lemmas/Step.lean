import WebPipe.Executor.Run

/-!
# What a step does

The handler of each kind of step taken apart: the runs it starts, and what it logs and changes. A relation between the world before,
the log and the world after that holds of every run, task, call and store access of a step holds of the step.
-/

namespace WebPipe

variable {σ : Type} {env : ExecutionEnv σ} {run : RunFn σ} {R : World σ → List Event → World σ → Prop}

/-! ## Nested runs -/

/-- The error type a nested run is started with: a branch of a `result` step handles the error of its input. -/
def Entry.handles (entry : Entry) (input : Value) : Option String :=
  if entry = .resultBranch then extractErrorType input else none

/-- A nested run is one event around the log of the run. -/
theorem nested_of_some {run : RunFn σ} {pipeline : Pipeline} {input : Value} {handled : Option String} {w w' : World σ}
    {r : Except Failure PipelineOutput} {l : List Event} (entry : Entry)
    (h : run pipeline input handled w = some (r, w', l)) :
    Exec.nested entry run pipeline input handled w = some (r, w', [.run entry pipeline input handled l r]) :=
  Prog.enclose_of_some h

/-- A nested run is logged as a whole. -/
theorem nested_eq_some {entry : Entry} {pipeline : Pipeline} {input : Value} {handled : Option String} {w w' : World σ}
    {r : Except Failure PipelineOutput} {l : List Event}
    (h : Exec.nested entry run pipeline input handled w = some (r, w', l)) :
    ∃ inner, run pipeline input handled w = some (r, w', inner) ∧ l = [.run entry pipeline input handled inner r] :=
  Prog.enclose_eq_some h

/-- An executed branch is one nested run of its pipeline on the state. -/
theorem executeBranch_eq_some {entry : Entry} {pipeline : Pipeline} {ctx : StepContext} {w w' : World σ}
    {r : Except Failure (StepOutcome × StepContext)} {l : List Event}
    (h : executeBranch run entry pipeline ctx w = some (r, w', l)) :
    ∃ inner result, run pipeline ctx.pipeCtx.state none w = some (result, w', inner) ∧
      l = [.run entry pipeline ctx.pipeCtx.state none inner result] := by
  rcases Prog.bind_eq_some h with ⟨e, hn, -⟩ | ⟨res, w₁, l₁, l₂, hn, hp, rfl⟩
  · obtain ⟨inner, hrun, rfl⟩ := nested_eq_some hn
    exact ⟨inner, _, hrun, rfl⟩
  · obtain ⟨inner, hrun, rfl⟩ := nested_eq_some hn
    cases hp
    exact ⟨inner, _, hrun, by simp⟩

/-- A branch that returns leaves what its run returned. -/
theorem executeBranch_of_ok {pipeline : Pipeline} {ctx : StepContext} {w w' : World σ} {res : PipelineOutput}
    {inner : List Event} (entry : Entry) (h : run pipeline ctx.pipeCtx.state none w = some (.ok res, w', inner)) :
    executeBranch run entry pipeline ctx w =
      some (.ok (.continue, ctx.afterBranch res), w', [.run entry pipeline ctx.pipeCtx.state none inner (.ok res)]) := by
  unfold executeBranch
  rw [Prog.bind_of_ok (nested_of_some entry h)]
  simp

/-! ## Relations along a run -/

/-- The relation is passed on along a run, and holds of what neither logs nor touches the store. -/
structure Passes (R : World σ → List Event → World σ → Prop) : Prop where
  quiet : ∀ {w w'}, w'.cache = w.cache → R w [] w'
  trans : ∀ {w w₁ w₂ l₁ l₂}, R w l₁ w₁ → R w₁ l₂ w₂ → R w (l₁ ++ l₂) w₂

/-- Such a relation is a chain. -/
theorem Passes.chain (h : Passes R) : Prog.Chain R := ⟨fun _ => h.quiet rfl, h.trans⟩

/-- The relation is passed on along a run, and holds of what neither logs nor touches the store nor the registered tasks. -/
structure Rests (R : World σ → List Event → World σ → Prop) : Prop where
  quiet : ∀ {w w'}, w'.cache = w.cache → w'.reqCtx.asyncRegistry = w.reqCtx.asyncRegistry → R w [] w'
  trans : ∀ {w w₁ w₂ l₁ l₂}, R w l₁ w₁ → R w₁ l₂ w₂ → R w (l₁ ++ l₂) w₂

theorem Rests.chain (h : Rests R) : Prog.Chain R := ⟨fun _ => h.quiet rfl rfl, h.trans⟩

/-- Nothing that a step hands on to others is changed: the store, the registered tasks, what lies outside the executor, and what a
debugger is told of the request. -/
structure Unmoved (w w' : World σ) : Prop where
  cache : w'.cache = w.cache
  tasks : w'.reqCtx.asyncRegistry = w.reqCtx.asyncRegistry
  ext : w'.ext = w.ext
  stack : w'.reqCtx.profiler.stack = w.reqCtx.profiler.stack
  thread : w'.reqCtx.debugThreadId = w.reqCtx.debugThreadId

/-- The relation is passed on along a run, and holds of what neither logs nor changes what is handed on. -/
structure Frames (R : World σ → List Event → World σ → Prop) : Prop where
  quiet : ∀ {w w'}, Unmoved w w' → R w [] w'
  trans : ∀ {w w₁ w₂ l₁ l₂}, R w l₁ w₁ → R w₁ l₂ w₂ → R w (l₁ ++ l₂) w₂

theorem Frames.chain (h : Frames R) : Prog.Chain R := ⟨fun _ => h.quiet ⟨rfl, rfl, rfl, rfl, rfl⟩, h.trans⟩

/-- A relation of the first kind holds of all that moves nothing. -/
theorem Passes.frames (h : Passes R) : Frames R := ⟨fun hu => h.quiet hu.cache, h.trans⟩

/-- So does one of the second kind. -/
theorem Rests.frames (h : Rests R) : Frames R := ⟨fun hu => h.quiet hu.cache hu.tasks, h.trans⟩

/-- The relation holds of what a request keeps of its calls and samples. -/
def Records (R : World σ → List Event → World σ → Prop) : Prop :=
  ∀ (w : World σ) callLog profiler, R w [] { w with reqCtx := { w.reqCtx with callLog := callLog, profiler := profiler } }

theorem Passes.records (h : Passes R) : Records R := fun _ _ _ => h.quiet rfl

theorem Rests.records (h : Rests R) : Records R := fun _ _ _ => h.quiet rfl rfl

/-- A property of the events of a log is such a relation. -/
theorem passes_emits (P : Event → Prop) : Passes (fun (_ : World σ) l (_ : World σ) => ∀ e ∈ l, P e) where
  quiet _ := nofun
  trans h₁ h₂ e he := (List.mem_append.mp he).elim (h₁ e) (h₂ e)

/-- The relation holds of every run that a step starts. -/
def CoversRuns (run : RunFn σ) (R : World σ → List Event → World σ → Prop) : Prop :=
  ∀ entry pipeline input inner result w w', run pipeline input (entry.handles input) w = some (result, w', inner) →
    R w [.run entry pipeline input (entry.handles input) inner result] w'

/-- The relation holds of every run that a step starts, those of resolvers aside. -/
def CoversNested (run : RunFn σ) (R : World σ → List Event → World σ → Prop) : Prop :=
  ∀ entry pipeline input inner result w w', entry.isResolver = false →
    run pipeline input (entry.handles input) w = some (result, w', inner) →
    R w [.run entry pipeline input (entry.handles input) inner result] w'

/-- What covers all runs covers these. -/
theorem CoversRuns.nested (h : CoversRuns run R) : CoversNested run R := fun _ _ _ _ _ _ _ _ => h _ _ _ _ _ _ _

/-- The relation holds of every task that a `join` runs. -/
def CoversTasks (env : ExecutionEnv σ) (run : RunFn σ) (R : World σ → List Event → World σ → Prop) : Prop :=
  ∀ name task inner r w w', taskBody env run task w = some (r, w', inner) → R w [.task name inner] w'

/-- The relation holds of every call on the store. -/
def CoversCache (R : World σ → List Event → World σ → Prop) : Prop :=
  ∀ own (w : World σ) now c, R w [.cache own now c (w.cache.serve now c).1] { w with cache := (w.cache.serve now c).2 }

/-- The relation holds of all that the handler of a step does. -/
structure CoversHandler (env : ExecutionEnv σ) (run : RunFn σ) (R : World σ → List Event → World σ → Prop) : Prop
    extends Passes R where
  runs : CoversRuns run R
  tasks : CoversTasks env run R
  invoked : ∀ name call w, R w [.invoked name call] w
  spawned : ∀ name task w, R w [.spawned name task] w
  joined : ∀ names results w, R w [.joined names results] w
  cache : CoversCache R

/-- The relation holds of what the middlewares other than the cache do to the request. -/
def CoversOthers (env : ExecutionEnv σ) (R : World σ → List Event → World σ → Prop) : Prop :=
  ∀ name behavior execute, env.registry name = some (.other behavior execute) → ∀ call w,
    R w [] { w with reqCtx := (execute call w.reqCtx w.ext).2.1, ext := (execute call w.reqCtx w.ext).2.2 }

/-- The relation holds of all that the handler of a step does, a join and a spawn taken as a whole. -/
structure CoversCore (env : ExecutionEnv σ) (run : RunFn σ) (R : World σ → List Event → World σ → Prop) : Prop
    extends Frames R where
  runs : CoversNested run R
  joins : ∀ config parsedTargets input, Prog.Follows R (handleJoin env run config parsedTargets input)
  spawns : ∀ name args config location input asyncName,
    Prog.Follows R (spawnAsyncStep name args config location input asyncName : Exec σ Unit)
  invokes : ∀ name args config c target, Prog.Follows R (invoke env run name args config c target)

/-- The relation holds of all that a step does, its end included. -/
structure Covers (env : ExecutionEnv σ) (run : RunFn σ) (R : World σ → List Event → World σ → Prop) : Prop
    extends CoversHandler env run R where
  settled : ∀ step ctx w raw w₁ l w₂, dispatchStep env run step ctx w = some (raw, w₁, l) →
    R w₂ [.settled step ctx.pipeCtx.state (failureOf raw) ((settle step ctx raw).map stateAfter)] w₂

/-! ## Control flow -/

/-- A nested run keeps what runs keep. -/
theorem follows_nested (hrun : CoversNested run R) {entry : Entry} (he : entry.isResolver = false) {pipeline : Pipeline}
    {input : Value} {handled : Option String} (hh : handled = entry.handles input) :
    Prog.Follows R (Exec.nested entry run pipeline input handled) := by
  subst hh
  exact Prog.follows_enclose fun w r w' inner h => hrun _ _ _ _ _ _ _ he h

/-- So does a branch. -/
theorem follows_executeBranch (hR : Prog.Chain R) (hrun : CoversNested run R) {entry : Entry} (hno : entry.isResolver = false)
    (he : entry ≠ .resultBranch) (pipeline : Pipeline) (ctx : StepContext) : Prog.Follows R (executeBranch run entry pipeline ctx) := by
  have hh : none = entry.handles ctx.pipeCtx.state := (if_neg he).symm
  exact Prog.follows_bind hR (follows_nested hrun hno hh) fun _ => Prog.follows_pure hR _

/-- An `if` keeps what its runs keep. -/
theorem follows_handleIfStep (hR : Prog.Chain R) (hrun : CoversNested run R) (condition thenBranch : Pipeline)
    (elseBranch : Option Pipeline) (ctx : StepContext) :
    Prog.Follows R (handleIfStep run condition thenBranch elseBranch ctx) := by
  refine Prog.follows_bind hR (follows_nested hrun rfl rfl) fun cond => ?_
  split
  · exact follows_executeBranch hR hrun rfl (by decide) _ _
  · cases elseBranch with
    | some pipeline => exact follows_executeBranch hR hrun rfl (by decide) _ _
    | none => exact Prog.follows_pure hR _

/-- A `dispatch` keeps what its run keeps. -/
theorem follows_handleDispatchStep (hR : Prog.Chain R) (hrun : CoversNested run R) (branches : List DispatchBranch)
    (default : Option Pipeline) (ctx : StepContext) :
    Prog.Follows R (handleDispatchStep env run branches default ctx) := by
  refine Prog.follows_bind hR (Prog.follows_gets hR _) fun selected => ?_
  cases selected with
  | some pipeline => exact follows_executeBranch hR hrun rfl (by decide) _ _
  | none => exact Prog.follows_pure hR _

/-- A loop keeps what the runs of its items keep. -/
theorem follows_foreachItems (hR : Prog.Chain R) (hrun : CoversNested run R) (pipeline : Pipeline) (items : List Value) :
    Prog.Follows R (foreachItems run pipeline items) := by
  induction items with
  | nil => exact Prog.follows_pure hR _
  | cons item items ih =>
    exact Prog.follows_bind hR (follows_nested hrun rfl rfl) fun _ =>
      Prog.follows_bind hR ih fun _ => Prog.follows_pure hR _

/-- So does the step around it. -/
theorem follows_handleForeachStep (hR : Prog.Chain R) (hrun : CoversNested run R) (selector : String) (pipeline : Pipeline)
    (ctx : StepContext) : Prog.Follows R (handleForeachStep run selector pipeline ctx) := by
  unfold handleForeachStep
  split
  · exact Prog.follows_bind hR (follows_foreachItems hR hrun _ _) fun _ => Prog.follows_pure hR _
  · exact Prog.follows_fail hR _

/-- A `result` keeps what the run of its branch keeps, with the error type that this one handles. -/
theorem follows_handleResultStep (hR : Prog.Chain R) (hrun : CoversNested run R) (branches : List ResultBranch)
    (ctx : StepContext) : Prog.Follows R (handleResultStep run branches ctx) := by
  unfold handleResultStep
  dsimp only
  split
  · exact Prog.follows_bind hR (follows_nested hrun rfl rfl) fun _ => Prog.follows_pure hR _
  · exact Prog.follows_pure hR _

/-- A call of a pipeline keeps what its run keeps. -/
theorem follows_handleRecursivePipeline (hR : Prog.Chain R) (hrun : CoversNested run R) (args : List String) (config : String)
    (location : SourceLocation) (input : Value) :
    Prog.Follows R (handleRecursivePipeline env run args config location input) := by
  unfold handleRecursivePipeline
  dsimp only
  split
  · exact Prog.follows_fail hR _
  · split
    · exact Prog.follows_fail hR _
    · exact follows_nested hrun rfl rfl

/-! ## Calls -/

/-- A change that moves nothing is covered. -/
theorem follows_modifyReq (hR : Frames R) {f : RequestContext → RequestContext}
    (hf : ∀ w : World σ, Unmoved w { w with reqCtx := f w.reqCtx }) : Prog.Follows R (Exec.modifyReq f : Exec σ Unit) :=
  Prog.follows_modify fun w => hR.quiet (hf w)

/-- The other callers do calls on the store, and let time pass. -/
theorem follows_interfere (hR : Frames R)
    (hothers : ∀ (w : World σ) now c, R w [.cache false now c (w.cache.serve now c).1]
      { w with cache := (w.cache.serve now c).2 }) : Prog.Follows R (Exec.interfere : Exec σ Unit) := by
  have hall : ∀ (as : List OtherAction) (w : World σ), R w (w.otherAll as).1 (w.otherAll as).2 := by
    intro as
    induction as with
    | nil => exact fun w => hR.quiet ⟨rfl, rfl, rfl, rfl, rfl⟩
    | cons a as ih =>
      intro w
      refine hR.trans ?_ (ih (w.other a).2)
      cases a with
      | tick nanos => exact hR.quiet ⟨rfl, rfl, rfl, rfl, rfl⟩
      | call lag c => exact hothers w _ c
  intro w r w' l h
  unfold Exec.interfere at h
  rw [Prog.update_bind] at h
  cases h
  have hstart : R w [] { w with others := w.others.tail } := hR.quiet ⟨rfl, rfl, rfl, rfl, rfl⟩
  exact hR.trans hstart (hall (w.others.headD []) _)

/-- A call of the store is covered. -/
theorem follows_serve (hcache : CoversCache R) (now : Nat) (c : CacheCall) :
    Prog.Follows R (Exec.serve now c : Exec σ _) := by
  intro w r w' l h
  unfold Exec.serve at h
  rw [Prog.update_bind] at h
  cases h
  exact hcache true w now c

/-- A lookup is covered, with the turn of the others before it. -/
theorem follows_lookupKey (hR : Frames R) (hcache : CoversCache R) (key : String) :
    Prog.Follows R (Exec.lookupKey key : Exec σ _) := by
  refine Prog.follows_bind hR.chain (Prog.follows_gets hR.chain _) fun now =>
    Prog.follows_bind hR.chain (follows_interfere hR (hcache false)) fun _ =>
    Prog.follows_bind hR.chain (follows_serve hcache _ _) fun answer => ?_
  split
  · exact Prog.follows_pure hR.chain _
  · exact Prog.follows_pure hR.chain _

/-- A put is covered, with the turn of the others before it. -/
theorem follows_putKey (hR : Frames R) (hcache : CoversCache R) (key : String) (response : CachedResponse)
    (ttlSecs : Option Nat) : Prog.Follows R (Exec.putKey key response ttlSecs : Exec σ _) := by
  refine Prog.follows_bind hR.chain (follows_interfere hR (hcache false)) fun _ =>
    Prog.follows_bind hR.chain (Prog.follows_gets hR.chain _) fun now =>
    Prog.follows_bind hR.chain (follows_serve hcache _ _) fun answer => ?_
  split
  · exact Prog.follows_fail hR.chain _
  · exact Prog.follows_pure hR.chain _

/-- A release is covered, with the turn of the others before it. -/
theorem follows_clearKey (hR : Frames R) (hcache : CoversCache R) (key : String) :
    Prog.Follows R (Exec.clearKey key : Exec σ _) :=
  Prog.follows_bind hR.chain (follows_interfere hR (hcache false)) fun _ =>
    Prog.follows_bind hR.chain (Prog.follows_gets hR.chain _) fun _ =>
    Prog.follows_bind hR.chain (follows_serve hcache _ _) fun _ => Prog.follows_pure hR.chain _

/-- The cache middleware does nothing else to the store. -/
theorem follows_cacheMiddleware (hR : Frames R) (hcache : CoversCache R) (config : String) (c : PipelineContext) :
    Prog.Follows R (CacheMiddleware.execute env config c) := by
  unfold CacheMiddleware.execute
  dsimp only
  split
  · exact Prog.follows_bind hR.chain (follows_modifyReq hR fun _ => ⟨rfl, rfl, rfl, rfl, rfl⟩) fun _ =>
      Prog.follows_bind hR.chain (follows_lookupKey hR hcache _) fun _ => Prog.follows_pure hR.chain _
  · exact Prog.follows_pure hR.chain _

/-- The start of a resolver is covered. -/
theorem follows_startResolver (hR : Prog.Chain R) (hrecords : Records R) (record : ResolverRecord) (input : Value) :
    Prog.Follows R (startResolver record input : Exec σ Unit) := by
  unfold startResolver
  cases record with
  | field key => exact Prog.follows_modify fun w => hrecords w _ _
  | part => exact Prog.follows_pure hR _
  | loader name => exact Prog.follows_modify fun w => hrecords w w.reqCtx.callLog _

/-- The end of a resolver is covered. -/
theorem follows_endResolver (hR : Prog.Chain R) (hrecords : Records R) (record : ResolverRecord)
    (result : Except WebPipeError PipelineOutput) : Prog.Follows R (endResolver record result : Exec σ Unit) := by
  unfold endResolver
  split
  · exact Prog.follows_modify fun w => hrecords w w.reqCtx.callLog _
  · exact Prog.follows_modify fun w => hrecords w w.reqCtx.callLog _
  · exact Prog.follows_pure hR _

/-- A resolver keeps what its run keeps. -/
theorem follows_runResolver (hR : Prog.Chain R) (hrecords : Records R) (hrun : CoversRuns run R) (record : ResolverRecord)
    (pipeline : Pipeline) (input : Value) : Prog.Follows R (runResolver run record pipeline input) := by
  refine Prog.follows_bind hR (follows_startResolver hR hrecords record input) fun _ =>
    Prog.follows_bind hR (Prog.follows_attempt (Prog.follows_enclose fun w r w' inner h => ?_)) fun result => ?_
  · exact hrun (.resolver record) pipeline input _ _ _ _ h
  rcases result with (e | _) | output
  · exact Prog.follows_bind hR (follows_endResolver hR hrecords _ _) fun _ => Prog.follows_pure hR _
  · exact Prog.follows_fail hR _
  · exact Prog.follows_bind hR (follows_endResolver hR hrecords _ _) fun _ => Prog.follows_pure hR _

/-- Fields are resolved by runs. -/
theorem follows_perform (hR : Prog.Chain R) (hrecords : Records R) (hrun : CoversRuns run R) {resolvers : List Pipeline}
    (resolution : Resolution resolvers) : Prog.Follows R (resolution.perform run) := by
  induction resolution with
  | done result => exact Prog.follows_ofExcept hR _
  | mocked key input next ih =>
    exact Prog.follows_bind hR (follows_startResolver hR hrecords _ _) fun _ =>
      Prog.follows_bind hR (Prog.follows_modify fun w => hrecords w w.reqCtx.callLog _) fun _ => ih
  | resolve record pipeline h input next ih =>
    exact Prog.follows_bind hR (follows_runResolver hR hrecords hrun _ _ _) fun result => ih result

/-- A call of a middleware is covered: the cache by the store, `graphql` by its runs, the others by assumption. -/
theorem follows_invoke (hR : Frames R) (hrecords : Records R) (hrun : CoversRuns run R)
    (hcall : ∀ name call w, R w [.invoked name call] w) (hothers : CoversOthers env R) (hcache : CoversCache R) (name : String)
    (args : List String) (config : String) (c : PipelineContext) (target : Option String) :
    Prog.Follows R (invoke env run name args config c target) := by
  unfold invoke
  dsimp only
  split
  · exact Prog.follows_fail hR.chain _
  · exact Prog.follows_bind hR.chain (Prog.follows_emit (hcall _ _)) fun _ =>
      Prog.follows_bind hR.chain (follows_cacheMiddleware hR hcache _ _) fun _ => Prog.follows_pure hR.chain _
  · exact Prog.follows_bind hR.chain (Prog.follows_emit (hcall _ _)) fun _ =>
      Prog.follows_bind hR.chain (follows_perform hR.chain hrecords hrun _) fun _ => Prog.follows_pure hR.chain _
  · next behavior execute hname =>
    exact Prog.follows_bind hR.chain (Prog.follows_emit (hcall _ _)) fun _ =>
      Prog.follows_bind hR.chain (Prog.follows_update fun w => hothers _ _ _ hname _ w) fun _ =>
      Prog.follows_bind hR.chain (Prog.follows_ofExcept hR.chain _) fun _ => Prog.follows_pure hR.chain _

/-- A relation that does not depend on the tasks holds of all other middleware. -/
theorem Passes.others (hR : Passes R) : CoversOthers env R := fun _ _ _ _ _ _ => hR.quiet rfl

/-- A task runs a named pipeline, or calls a middleware. -/
theorem follows_taskBody_of_invokes (hR : Prog.Chain R) (hrun : CoversNested run R)
    (hinvokes : ∀ name args config c target, Prog.Follows R (invoke env run name args config c target)) (task : AsyncTask) :
    Prog.Follows R (taskBody env run task) := by
  unfold taskBody
  dsimp only
  split
  · exact Prog.follows_bind hR (follows_handleRecursivePipeline hR hrun _ _ _ _) fun _ => Prog.follows_pure hR _
  · exact Prog.follows_bind hR (hinvokes _ _ _ _ _) fun _ => Prog.follows_pure hR _

/-- The body of a task is covered. -/
theorem follows_taskBody (hR : Passes R) (hrun : CoversRuns run R) (hcall : ∀ name call w, R w [.invoked name call] w)
    (hcache : CoversCache R) (task : AsyncTask) : Prog.Follows R (taskBody env run task) :=
  follows_taskBody_of_invokes hR.chain hrun.nested (follows_invoke hR.frames hR.records hrun hcall hR.others hcache) task

/-! ## Tasks -/

/-- The run of a task is covered. -/
theorem follows_runTask (hR : Passes R) (htask : CoversTasks env run R) (name : String) (task : AsyncTask) :
    Prog.Follows R (runTask env run name task) := by
  refine Prog.follows_within hR.chain (Prog.follows_bind hR.chain ?_ fun _ => Prog.follows_bind hR.chain ?_ fun _ =>
    Prog.follows_bind hR.chain (Prog.follows_gets hR.chain _) fun _ => Prog.follows_pure hR.chain _)
    (fun _ => hR.quiet rfl) (fun _ _ => hR.quiet rfl)
  · unfold allocateThread
    split
    · exact Prog.follows_pure hR.chain _
    · exact Prog.follows_modify fun _ => hR.quiet rfl
  · exact Prog.follows_attempt (Prog.follows_enclose fun w r w' inner h => htask _ _ _ _ _ _ h)

/-- Joined tasks are covered one by one. -/
theorem follows_joinTasks (hR : Passes R) (htask : CoversTasks env run R) (names : List String) (results : Object) :
    Prog.Follows R (joinTasks env run names results) := by
  induction names generalizing results with
  | nil => exact Prog.follows_pure hR.chain _
  | cons name names ih =>
    refine Prog.follows_bind hR.chain (Prog.follows_update fun _ => hR.quiet rfl) fun task => ?_
    cases task with
    | none => exact ih _
    | some task =>
      refine Prog.follows_bind hR.chain (follows_runTask hR htask _ _) fun r => ?_
      rcases r with (e | _) | ⟨value, profiler⟩
      · exact ih _
      · exact ih _
      · exact Prog.follows_bind hR.chain (follows_modifyReq hR.frames fun _ => ⟨rfl, rfl, rfl, rfl, rfl⟩) fun _ => ih _

/-- A join is covered. -/
theorem follows_handleJoin (hR : Passes R) (htask : CoversTasks env run R)
    (hjoined : ∀ names results w, R w [.joined names results] w) (config : String) (parsedTargets : Option (List String))
    (input : Value) : Prog.Follows R (handleJoin env run config parsedTargets input) :=
  Prog.follows_bind hR.chain (Prog.follows_ofExcept hR.chain _) fun _ =>
    Prog.follows_bind hR.chain (follows_joinTasks hR htask _ _) fun _ =>
      Prog.follows_bind hR.chain (Prog.follows_emit (hjoined _ _)) fun _ => Prog.follows_pure hR.chain _

/-! ## Regular steps -/

/-- What covers the handlers covers the core of a step. -/
theorem CoversHandler.core (h : CoversHandler env run R) : CoversCore env run R :=
  { toFrames := h.frames
    runs := h.runs.nested
    joins := follows_handleJoin h.toPasses h.tasks h.joined
    spawns := fun _ _ _ _ _ _ =>
      Prog.follows_bind h.chain (Prog.follows_emit (h.spawned _ _)) fun _ => Prog.follows_modify fun _ => h.quiet rfl
    invokes := follows_invoke h.frames h.records h.runs h.invoked h.others h.cache }

/-- The core logic is covered, whichever way the step is executed. -/
theorem follows_runCoreLogic (h : CoversCore env run R) (s : RegularStep) (ctx : StepContext) (mode : ExecutionMode)
    (config : String) (input : Value) (target : Option String) :
    Prog.Follows R (runCoreLogic env run s ctx mode config input target) := by
  unfold runCoreLogic
  split
  · exact Prog.follows_bind h.chain (h.joins _ _ _) fun _ => Prog.follows_pure h.chain _
  · exact Prog.follows_bind h.chain (follows_handleRecursivePipeline h.chain h.runs _ _ _ _) fun _ =>
      Prog.follows_pure h.chain _
  · refine Prog.follows_bind h.chain ?_ fun _ => Prog.follows_pure h.chain _
    exact Prog.follows_bind h.chain (h.invokes _ _ _ _ _) fun _ => Prog.follows_pure h.chain _

theorem follows_logPipelineCall (hR : Frames R) (effName config : String) (input : Value) :
    Prog.Follows R (logPipelineCall effName config input : Exec σ Unit) := by
  unfold logPipelineCall
  split
  · exact follows_modifyReq hR fun _ => ⟨rfl, rfl, rfl, rfl, rfl⟩
  · exact Prog.follows_pure hR.chain _

/-- The core of a step is covered. -/
theorem follows_executeCore (h : CoversCore env run R) (s : RegularStep) (ctx : StepContext) (mode : ExecutionMode)
    (isLastStep : Bool) : Prog.Follows R (executeCore env run s ctx mode isLastStep) :=
  Prog.follows_bind h.chain (follows_logPipelineCall h.toFrames _ _ _) fun _ =>
    Prog.follows_bind h.chain (follows_runCoreLogic h _ _ _ _ _ _) fun _ => Prog.follows_pure h.chain _

/-- A regular step is covered. -/
theorem follows_executeRegular (h : CoversCore env run R) (s : RegularStep) (ctx : StepContext) :
    Prog.Follows R (executeRegular env run s ctx) := by
  refine Prog.follows_bind h.chain (Prog.follows_gets h.chain _) fun runs => ?_
  split
  · refine Prog.follows_bind h.chain (Prog.follows_gets h.chain _) fun isLastStep => ?_
    cases detectExecutionMode (effectiveName env s) s.condition with
    | async name => exact Prog.follows_bind h.chain (h.spawns _ _ _ _ _ _) fun _ => Prog.follows_pure h.chain _
    | standard => exact follows_executeCore h s ctx _ _
    | join => exact follows_executeCore h s ctx _ _
    | recursive => exact follows_executeCore h s ctx _ _
  · exact Prog.follows_pure h.chain _

/-- Every kind of step is covered when its core is. -/
theorem follows_dispatchCore (h : CoversCore env run R) (step : PipelineStep) (ctx : StepContext) :
    Prog.Follows R (dispatchStep env run step ctx) := by
  unfold dispatchStep
  cases step with
  | regular s => exact follows_executeRegular h s ctx
  | result branches location => exact follows_handleResultStep h.chain h.runs branches ctx
  | ifStep condition thenBranch elseBranch location =>
    exact follows_handleIfStep h.chain h.runs condition thenBranch elseBranch ctx
  | dispatch branches default location => exact follows_handleDispatchStep h.chain h.runs branches default ctx
  | foreach selector pipeline location => exact follows_handleForeachStep h.chain h.runs selector pipeline ctx

/-- Every kind of step is covered when the handlers are. -/
theorem follows_dispatchStep (h : CoversHandler env run R) (step : PipelineStep) (ctx : StepContext) :
    Prog.Follows R (dispatchStep env run step ctx) :=
  follows_dispatchCore h.core step ctx

/-! ## One executed step -/

/-- The debugger hook logs nothing and leaves the profiler alone; it fails with an error of its own, or changes the state and nothing else
of the context. -/
theorem handleDebuggerBefore_eq_some {step : PipelineStep} {name : String} {ctx : StepContext} {w w' : World σ}
    {r : Except Failure StepContext} {l : List Event}
    (h : handleDebuggerBefore env step name ctx w = some (r, w', l)) :
    l = [] ∧ w'.cache = w.cache ∧ w'.reqCtx.profiler = w.reqCtx.profiler ∧ ((∃ message, r = .error (.err (.plain .debuggerError message))) ∨
      ∃ state, r = .ok (ctx.withState state)) := by
  unfold handleDebuggerBefore at h
  cases hdbg : env.debugger with
  | none =>
    rw [hdbg] at h
    cases h
    exact ⟨rfl, rfl, rfl, Or.inr ⟨_, rfl⟩⟩
  | some dbg =>
    rw [hdbg] at h
    obtain ⟨_, hu, -⟩ | ⟨out, w₁, l₁, l₂, hu, hrest, rfl⟩ := Prog.bind_eq_some h
    · cases hu
    obtain ⟨-, rfl, rfl⟩ := Prog.update_eq_some hu
    rcases out with message | ⟨mode, state⟩
    · cases hrest
      exact ⟨rfl, rfl, rfl, Or.inl ⟨_, rfl⟩⟩
    · dsimp only at hrest
      rw [Exec.modifyReq, Prog.modify_bind] at hrest
      cases hrest
      exact ⟨rfl, rfl, rfl, Or.inr ⟨_, rfl⟩⟩

/-- An executed step: its debugger hook failed, or its handler ran on the context the hook left and was settled. -/
theorem executeStep_eq_some {step : PipelineStep} {ctx : StepContext} {w w' : World σ}
    {r : Except Failure (StepOutcome × StepContext)} {l : List Event}
    (h : executeStep env run step ctx w = some (r, w', l)) :
    (∃ message, r = .error (.err (.plain .debuggerError message)) ∧ l = [] ∧ w'.cache = w.cache) ∨
      ∃ state w₁ raw w₂ l₁, dispatchStep env run step (ctx.withState state) w₁ = some (raw, w₂, l₁) ∧
        w₁.cache = w.cache ∧ w'.cache = w₂.cache ∧ r = settle step (ctx.withState state) raw ∧
        l = l₁ ++ [.settled step state (failureOf raw) (r.map stateAfter)] := by
  unfold executeStep at h
  rw [Exec.modifyReq, Prog.modify_bind] at h
  obtain ⟨e, hd, rfl⟩ | ⟨ctx₁, w₁, l₁, l₂, hd, hrest, rfl⟩ := Prog.bind_eq_some h
  · obtain ⟨rfl, hc, -, ⟨message, he⟩ | ⟨state, he⟩⟩ := handleDebuggerBefore_eq_some hd
    · cases he
      exact Or.inl ⟨message, rfl, rfl, hc⟩
    · cases he
  · obtain ⟨rfl, hc, -, ⟨message, he⟩ | ⟨state, he⟩⟩ := handleDebuggerBefore_eq_some hd
    · cases he
    cases he
    obtain ⟨_, ha, -⟩ | ⟨raw, w₂, l₃, l₄, ha, hend, rfl⟩ := Prog.bind_eq_some hrest
    · obtain ⟨_, he, -⟩ := Prog.attempt_eq_some ha
      cases he
    obtain ⟨raw', he, hdispatch⟩ := Prog.attempt_eq_some ha
    obtain rfl : raw = raw' := Except.ok.inj he
    obtain ⟨l₅, hlast, rfl⟩ := Prog.emit_bind_eq_some hend
    rw [Exec.modifyReq, Prog.modify_bind] at hlast
    obtain ⟨hr, hw, rfl⟩ := Prog.ofExcept_eq_some hlast
    refine Or.inr ⟨state, w₁, raw, w₂, l₃, hdispatch, hc, ?_, hr, ?_⟩
    · rw [hw]
    · rw [hr]
      rfl

/-- A step is covered, with its debugger and with what settles it. -/
theorem follows_executeStep (h : Covers env run R) (step : PipelineStep) (ctx : StepContext) :
    Prog.Follows R (executeStep env run step ctx) := by
  intro w r w' l hx
  obtain ⟨message, rfl, rfl, hc⟩ | ⟨state, w₁, raw, w₂, l₁, hd, hc₁, hc₂, rfl, rfl⟩ := executeStep_eq_some hx
  · exact h.quiet hc
  · have hhandler := h.trans (h.quiet hc₁) (follows_dispatchStep h.toCoversHandler _ _ _ _ _ _ hd)
    have hend := h.trans (h.settled _ _ _ _ _ _ w₂ hd) (h.quiet hc₂)
    exact h.trans hhandler hend

end WebPipe

import WebPipe.Lemmas.Blind
import WebPipe.Lemmas.Loop

/-!
# Joins

What a `join` step takes from the tasks of its request and what it delivers, and the state it leaves: the results of this join under
`async`, and nothing of an earlier one.
-/

namespace WebPipe

variable {σ : Type} {env : ExecutionEnv σ} {run : RunFn σ}

/-! ## Deliveries -/

/-- What a join delivers of the outcome of a task: its value, or the text of its error or panic. -/
def outcomeValue (env : ExecutionEnv σ) : Except Failure (Value × Profiler) → Value
  | .ok (value, _) => value
  | .error (.err e) => .object [("error", .string e.display)]
  | .error .panic => .object [("error", .string s!"Task panicked: {env.joinErrorText}")]

/-- The samples of a task that succeeded become samples of the request. -/
def mergeSamples (taskName : String) : Except Failure (Value × Profiler) → Exec σ Unit
  | .ok (_, profiler) => Exec.modifyReq fun c =>
      { c with profiler := { c.profiler with
          samples := c.profiler.samples ++ profiler.samples.map (taskSample c.profiler.stack taskName) } }
  | .error _ => pure ()

/-- Await one task that was taken. -/
def awaitTask (env : ExecutionEnv σ) (run : RunFn σ) (taskName : String) (task : AsyncTask) : Exec σ Value := do
  let outcome ← runTask env run taskName task
  mergeSamples taskName outcome
  pure (outcomeValue env outcome)

theorem joinTasks_cons (taskName : String) (rest : List String) (results : Object) :
    joinTasks env run (taskName :: rest) results = (do
      let task ← Prog.update fun w =>
        ((w.reqCtx.takeTask taskName).1, { w with reqCtx := (w.reqCtx.takeTask taskName).2 })
      match task with
      | none => joinTasks env run rest results
      | some task => do
        let value ← awaitTask env run taskName task
        joinTasks env run rest (IndexMap.insert results taskName value)) := by
  rw [joinTasks]
  refine bind_congr fun task => ?_
  cases task with
  | none => rfl
  | some task =>
    dsimp only
    unfold awaitTask
    rw [bind_assoc]
    refine bind_congr fun outcome => ?_
    rcases outcome with (e | _) | ⟨value, profiler⟩
    · simp only [mergeSamples, outcomeValue, pure_bind]
    · simp only [mergeSamples, outcomeValue, pure_bind]
    · simp only [mergeSamples, outcomeValue, bind_assoc, pure_bind]

/-- Some run of the task has the value as its outcome. -/
def OutcomeOf (env : ExecutionEnv σ) (run : RunFn σ) (task : AsyncTask) (v : Value) : Prop :=
  ∃ name w w' outcome, Prog.Ends (runTask env run name task) w (.ok outcome) w' ∧ v = outcomeValue env outcome

/-- A task always has an outcome when it ends, and leaves the tasks of its request. -/
theorem runTask_eq_some {name : String} {task : AsyncTask} {w w' : World σ} {r : Except Failure (Except Failure (Value × Profiler))}
    {l : List Event} (h : runTask env run name task w = some (r, w', l)) :
    ∃ outcome, r = .ok outcome ∧ w'.reqCtx = w.reqCtx := by
  obtain ⟨w₁, hin, rfl⟩ := Prog.within_eq_some h
  obtain ⟨f, ha, rfl⟩ | ⟨_, w₂, l₁, l₂, -, hrest, -⟩ := Prog.bind_eq_some hin
  · unfold allocateThread at ha
    cases hd : env.debugger with
    | none =>
      rw [hd] at ha
      cases ha
    | some dbg =>
      rw [hd] at ha
      cases ha
  · obtain ⟨f, ha, -⟩ | ⟨raw, w₃, l₃, l₄, -, hend, -⟩ := Prog.bind_eq_some hrest
    · obtain ⟨raw, he, -⟩ := Prog.attempt_eq_some ha
      cases he
    · rw [Exec.req, Prog.gets_bind] at hend
      cases hend
      exact ⟨_, rfl, rfl⟩

theorem awaitTask_eq_some {name : String} {task : AsyncTask} {w w' : World σ} {r : Except Failure Value} {l : List Event}
    (h : awaitTask env run name task w = some (r, w', l)) :
    ∃ v, r = .ok v ∧ OutcomeOf env run task v ∧ w'.reqCtx.asyncRegistry = w.reqCtx.asyncRegistry := by
  obtain ⟨f, ht, -⟩ | ⟨outcome, w₁, l₁, l₂, ht, hrest, -⟩ := Prog.bind_eq_some h
  · obtain ⟨_, he, -⟩ := runTask_eq_some ht
    cases he
  · obtain ⟨_, he, hctx⟩ := runTask_eq_some ht
    cases he
    have hout : OutcomeOf env run task (outcomeValue env outcome) := ⟨name, w, w₁, outcome, ⟨_, ht⟩, rfl⟩
    rcases outcome with e | ⟨value, profiler⟩
    · cases hrest
      exact ⟨_, rfl, hout, by rw [hctx]⟩
    · cases hrest
      exact ⟨_, rfl, hout, by rw [← hctx]⟩

/-- What a join of names adds to the results so far: one outcome of each task that is registered under one of them. -/
def DeliversTo (env : ExecutionEnv σ) (run : RunFn σ) (registry : String → Option AsyncTask) (names : List String)
    (results results' : Object) : Prop :=
  ∀ n, IndexMap.get results' n = IndexMap.get results n ∧ (n ∉ names ∨ registry n = none) ∨
    ∃ task v, n ∈ names ∧ registry n = some task ∧ IndexMap.get results' n = some v ∧ OutcomeOf env run task v

/-- A name without a task is passed over. -/
theorem DeliversTo.pass {registry registry' : String → Option AsyncTask} {name : String} {names : List String}
    {results results' : Object} (h : DeliversTo env run registry' names results results')
    (htaken : ∀ n, registry' n = if n = name then none else registry n) (hnone : registry name = none) :
    DeliversTo env run registry (name :: names) results results' := by
  intro n
  rcases h n with ⟨hsame, hno⟩ | ⟨task, v, hin, hsome, hv⟩
  · refine Or.inl ⟨hsame, ?_⟩
    by_cases hn : n = name
    · exact Or.inr (hn ▸ hnone)
    · rw [htaken, if_neg hn] at hno
      exact hno.imp_left fun hno hin => (List.mem_cons.mp hin).elim hn hno
  · rw [htaken, Option.ite_none_left_eq_some] at hsome
    exact Or.inr ⟨task, v, List.mem_cons_of_mem _ hin, hsome.2, hv⟩

/-- A task that is taken adds its outcome under its name, and no later task is under the name. -/
theorem DeliversTo.take {registry registry' : String → Option AsyncTask} {name : String} {names : List String}
    {results results' : Object} {task : AsyncTask} {v : Value}
    (h : DeliversTo env run registry' names (IndexMap.insert results name v) results')
    (htaken : ∀ n, registry' n = if n = name then none else registry n) (hsome : registry name = some task)
    (hout : OutcomeOf env run task v) : DeliversTo env run registry (name :: names) results results' := by
  intro n
  by_cases hn : n = name
  · subst hn
    rcases h n with ⟨hsame, -⟩ | ⟨task', v', -, hsome', -⟩
    · rw [IndexMap.get_insert_self] at hsame
      exact Or.inr ⟨task, v, List.mem_cons_self, hsome, hsame, hout⟩
    · rw [htaken, if_pos rfl] at hsome'
      cases hsome'
  · rcases h n with ⟨hsame, hno⟩ | ⟨task', v', hin, hsome', hv'⟩
    · rw [IndexMap.get_insert_of_ne _ _ hn] at hsame
      rw [htaken, if_neg hn] at hno
      exact Or.inl ⟨hsame, hno.imp_left fun hno hin => (List.mem_cons.mp hin).elim hn hno⟩
    · rw [htaken, if_neg hn] at hsome'
      exact Or.inr ⟨task', v', List.mem_cons_of_mem _ hin, hsome', hv'⟩

/-- A join takes every task that it names, and delivers one outcome of each that was registered. -/
theorem joinTasks_eq_some {names : List String} {results : Object} {w w' : World σ} {r : Except Failure Object} {l : List Event}
    (h : joinTasks env run names results w = some (r, w', l)) :
    ∃ results', r = .ok results' ∧
      (∀ n, w'.reqCtx.asyncRegistry n = if n ∈ names then none else w.reqCtx.asyncRegistry n) ∧
      DeliversTo env run w.reqCtx.asyncRegistry names results results' := by
  induction names generalizing results w l with
  | nil =>
    cases h
    exact ⟨results, rfl, fun n => by simp, fun n => Or.inl ⟨rfl, Or.inl (by simp)⟩⟩
  | cons name names ih =>
    rw [joinTasks_cons, Prog.update_bind] at h
    dsimp only at h
    have hmem : ∀ n, (if n ∈ name :: names then none else w.reqCtx.asyncRegistry n) =
        if n ∈ names then none else if n = name then none else w.reqCtx.asyncRegistry n := by
      intro n
      by_cases h1 : n = name
      · simp [h1]
      · by_cases h2 : n ∈ names <;> simp [h1, h2]
    cases htask : (w.reqCtx.takeTask name).1 with
    | none =>
      rw [htask] at h
      obtain ⟨results', rfl, hreg, hdelivers⟩ := ih h
      exact ⟨results', rfl, fun n => (hreg n).trans (hmem n).symm, hdelivers.pass (fun _ => rfl) htask⟩
    | some task =>
      rw [htask] at h
      obtain ⟨f, ha, -⟩ | ⟨v, w₁, l₁, l₂, ha, hrest, -⟩ := Prog.bind_eq_some h
      · obtain ⟨_, he, -⟩ := awaitTask_eq_some ha
        cases he
      obtain ⟨_, he, hout, hregs⟩ := awaitTask_eq_some ha
      cases he
      obtain ⟨results', rfl, hreg, hdelivers⟩ := ih hrest
      have htaken : ∀ n, w₁.reqCtx.asyncRegistry n = if n = name then none else w.reqCtx.asyncRegistry n := by
        intro n
        rw [hregs]
        rfl
      refine ⟨results', rfl, fun n => ?_, hdelivers.take htaken htask hout⟩
      rw [hreg n, htaken n, hmem n]

/-! ## The state after a join -/

/-- What a join returns for its input. -/
def joinValue (input : Value) (results : Object) : Value :=
  match input with
  | .object members => .object (IndexMap.insert members "async" (.object results))
  | _ => input

/-- Where a `join` step leaves its pipeline. -/
def afterJoin (env : ExecutionEnv σ) (s : RegularStep) (ctx : StepContext) (isLastStep : Bool) (results : Object) :
    StepOutcome × StepContext :=
  let resolved := resolveConfigAndAutoname env s.location (effectiveName env s) (rawConfig env s) ctx.pipeCtx.state
  let ctx := if resolved.2.2 then ctx.withState resolved.2.1 else ctx
  let target := determineTargetName s.condition ctx.pipeCtx.state resolved.2.2
  finishRegular env s ctx
    { state := joinValue resolved.2.1 results, contentType := "application/json", statusCode := none } target.1 target.2 isLastStep

/-- A `join` step finds its names, takes their tasks, and leaves its results in the state. -/
theorem executeCore_join {s : RegularStep} (hname : effectiveName env s = "join") (ctx : StepContext) (isLastStep : Bool) :
    executeCore env run s ctx .join isLastStep = (do
      let names ← Prog.ofExcept ((joinTaskNames env (resolvedConfig env s) s.parsedJoinTargets).mapError .err)
      let results ← joinTasks env run names []
      Prog.emit (.joined names results)
      pure (afterJoin env s ctx isLastStep results)) := by
  have hconfig : (resolveConfigAndAutoname env s.location (effectiveName env s) (rawConfig env s) ctx.pipeCtx.state).1 =
      resolvedConfig env s := resolveConfig_fst _ _ _ _ _
  have hlog : ∀ config input, (logPipelineCall (effectiveName env s) config input : Exec σ Unit) = pure () := by
    intro config input
    unfold logPipelineCall
    rw [hname]
    rfl
  unfold executeCore afterJoin
  dsimp only
  generalize resolveConfigAndAutoname env s.location (effectiveName env s) (rawConfig env s) ctx.pipeCtx.state = resolved
    at hconfig ⊢
  obtain ⟨config, input, autoNamed⟩ := resolved
  dsimp only at hconfig ⊢
  rw [hlog, pure_bind, hconfig]
  generalize (if autoNamed = true then ctx.withState input else ctx) = ctx'
  unfold runCoreLogic handleJoin
  simp only [bind_assoc, pure_bind]
  rfl

/-- The input of a step is its state, with a result name where its config is a variable. -/
theorem resolveConfig_object (env : ExecutionEnv σ) (loc : SourceLocation) (name config : String) (members : Object) :
    ∃ input, (resolveConfigAndAutoname env loc name config (.object members)).2.1 = .object input ∧
      (input = members ∨ (resolveConfigAndAutoname env loc name config (.object members)).2.2 = true ∧
        ∃ v, input = IndexMap.insert members "resultName" v) ∧
      ((resolveConfigAndAutoname env loc name config (.object members)).2.2 = false → input = members) := by
  unfold resolveConfigAndAutoname
  cases referencedVariable env loc name config with
  | none => exact ⟨members, rfl, Or.inl rfl, fun _ => rfl⟩
  | some var =>
    dsimp only
    split
    · exact ⟨members, rfl, Or.inl rfl, fun _ => rfl⟩
    · exact ⟨_, rfl, Or.inr ⟨rfl, _, rfl⟩, fun h => absurd h (by simp)⟩

/-- The result of a join is merged into the state, whatever its target. -/
theorem applyResultToState_join (hmerge : (env.getBehavior "join").getD .merge = .merge) (pipeCtx : PipelineContext) (value : Value)
    (target : Option String) (isLastStep : Bool) :
    applyResultToState env pipeCtx "join" value target isLastStep = pipeCtx.mergeState value := by
  have hwraps : ¬ (("join" = "pg" ∨ "join" = "fetch" ∨ "join" = "graphql") ∧ (extractErrorType value).isNone = true) :=
    fun h => absurd h.1 (by decide)
  unfold applyResultToState
  rw [hmerge]
  cases target with
  | none => rfl
  | some name =>
    dsimp only
    rw [if_neg hwraps]
    rfl

/-- An `@error` tag changes the errors of the value that a join returns, and no results. -/
theorem overrideErrorType_joined {input : Object} (hkeys : IndexMap.Distinct input) (results : Object) (e : Option String) :
    ∃ value, overrideErrorType (joinValue (.object input) results) e = .object value ∧ IndexMap.Distinct value ∧
      IndexMap.get value "async" = some (.object results) := by
  have hjoined := hkeys.insert "async" (.object results)
  cases e with
  | none => exact ⟨_, rfl, hjoined, IndexMap.get_insert_self _ _ _⟩
  | some e =>
    refine ⟨_, rfl, hjoined.modify _ _, ?_⟩
    rw [IndexMap.get_modify_of_ne _ _ (by decide), IndexMap.get_insert_self]

/-- After a join the state has its results, and only these, under `async`. -/
theorem afterJoin_state {s : RegularStep} (hname : effectiveName env s = "join")
    (hmerge : (env.getBehavior "join").getD .merge = .merge) {ctx : StepContext} {members : Object}
    (hstate : ctx.pipeCtx.state = .object members) (hkeys : IndexMap.Distinct members) (hhit : ctx.pipeCtx.cacheHit = none)
    (isLastStep : Bool) (results : Object) :
    ∃ after ctx', afterJoin env s ctx isLastStep results = (.continue, ctx') ∧ ctx'.pipeCtx.state = .object after ∧
      IndexMap.Distinct after ∧ IndexMap.get after "async" = some (.object results) ∧ ctx'.pipeCtx.cacheHit = none ∧
      ctx'.pipeCtx.pendingCacheSaves = ctx.pipeCtx.pendingCacheSaves := by
  obtain ⟨input, hinput, hcases, hsame⟩ :=
    resolveConfig_object env s.location (effectiveName env s) (rawConfig env s) members
  have hdistinct : IndexMap.Distinct input := by
    rcases hcases with rfl | ⟨-, v, rfl⟩
    · exact hkeys
    · exact hkeys.insert _ _
  unfold afterJoin
  rw [hstate]
  generalize resolveConfigAndAutoname env s.location (effectiveName env s) (rawConfig env s) (.object members) = resolved
    at hinput hsame ⊢
  obtain ⟨config, value, autoNamed⟩ := resolved
  dsimp only at hinput hsame ⊢
  rw [hinput]
  -- the state that the results enter is the input in both cases
  have hctx : ∃ ctx₁ : StepContext, (if autoNamed = true then ctx.withState (.object input) else ctx) = ctx₁ ∧
      ctx₁.pipeCtx.state = .object input ∧ ctx₁.pipeCtx.cacheHit = none ∧
      ctx₁.pipeCtx.pendingCacheSaves = ctx.pipeCtx.pendingCacheSaves := by
    cases autoNamed with
    | true => exact ⟨_, rfl, rfl, hhit, rfl⟩
    | false => exact ⟨_, rfl, hsame rfl ▸ hstate, hhit, rfl⟩
  obtain ⟨ctx₁, hctx₁, hstate₁, hhit₁, hsaves₁⟩ := hctx
  rw [hctx₁]
  generalize determineTargetName s.condition ctx₁.pipeCtx.state autoNamed = target
  obtain ⟨target, cleanup⟩ := target
  obtain ⟨value, hvalue, hvalueKeys, hvalueAsync⟩ :=
    overrideErrorType_joined hdistinct results (s.condition.bind getErrorFromTagExpr)
  have hmerged : ctx₁.pipeCtx.mergeState (.object value) = { ctx₁.pipeCtx with state := .object (IndexMap.insertAll input value) } := by
    unfold PipelineContext.mergeState
    rw [hstate₁]
  have hafter : IndexMap.Distinct (IndexMap.insertAll input value) := hdistinct.insertAll _
  have hasync : IndexMap.get (IndexMap.insertAll input value) "async" = some (.object results) := by
    rw [IndexMap.get_insertAll hvalueKeys, hvalueAsync, Option.some_or]
  unfold finishRegular
  dsimp only
  rw [hvalue, hname, applyResultToState_join hmerge, hmerged, hhit₁]
  cases cleanup with
  | false => exact ⟨_, _, rfl, rfl, hafter, hasync, rfl, hsaves₁⟩
  | true =>
    refine ⟨_, _, rfl, rfl, hafter.swapRemove _, ?_, rfl, hsaves₁⟩
    rw [IndexMap.get_swapRemove_of_ne hafter (by decide), hasync]

end WebPipe

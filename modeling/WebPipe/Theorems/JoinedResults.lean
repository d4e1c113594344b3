import WebPipe.Lemmas.RunCalls
import WebPipe.Theorems.AsyncTransparency
import WebPipe.Theorems.TaskDelivery

/-!
# The results of several joins

Every join makes a new `async` of its own results, and the merge puts it in the place of the one in the state. So a later join of a
pipeline loses what an earlier one delivered: results accumulate exactly when only the last join of a run finds a task.
-/

namespace WebPipe

variable {σ : Type} {env : ExecutionEnv σ} {run : RunFn σ}

/-! ## A join in the log -/

/-- The event ends a join. -/
def Event.IsJoined : Event → Prop
  | .joined _ _ => True
  | _ => False

/-- The state that a join's step leaves: its results under `async` where it worked on an object, and none where it did not. -/
def JoinLeaves (before : Value) (results : Object) (after : Value) : Prop :=
  match before with
  | .object members => IndexMap.Distinct members → ∀ n, asyncResult after n = IndexMap.get results n
  | _ => ∀ n, asyncResult after n = none

/-- Every join in the log is followed by the end of its step. -/
def JoinsSettle (l : List Event) : Prop :=
  ∀ a names results b, l = a ++ .joined names results :: b → ∃ step before after b',
    b = .settled step before none (.ok after) :: b' ∧ JoinLeaves before results after

/-- A log without joins has nothing to settle. -/
theorem joinsSettle_of_none {l : List Event} (h : ∀ e ∈ l, ¬ e.IsJoined) : JoinsSettle l := by
  rintro a names results b rfl
  exact absurd trivial (h (.joined names results) (List.mem_append_right _ List.mem_cons_self))

/-- Two logs whose joins are settled are settled together. -/
theorem JoinsSettle.append {l₁ l₂ : List Event} (h₁ : JoinsSettle l₁) (h₂ : JoinsSettle l₂) : JoinsSettle (l₁ ++ l₂) := by
  intro a names results b he
  rcases List.append_eq_append_iff.mp he with ⟨c, rfl, hc⟩ | ⟨c, rfl, hb⟩
  · exact h₂ c names results b hc
  · cases c with
    | nil => exact h₂ [] names results b hb.symm
    | cons e c =>
      obtain ⟨rfl, rfl⟩ := List.cons.inj hb
      obtain ⟨step, before, after, b', rfl, hleaves⟩ := h₁ a names results c rfl
      exact ⟨step, before, after, b' ++ l₂, rfl, hleaves⟩

/-- The log ends no join. -/
def NoneJoined (_ : World σ) (l : List Event) (_ : World σ) : Prop := ∀ e ∈ l, ¬ e.IsJoined

/-- Logs without joins add up to one. -/
theorem passes_noneJoined : Passes (NoneJoined : World σ → List Event → World σ → Prop) := passes_emits _

theorem coversCache_noneJoined : CoversCache (NoneJoined : World σ → List Event → World σ → Prop) := by
  intro own w now c
  simp [NoneJoined, Event.IsJoined]

/-- A nested run is an event of its own. -/
theorem coversRuns_noneJoined : CoversRuns run NoneJoined := by
  intro entry pipeline input inner result w w' h
  simp [NoneJoined, Event.IsJoined]

/-- So is the run of a task. -/
theorem coversTasks_noneJoined : CoversTasks env run NoneJoined := by
  intro name task inner r w w' h
  simp [NoneJoined, Event.IsJoined]

/-- On a state that is no object a join leaves the state, and its results are nowhere. -/
theorem afterJoin_other {s : RegularStep} (hname : effectiveName env s = "join")
    (hmerge : (env.getBehavior "join").getD .merge = .merge) {ctx : StepContext}
    (hstate : ∀ members, ctx.pipeCtx.state ≠ .object members) (hhit : ctx.pipeCtx.cacheHit = none) (isLastStep : Bool)
    (results : Object) :
    ∃ ctx', afterJoin env s ctx isLastStep results = (.continue, ctx') ∧ ctx'.pipeCtx.state = ctx.pipeCtx.state := by
  have hresolved : ∃ config, resolveConfigAndAutoname env s.location (effectiveName env s) (rawConfig env s) ctx.pipeCtx.state =
      (config, ctx.pipeCtx.state, false) := by
    unfold resolveConfigAndAutoname
    split
    · exact ⟨_, rfl⟩
    · split
      · next members h => exact absurd h (hstate members)
      · exact ⟨_, rfl⟩
  have hjoin : joinValue ctx.pipeCtx.state results = ctx.pipeCtx.state := by
    unfold joinValue
    split
    · next members h => exact absurd h (hstate members)
    · rfl
  have hoverride : ∀ e, overrideErrorType ctx.pipeCtx.state e = ctx.pipeCtx.state := by
    intro e
    unfold overrideErrorType
    cases e with
    | none => rfl
    | some e =>
      dsimp only
      split
      · next members h => exact absurd h (hstate members)
      · rfl
  have hmerged : ctx.pipeCtx.mergeState ctx.pipeCtx.state = ctx.pipeCtx := by
    unfold PipelineContext.mergeState
    split
    · next members _ h _ => exact absurd h (hstate members)
    · rfl
  obtain ⟨config, hresolved⟩ := hresolved
  unfold afterJoin finishRegular
  dsimp only
  rw [hresolved]
  dsimp only
  rw [if_neg Bool.false_ne_true, hjoin, hoverride, hname, applyResultToState_join hmerge, hmerged, hhit]
  refine ⟨_, rfl, ?_⟩
  dsimp only
  split
  · unfold removeResultName
    split
    · next members h => exact absurd h (hstate members)
    · rfl
  · rfl

/-- A `join` step leaves what its join delivered where it worked on an object. -/
theorem afterJoin_leaves {s : RegularStep} (hname : effectiveName env s = "join")
    (hmerge : (env.getBehavior "join").getD .merge = .merge) {ctx : StepContext} (hhit : ctx.pipeCtx.cacheHit = none)
    (isLastStep : Bool) (results : Object) :
    JoinLeaves ctx.pipeCtx.state results (stateAfter (afterJoin env s ctx isLastStep results)) := by
  by_cases hobject : ∃ members, ctx.pipeCtx.state = .object members
  · obtain ⟨members, hstate⟩ := hobject
    rw [hstate]
    intro hkeys n
    obtain ⟨after, ctx', hafter, hstate', -, hasync, -, -⟩ := afterJoin_state hname hmerge hstate hkeys hhit isLastStep results
    rw [hafter]
    change asyncResult ctx'.pipeCtx.state n = _
    have hget : Value.get (.object after) "async" = some (.object results) := hasync
    unfold asyncResult
    rw [hstate', hget]
    rfl
  · have hstate : ∀ members, ctx.pipeCtx.state ≠ .object members := fun members h => hobject ⟨members, h⟩
    obtain ⟨ctx', hafter, hsame⟩ := afterJoin_other hname hmerge hstate hhit isLastStep results
    rw [hafter]
    have hnone : ∀ n, asyncResult ctx'.pipeCtx.state n = none := by
      intro n
      unfold asyncResult
      rw [hsame]
      cases hv : ctx.pipeCtx.state with
      | object members => exact absurd hv (hstate members)
      | _ => rfl
    cases hv : ctx.pipeCtx.state with
    | object members => exact absurd hv (hstate members)
    | _ => exact hnone

/-- A step in another mode than `join` ends no join of its run. -/
theorem runCoreLogic_noneJoined {s : RegularStep} {ctx : StepContext} {mode : ExecutionMode} (hmode : mode ≠ .join)
    (config : String) (input : Value) (target : Option String) :
    Prog.Follows NoneJoined (runCoreLogic env run s ctx mode config input target) := by
  have hpasses : Passes (NoneJoined : World σ → List Event → World σ → Prop) := passes_noneJoined
  have hstandard : ∀ temp : PipelineContext, Prog.Follows NoneJoined
      (handleStandardExecution env run (effectiveName env s) s.args config temp target) := fun temp =>
    Prog.follows_bind hpasses.chain (follows_invoke hpasses.frames hpasses.records coversRuns_noneJoined
      (by simp [NoneJoined, Event.IsJoined]) hpasses.others coversCache_noneJoined _ _ _ _ _) fun _ =>
      Prog.follows_pure hpasses.chain _
  cases mode with
  | join => exact absurd rfl hmode
  | recursive =>
    exact Prog.follows_bind hpasses.chain (follows_handleRecursivePipeline hpasses.chain coversRuns_noneJoined.nested _ _ _ _) fun _ =>
      Prog.follows_pure hpasses.chain _
  | standard => exact Prog.follows_bind hpasses.chain (hstandard _) fun _ => Prog.follows_pure hpasses.chain _
  | async name => exact Prog.follows_bind hpasses.chain (hstandard _) fun _ => Prog.follows_pure hpasses.chain _

/-- How a step ends, as far as joins go: it ended none, or it is a join that ended last and left its results. -/
def StepJoins (ctx : StepContext) (raw : Except Failure (StepOutcome × StepContext)) (l : List Event) : Prop :=
  (∀ e ∈ l, ¬ e.IsJoined) ∨ ∃ l₁ names results p, l = l₁ ++ [.joined names results] ∧ (∀ e ∈ l₁, ¬ e.IsJoined) ∧ raw = .ok p ∧
    JoinLeaves ctx.pipeCtx.state results (stateAfter p)

/-- The core of a join step logs its join last, with the state that the results are put in. -/
theorem executeCore_join_joins {s : RegularStep} (hname : effectiveName env s = "join")
    (hmerge : (env.getBehavior "join").getD .merge = .merge) {ctx : StepContext} (hhit : ctx.pipeCtx.cacheHit = none)
    {isLastStep : Bool} {w w' : World σ} {raw : Except Failure (StepOutcome × StepContext)} {l : List Event}
    (h : executeCore env run s ctx .join isLastStep w = some (raw, w', l)) : StepJoins ctx raw l := by
  rw [executeCore_join hname] at h
  obtain ⟨f, hnames, rfl⟩ | ⟨names, w₁, l₁, l₂, hnames, hrest, rfl⟩ := Prog.bind_eq_some h
  · obtain ⟨-, -, rfl⟩ := Prog.ofExcept_eq_some hnames
    exact Or.inl nofun
  obtain ⟨-, -, rfl⟩ := Prog.ofExcept_eq_some hnames
  obtain ⟨f, htasks, rfl⟩ | ⟨results, w₂, l₃, l₄, htasks, hend, rfl⟩ := Prog.bind_eq_some hrest
  · obtain ⟨_, he, -⟩ := joinTasks_eq_some htasks
    cases he
  have hnone := follows_joinTasks passes_noneJoined coversTasks_noneJoined names [] _ _ _ _ htasks
  obtain ⟨l₅, hlast, rfl⟩ := Prog.emit_bind_eq_some hend
  rw [Prog.pure_apply] at hlast
  obtain ⟨rfl, rfl, rfl⟩ := (by simpa using hlast :
    Except.ok (afterJoin env s ctx isLastStep results) = raw ∧ w₂ = w' ∧ [] = l₅)
  exact Or.inr ⟨l₃, names, results, _, rfl, hnone, rfl, afterJoin_leaves hname hmerge hhit isLastStep results⟩

/-- A regular step logs a join only as its own. -/
theorem executeRegular_joins {s : RegularStep} (hmerge : (env.getBehavior "join").getD .merge = .merge) {ctx : StepContext}
    (hhit : ctx.pipeCtx.cacheHit = none) {w w' : World σ} {raw : Except Failure (StepOutcome × StepContext)} {l : List Event}
    (h : executeRegular env run s ctx w = some (raw, w', l)) : StepJoins ctx raw l := by
  have hpasses : Passes (NoneJoined : World σ → List Event → World σ → Prop) := passes_noneJoined
  have hcore : ∀ {mode : ExecutionMode}, mode ≠ .join → ∀ isLastStep,
      Prog.Follows NoneJoined (executeCore env run s ctx mode isLastStep) := fun hmode isLastStep =>
    Prog.follows_bind hpasses.chain (follows_logPipelineCall hpasses.frames _ _ _) fun _ =>
      Prog.follows_bind hpasses.chain (runCoreLogic_noneJoined hmode _ _ _) fun _ => Prog.follows_pure hpasses.chain _
  unfold executeRegular at h
  rw [Exec.req, Prog.gets_bind] at h
  split at h
  · rw [Exec.req, Prog.gets_bind] at h
    cases hmode : detectExecutionMode (effectiveName env s) s.condition with
    | async name =>
      rw [hmode] at h
      have hspawn : Prog.Follows NoneJoined (do
          spawnAsyncStep (effectiveName env s) s.args (rawConfig env s) s.location ctx.pipeCtx.state name
          pure (StepOutcome.continue, ctx) : Exec σ _) :=
        Prog.follows_bind hpasses.chain (Prog.follows_bind hpasses.chain
          (Prog.follows_emit (by simp [NoneJoined, Event.IsJoined])) fun _ => Prog.follows_modify fun _ => hpasses.quiet rfl)
          fun _ => Prog.follows_pure hpasses.chain _
      exact Or.inl (hspawn _ _ _ _ h)
    | join =>
      rw [hmode] at h
      have hname : effectiveName env s = "join" := by
        unfold detectExecutionMode at hmode
        split at hmode
        · cases hmode
        · split at hmode
          · assumption
          · split at hmode <;> cases hmode
      exact executeCore_join_joins hname hmerge hhit h
    | recursive =>
      rw [hmode] at h
      exact Or.inl (hcore (by decide) _ _ _ _ _ h)
    | standard =>
      rw [hmode] at h
      exact Or.inl (hcore (by decide) _ _ _ _ _ h)
  · cases h
    exact Or.inl (List.forall_mem_nil _)

/-- So does every step: only regular steps join. -/
theorem dispatchStep_joins {step : PipelineStep} (hmerge : (env.getBehavior "join").getD .merge = .merge) {ctx : StepContext}
    (hhit : ctx.pipeCtx.cacheHit = none) {w w' : World σ} {raw : Except Failure (StepOutcome × StepContext)} {l : List Event}
    (h : dispatchStep env run step ctx w = some (raw, w', l)) : StepJoins ctx raw l := by
  have hpasses : Passes (NoneJoined : World σ → List Event → World σ → Prop) := passes_noneJoined
  have hchain := hpasses.chain
  cases step with
  | regular s => exact executeRegular_joins hmerge hhit h
  | result branches location =>
    exact Or.inl (follows_handleResultStep hchain coversRuns_noneJoined.nested branches ctx _ _ _ _ h)
  | ifStep condition thenBranch elseBranch location =>
    exact Or.inl (follows_handleIfStep hchain coversRuns_noneJoined.nested condition thenBranch elseBranch ctx _ _ _ _ h)
  | dispatch branches default location =>
    exact Or.inl (follows_handleDispatchStep hchain coversRuns_noneJoined.nested branches default ctx _ _ _ _ h)
  | foreach selector pipeline location =>
    have hforeach : Prog.Follows NoneJoined (handleForeachStep run selector pipeline ctx) :=
      follows_handleForeachStep hchain coversRuns_noneJoined.nested selector pipeline ctx
    exact Or.inl (hforeach w raw w' l h)

/-- In the log of an executed step every join is followed by the end of the step. -/
theorem joinsSettle_executeStep {step : PipelineStep} (hmerge : (env.getBehavior "join").getD .merge = .merge) {ctx : StepContext}
    (hhit : ctx.pipeCtx.cacheHit = none) {w w' : World σ} {r : Except Failure (StepOutcome × StepContext)} {l : List Event}
    (h : executeStep env run step ctx w = some (r, w', l)) : JoinsSettle l := by
  obtain ⟨message, -, rfl, -⟩ | ⟨state, w₁, raw, w₂, l₁, hd, -, -, rfl, rfl⟩ := executeStep_eq_some h
  · exact joinsSettle_of_none nofun
  have hhit' : (ctx.withState state).pipeCtx.cacheHit = none := hhit
  rcases dispatchStep_joins hmerge hhit' hd with hnone | ⟨l₂, names, results, p, rfl, hnone, rfl, hleaves⟩
  · refine joinsSettle_of_none fun e he => ?_
    rcases List.mem_append.mp he with he | he
    · exact hnone e he
    · cases List.mem_singleton.mp he
      exact id
  · rw [List.append_assoc]
    refine JoinsSettle.append (joinsSettle_of_none hnone) ?_
    have hsettle : settle step (ctx.withState state) (.ok p) = .ok p := by
      unfold settle
      cases step <;> rfl
    rw [hsettle]
    intro a names' results' b he
    cases a with
    | nil =>
      cases he
      exact ⟨step, state, stateAfter p, [], rfl, hleaves⟩
    | cons e a =>
      obtain ⟨-, he⟩ := List.cons.inj he
      have hmem : Event.joined names' results' ∈ [Event.settled step state (failureOf (.ok p)) (.ok (stateAfter p))] := by
        change [Event.settled step state (failureOf (.ok p)) (.ok (stateAfter p))] = _ at he
        rw [he]
        exact List.mem_append_right a List.mem_cons_self
      cases List.mem_singleton.mp hmem

/-- The final saves join nothing. -/
theorem joinsSettle_saves {saves : List PendingCacheSave} {output : PipelineOutput} {w w' : World σ} {r : Except Failure Unit}
    {l : List Event} (h : runPendingCacheSaves saves output w = some (r, w', l)) : JoinsSettle l :=
  joinsSettle_of_none (follows_runPendingCacheSaves passes_noneJoined.frames coversCache_noneJoined _ _ _ _ _ _ h)

/-- One turn of the loop settles its join. -/
theorem joinsSettle_iterate (hmerge : (env.getBehavior "join").getD .merge = .merge) {s : LoopState}
    (hhit : s.pipeCtx.cacheHit = none) {steps : List PipelineStep} {idx : Nat} {step : PipelineStep} {w w' : World σ}
    {r : Except Failure (LoopState ⊕ PipelineOutput)} {l : List Event}
    (h : iterate env run steps idx step s w = some (r, w', l)) :
    JoinsSettle l ∧ ∀ s', r = .ok (.inl s') → s'.pipeCtx.cacheHit = none := by
  have hentered : JoinsSettle [.entered step s.pipeCtx.state] := joinsSettle_of_none (by simp [Event.IsJoined])
  cases iterate_turn h with
  | skip =>
    refine ⟨joinsSettle_of_none (by simp [Event.IsJoined]), fun s' hs' => ?_⟩
    cases hs'
    exact hhit
  | fail _ hx => exact ⟨hentered.append (joinsSettle_executeStep hmerge hhit hx), nofun⟩
  | next _ hx =>
    refine ⟨hentered.append (joinsSettle_executeStep hmerge hhit hx), fun s' hs' => ?_⟩
    cases hs'
    exact (executeStep_calls hhit hx).keeps.1
  | ret _ hx hsaves =>
    exact ⟨hentered.append ((joinsSettle_executeStep hmerge hhit hx).append (joinsSettle_saves hsaves)), nofun⟩
  | retFail _ hx hsaves =>
    exact ⟨hentered.append ((joinsSettle_executeStep hmerge hhit hx).append (joinsSettle_saves hsaves)), nofun⟩

/-- The loop settles all its joins: induction on the steps that are left. -/
theorem joinsSettle_loopSteps (hmerge : (env.getBehavior "join").getD .merge = .merge) {s : LoopState}
    (hhit : s.pipeCtx.cacheHit = none) {steps : List PipelineStep} {idx : Nat} {rest : List PipelineStep} {w w' : World σ}
    {r : Except Failure (LoopState ⊕ PipelineOutput)} {l : List Event}
    (h : loopSteps env run steps idx rest s w = some (r, w', l)) : JoinsSettle l := by
  induction rest generalizing idx s w l with
  | nil =>
    cases h
    exact joinsSettle_of_none nofun
  | cons step rest ih =>
    rw [loopSteps_cons] at h
    obtain ⟨f, hturn, rfl⟩ | ⟨turn, w₁, l₁, l₂, hturn, hrest, rfl⟩ := Prog.bind_eq_some h
    · exact (joinsSettle_iterate hmerge hhit hturn).1
    · obtain ⟨hsettle, hnext⟩ := joinsSettle_iterate hmerge hhit hturn
      cases turn with
      | inl s' => exact hsettle.append (ih (hnext s' rfl) hrest)
      | inr output =>
        cases hrest
        exact hsettle.append (joinsSettle_of_none nofun)

/-- In the log of a run every join is followed by the end of its step. -/
theorem joinsSettle_execute (hmerge : (env.getBehavior "join").getD .merge = .merge) {n : Nat} {pipeline : Pipeline} {input : Value}
    {handled : Option String} {w w' : World σ} {r : Except Failure PipelineOutput} {l : List Event}
    (h : executeWithErrorShortCircuit env n pipeline input handled w = some (r, w', l)) : JoinsSettle l := by
  obtain ⟨m, rfl⟩ := execute_pos h
  obtain ⟨f, hloop, rfl⟩ | ⟨last, w₁, l₁, l₂, hloop, hend, rfl⟩ := Prog.bind_eq_some h
  · exact joinsSettle_loopSteps hmerge rfl hloop
  · refine (joinsSettle_loopSteps hmerge rfl hloop).append ?_
    cases last with
    | inr output =>
      cases hend
      exact joinsSettle_of_none nofun
    | inl s =>
      obtain ⟨f, hsaves, -⟩ | ⟨_, w₂, l₃, l₄, hsaves, hret, rfl⟩ := Prog.bind_eq_some hend
      · exact joinsSettle_saves hsaves
      · cases hret
        exact (joinsSettle_saves hsaves).append (joinsSettle_of_none nofun)

/-! ## What accumulates -/

/-- After every join of a run the state has, under `async`, the result of every task joined so far in the run. -/
def ResultsAccumulate (l : List Event) : Prop :=
  ∀ a names results step before raised after b, l = a ++ .joined names results :: .settled step before raised (.ok after) :: b →
    ∀ names' results', .joined names' results' ∈ a ++ [.joined names results] → ∀ n v, IndexMap.get results' n = some v →
      asyncResult after n = some v

/-- The objects that joins work on have each key once, as every JSON object does. -/
def JoinKeysDistinct (l : List Event) : Prop :=
  ∀ a names results step members raised after b,
    l = a ++ .joined names results :: .settled step (.object members) raised after :: b → IndexMap.Distinct members

/-- The tasks of a run are spawned under pairwise distinct names, none of them the name of a task that the request had before. -/
def NamesDistinct (w : World σ) (l : List Event) : Prop :=
  ∀ a name task b, requestOps l = a ++ .spawned name task :: b →
    w.reqCtx.asyncRegistry name = none ∧ ∀ task', .spawned name task' ∉ a

/-- A join of the run that finds a task under one of its names works on an object, and is the last join of the run. -/
def OnlyLastJoinFinds (w : World σ) (l : List Event) : Prop :=
  ∀ a names results step before raised after b, l = a ++ .joined names results :: .settled step before raised after :: b →
    (∃ n ∈ names, registryAfter w.reqCtx.asyncRegistry (requestOps a) n ≠ none) →
      (∃ members, before = .object members) ∧ ∀ names' results', .joined names' results' ∉ b

/-- A join is an operation on the tasks. -/
theorem requestOps_joined (a : List Event) (names : List String) (results : Object) (b : List Event) :
    requestOps (a ++ .joined names results :: b) = requestOps a ++ .joined names results :: requestOps b := by
  rw [requestOps_append, requestOps, Event.requestOps]
  rfl

/-- A task that is registered after operations was so before, or was spawned by them. -/
theorem registered_of_registryAfter {registry : String → Option AsyncTask} {ops : List RequestOp} {n : String} {task : AsyncTask}
    (h : registryAfter registry ops n = some task) : registry n = some task ∨ .spawned n task ∈ ops := by
  induction ops generalizing registry with
  | nil => exact Or.inl h
  | cons op ops ih =>
    change registryAfter (Mailbox.apply registry op.mailboxOp) ops n = some task at h
    rcases ih h with hbefore | hin
    · cases op with
      | spawned name t =>
        by_cases hn : n = name
        · subst hn
          have ht : some t = some task := (if_pos rfl).symm.trans hbefore
          cases ht
          exact Or.inr List.mem_cons_self
        · exact Or.inl ((if_neg hn).symm.trans hbefore)
      | joined names results =>
        by_cases hn : n ∈ names
        · have hnone : Mailbox.apply registry (RequestOp.joined names results).mailboxOp n = none := if_pos hn
          rw [hnone] at hbefore
          cases hbefore
        · exact Or.inl ((if_neg hn).symm.trans hbefore)
    · exact Or.inr (List.mem_cons_of_mem _ hin)

/-- With distinct names, what one join of a run delivered no later one delivers. -/
theorem delivered_once_of_distinct {w w' : World σ} {a c b : List Event} {names names' : List String} {results results' : Object}
    (hconducts : Conducts env w (a ++ .joined names results :: (c ++ .joined names' results' :: b)) w')
    (hdistinct : NamesDistinct w (a ++ .joined names results :: (c ++ .joined names' results' :: b))) {n : String} {v : Value}
    (hget : IndexMap.get results n = some v) : IndexMap.get results' n = none := by
  have hops : requestOps (a ++ .joined names results :: (c ++ .joined names' results' :: b)) =
      (requestOps a ++ .joined names results :: requestOps c) ++ .joined names' results' :: requestOps b := by
    rw [requestOps_joined, requestOps_joined]
    simp
  -- the task of the first join was there before the first join
  obtain ⟨task, hin, hfirst⟩ : ∃ task, n ∈ names ∧ registryAfter w.reqCtx.asyncRegistry (requestOps a) n = some task := by
    rcases hconducts.2 (requestOps a) names results _ (requestOps_joined _ _ _ _) n with ⟨task, v', hin, hsome, -, -⟩ | ⟨hnone, -⟩
    · exact ⟨task, hin, hsome⟩
    · rw [hget] at hnone
      cases hnone
  rcases hconducts.2 _ names' results' _ hops n with ⟨task', v', -, hsome, -, -⟩ | ⟨hnone, -⟩
  · -- so a second task under the name was spawned between the joins
    have htaken : registryAfter w.reqCtx.asyncRegistry (requestOps a ++ [.joined names results]) n = none := by
      rw [registryAfter_joined, if_pos hin]
    rw [List.append_cons, registryAfter_append] at hsome
    rcases registered_of_registryAfter hsome with hold | hspawned
    · rw [htaken] at hold
      cases hold
    · obtain ⟨c₁, c₂, hc⟩ := List.append_of_mem hspawned
      have hsplit : requestOps (a ++ .joined names results :: (c ++ .joined names' results' :: b)) =
          (requestOps a ++ .joined names results :: c₁) ++ .spawned n task' :: (c₂ ++ .joined names' results' :: requestOps b) := by
        rw [hops, hc]
        simp
      obtain ⟨hempty, hno⟩ := hdistinct _ _ _ _ hsplit
      rcases registered_of_registryAfter hfirst with hold | hspawned'
      · rw [hempty] at hold
        cases hold
      · exact absurd (List.mem_append_left _ hspawned') (hno task)
  · exact hnone

/-- After a join on an object, `async` holds the results of the join. -/
theorem JoinLeaves.of_object {members : Object} {results : Object} {after : Value} (h : JoinLeaves (.object members) results after)
    (hkeys : IndexMap.Distinct members) (n : String) : asyncResult after n = IndexMap.get results n :=
  h hkeys n

/-- A state keeps no result but those of the join that left it. -/
theorem JoinLeaves.asyncResult_of_none {before after : Value} {results : Object} (h : JoinLeaves before results after)
    (hkeys : ∀ members, before = .object members → IndexMap.Distinct members) {n : String} (hnone : IndexMap.get results n = none) :
    asyncResult after n = none := by
  cases before with
  | object members => exact (h.of_object (hkeys members rfl) n).trans hnone
  | _ => exact h n

/-- A join delivers something exactly when it finds a task under one of its names. -/
theorem found_iff_delivered {w w' : World σ} {a b : List Event} {names : List String} {results : Object}
    (h : Conducts env w (a ++ .joined names results :: b) w') :
    (∃ n ∈ names, registryAfter w.reqCtx.asyncRegistry (requestOps a) n ≠ none) ↔ ∃ n v, IndexMap.get results n = some v := by
  have hdelivers := h.2 (requestOps a) names results _ (requestOps_joined _ _ _ _)
  constructor
  · rintro ⟨n, hin, hsome⟩
    rcases hdelivers n with ⟨task, v, -, -, hget, -⟩ | ⟨-, hno | hno⟩
    · exact ⟨n, v, hget⟩
    · exact absurd hin hno
    · exact absurd hno hsome
  · rintro ⟨n, v, hget⟩
    rcases hdelivers n with ⟨task, v', hin, hsome, -, -⟩ | ⟨hnone, -⟩
    · refine ⟨n, hin, ?_⟩
      rw [hsome]
      exact nofun
    · rw [hget] at hnone
      cases hnone

/-- In every run whose tasks have distinct names, results accumulate exactly when only the last join of the run finds a task, and
works on an object. -/
theorem results_accumulate_iff (hleaves : LeavesTasks env) (hmerge : (env.getBehavior "join").getD .merge = .merge) (n : Nat)
    (pipeline : Pipeline) (input : Value) (handled : Option String) (w w' : World σ) (r : Except Failure PipelineOutput)
    (l : List Event) (h : executeWithErrorShortCircuit env n pipeline input handled w = some (r, w', l))
    (hkeys : JoinKeysDistinct l) (hdistinct : NamesDistinct w l) : ResultsAccumulate l ↔ OnlyLastJoinFinds w l := by
  have hsettle := joinsSettle_execute hmerge h
  have hconducts := conducts_execute hleaves h
  constructor
  · rintro hacc a names results step before raised after b rfl hfound
    obtain ⟨name, v, hget⟩ := (found_iff_delivered hconducts).mp hfound
    obtain ⟨_, _, after₀, _, he, hleft⟩ := hsettle a names results _ rfl
    cases he
    have hhas : asyncResult after₀ name = some v :=
      hacc a names results _ _ _ _ _ rfl names results (List.mem_append_right a List.mem_cons_self) name v hget
    constructor
    · by_contra hobject
      cases before with
      | object members => exact hobject ⟨members, rfl⟩
      | _ =>
        rw [hleft name] at hhas
        cases hhas
    · intro names' results' hin
      obtain ⟨b₁, b₂, rfl⟩ := List.append_of_mem hin
      have hsplit : a ++ .joined names results :: .settled step before none (.ok after₀) :: (b₁ ++ .joined names' results' :: b₂) =
          (a ++ .joined names results :: .settled step before none (.ok after₀) :: b₁) ++ .joined names' results' :: b₂ := by simp
      obtain ⟨step', before', after', b₃, rfl, hleft'⟩ := hsettle _ _ _ _ hsplit
      have hlater : asyncResult after' name = some v :=
        hacc _ names' results' step' before' none after' b₃ hsplit names results
          (List.mem_append_left _ (List.mem_append_right a List.mem_cons_self)) name v hget
      rw [← List.cons_append] at hconducts hdistinct
      have hnone : IndexMap.get results' name = none := delivered_once_of_distinct hconducts hdistinct hget
      have hkeys' : ∀ members, before' = .object members → IndexMap.Distinct members := by
        rintro members rfl
        exact hkeys _ _ _ _ _ _ _ _ hsplit
      rw [hleft'.asyncResult_of_none hkeys' hnone] at hlater
      cases hlater
  · rintro hlast a names results step before raised after b rfl names' results' hin name v hget
    rcases List.mem_append.mp hin with hin | hin
    · -- an earlier join delivered this, and so it was the last
      obtain ⟨a₁, a₂, rfl⟩ := List.append_of_mem hin
      rw [List.append_assoc, List.cons_append] at *
      obtain ⟨step', before', after', b', he, -⟩ := hsettle a₁ names' results' _ rfl
      have hfound := (found_iff_delivered hconducts).mpr ⟨name, v, hget⟩
      have hno := (hlast a₁ names' results' step' before' none (.ok after') b' (by rw [he]) hfound).2
      cases a₂ with
      | nil => cases he
      | cons e a₂ =>
        obtain ⟨-, rfl⟩ := List.cons.inj he
        exact absurd (List.mem_append_right a₂ List.mem_cons_self) (hno names results)
    · cases List.mem_singleton.mp hin
      obtain ⟨_, _, after₀, _, he, hleft⟩ := hsettle a names results _ rfl
      cases he
      have hfound := (found_iff_delivered hconducts).mpr ⟨name, v, hget⟩
      obtain ⟨⟨members, rfl⟩, -⟩ := hlast a names results _ _ _ _ _ rfl hfound
      exact (hleft.of_object (hkeys _ _ _ _ _ _ _ _ rfl) name).trans hget

/-! ## Two tasks -/

/-- The log of two steps that work as tasks. -/
def spawnsLog : List Event :=
  let task : AsyncTask := { name := "work", args := [], config := "", location := {}, input := .object [] }
  [.entered (workStep "a") (.object []), .spawned "a" task, .settled (workStep "a") (.object []) none (.ok (.object [])),
    .entered (workStep "b") (.object []), .spawned "b" task, .settled (workStep "b") (.object []) none (.ok (.object []))]

/-- What a join of tasks delivers. -/
def workResults (names : List String) : Object := names.map fun name => (name, .string "done")

/-- The state after a join. -/
def workState (names : List String) : Value := .object [("async", .object (workResults names))]

/-- The log of a join. -/
def joinLog (before : Value) (names : List String) : List Event :=
  .entered (joinOf names) before ::
    names.map (fun name => .task name [.invoked "work" { args := [], config := "", state := .object [], targetName := none }]) ++
      [.joined names (workResults names), .settled (joinOf names) before none (.ok (workState names))]

/-- One join of both tasks delivers both. -/
theorem results_accumulate_iff_both : ∃ r w', executeWithErrorShortCircuit workEnv 1
      { steps := [workStep "a", workStep "b", joinOf ["a", "b"]] } (.object []) none workWorld =
        some (r, w', spawnsLog ++ joinLog (.object []) ["a", "b"]) ∧
    ResultsAccumulate (spawnsLog ++ joinLog (.object []) ["a", "b"]) := by
  have hlog : (executeWithErrorShortCircuit workEnv 1 { steps := [workStep "a", workStep "b", joinOf ["a", "b"]] } (.object []) none
      workWorld).map (fun p => p.2.2) = some (spawnsLog ++ joinLog (.object []) ["a", "b"]) := rfl
  obtain ⟨⟨r, w', l⟩, hrun, rfl⟩ := Option.map_eq_some_iff.mp hlog
  have hkeys : JoinKeysDistinct (spawnsLog ++ joinLog (.object []) ["a", "b"]) := by
    intro a names results step members raised after b h
    simp [spawnsLog, joinLog, List.cons_eq_append_iff] at h
    obtain ⟨-, -, ⟨-, rfl, -⟩, -⟩ := h
    exact List.nodup_nil
  have hdistinct : NamesDistinct workWorld (spawnsLog ++ joinLog (.object []) ["a", "b"]) := by
    intro a name task b h
    simp [spawnsLog, joinLog, requestOps, Event.requestOps, List.cons_eq_append_iff] at h
    obtain ⟨rfl, ⟨rfl, -⟩, -⟩ | ⟨rfl, ⟨rfl, -⟩, -⟩ := h
    · exact ⟨rfl, by simp⟩
    · exact ⟨rfl, by simp⟩
  refine ⟨r, w', hrun, (results_accumulate_iff leavesTasks_workEnv rfl 1 _ _ _ _ _ _ _ hrun hkeys hdistinct).mpr ?_⟩
  intro a names results step before raised after b h _
  simp [spawnsLog, joinLog, List.cons_eq_append_iff] at h
  obtain ⟨-, -, ⟨-, rfl, -⟩, rfl⟩ := h
  exact ⟨⟨[], rfl⟩, by simp⟩

/-- Of two joins the second loses what the first delivered. -/
theorem second_join_loses_results : ∃ r w', executeWithErrorShortCircuit workEnv 1
      { steps := [workStep "a", workStep "b", joinOf ["a"], joinOf ["b"]] } (.object []) none workWorld =
        some (r, w', spawnsLog ++ joinLog (.object []) ["a"] ++ joinLog (workState ["a"]) ["b"]) ∧
    ¬ ResultsAccumulate (spawnsLog ++ joinLog (.object []) ["a"] ++ joinLog (workState ["a"]) ["b"]) := by
  have hlog : (executeWithErrorShortCircuit workEnv 1 { steps := [workStep "a", workStep "b", joinOf ["a"], joinOf ["b"]] }
      (.object []) none workWorld).map (fun p => p.2.2) =
        some (spawnsLog ++ joinLog (.object []) ["a"] ++ joinLog (workState ["a"]) ["b"]) := rfl
  obtain ⟨⟨r, w', l⟩, hrun, rfl⟩ := Option.map_eq_some_iff.mp hlog
  refine ⟨r, w', hrun, fun hacc => ?_⟩
  have hfirst := hacc (spawnsLog ++ joinLog (.object []) ["a"] ++ (joinLog (workState ["a"]) ["b"]).take 2) ["b"] (workResults ["b"])
    _ _ _ _ [] rfl ["a"] (workResults ["a"]) (by simp [joinLog]) "a" (.string "done") rfl
  have hlost : asyncResult (workState ["b"]) "a" = none := by decide +kernel
  rw [hlost] at hfirst
  cases hfirst

end WebPipe

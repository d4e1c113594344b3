import WebPipe.Lemmas.Trace

/-!
# Middleware failures

A middleware failure of a regular step becomes an error envelope in the state of its pipeline. The only other step that raises one
is a `foreach` whose selector is no array, and that one ends its run with the failure, and the runs around it, up to the next call
of a named pipeline.
-/

namespace WebPipe

variable {σ : Type} {env : ExecutionEnv σ} {run : RunFn σ}

/-! ## Where a failure comes from -/

/-- A run of the log ended with the failure. -/
def FailedRun (f : Failure) (l : List Event) : Prop :=
  ∃ entry p v handled inner, .run entry p v handled inner (.error f) ∈ l

/-- Every failure of the computation is the failure of a run that it logs. -/
def OnlyRunsFail {α : Type} (x : Exec σ α) : Prop := ∀ w f w' l, x w = some (.error f, w', l) → FailedRun f l

/-- A sequence fails as a middleware only in a run when its parts do. -/
theorem onlyRunsFail_bind {α β : Type} {x : Exec σ α} {g : α → Exec σ β} (hx : OnlyRunsFail x)
    (hg : ∀ a, OnlyRunsFail (g a)) : OnlyRunsFail (x >>= g) := by
  intro w f w' l h
  obtain ⟨e, hfail, he⟩ | ⟨a, w₁, l₁, l₂, -, hrest, rfl⟩ := Prog.bind_eq_some h
  · obtain rfl := Except.error.inj he
    exact hx _ _ _ _ hfail
  · obtain ⟨entry, p, v, handled, inner, hmem⟩ := hg a _ _ _ _ hrest
    exact ⟨entry, p, v, handled, inner, List.mem_append_right _ hmem⟩

theorem onlyRunsFail_pure {α : Type} (a : α) : OnlyRunsFail (pure a : Exec σ α) := by
  intro w f w' l h
  cases h

/-- A nested run fails only in the run. -/
theorem onlyRunsFail_nested (entry : Entry) (pipeline : Pipeline) (input : Value) (handled : Option String) :
    OnlyRunsFail (Exec.nested entry run pipeline input handled) := by
  intro w f w' l h
  obtain ⟨inner, -, rfl⟩ := nested_eq_some h
  exact ⟨entry, pipeline, input, handled, inner, List.mem_singleton_self _⟩

theorem onlyRunsFail_executeBranch (entry : Entry) (pipeline : Pipeline) (ctx : StepContext) :
    OnlyRunsFail (executeBranch run entry pipeline ctx) :=
  onlyRunsFail_bind (onlyRunsFail_nested _ _ _ _) fun _ => onlyRunsFail_pure _

/-- An `if` step fails as a middleware only in one of its runs. -/
theorem onlyRunsFail_handleIfStep (condition thenBranch : Pipeline) (elseBranch : Option Pipeline) (ctx : StepContext) :
    OnlyRunsFail (handleIfStep run condition thenBranch elseBranch ctx) := by
  refine onlyRunsFail_bind (onlyRunsFail_nested _ _ _ _) fun cond => ?_
  split
  · exact onlyRunsFail_executeBranch _ _ _
  · cases elseBranch with
    | some pipeline => exact onlyRunsFail_executeBranch _ _ _
    | none => exact onlyRunsFail_pure _

/-- A `dispatch` step fails as a middleware only in the run of its branch. -/
theorem onlyRunsFail_handleDispatchStep (branches : List DispatchBranch) (default : Option Pipeline) (ctx : StepContext) :
    OnlyRunsFail (handleDispatchStep env run branches default ctx) := by
  have hgets : OnlyRunsFail (Exec.req fun c => selectCase env c ctx.pipeCtx.state branches default : Exec σ _) := by
    intro w f w' l h
    cases h
  refine onlyRunsFail_bind hgets fun selected => ?_
  cases selected with
  | some pipeline => exact onlyRunsFail_executeBranch _ _ _
  | none => exact onlyRunsFail_pure _

/-- The items of a loop fail as a middleware only in a run. -/
theorem onlyRunsFail_foreachItems (pipeline : Pipeline) (items : List Value) :
    OnlyRunsFail (foreachItems run pipeline items) := by
  induction items with
  | nil => exact onlyRunsFail_pure _
  | cons item items ih =>
    exact onlyRunsFail_bind (onlyRunsFail_nested _ _ _ _) fun _ => onlyRunsFail_bind ih fun _ => onlyRunsFail_pure _

/-- A `result` step fails as a middleware only in the run of its branch. -/
theorem onlyRunsFail_handleResultStep (branches : List ResultBranch) (ctx : StepContext) :
    OnlyRunsFail (handleResultStep run branches ctx) := by
  unfold handleResultStep
  dsimp only
  split
  · exact onlyRunsFail_bind (onlyRunsFail_nested _ _ _ _) fun _ => onlyRunsFail_pure _
  · exact onlyRunsFail_pure _

/-! ## The `foreach` step -/

/-- The path of a `foreach` step leads to an array. -/
def Resolves (selector : String) (state : Value) : Prop := ∃ items, JsonPath.getValue state selector = some (.array items)

/-- A loop whose selector leads to a list fails as a middleware only in a run. -/
theorem onlyRunsFail_handleForeachStep {selector : String} (pipeline : Pipeline) {ctx : StepContext}
    (h : Resolves selector ctx.pipeCtx.state) : OnlyRunsFail (handleForeachStep run selector pipeline ctx) := by
  obtain ⟨items, hitems⟩ := h
  unfold handleForeachStep
  rw [hitems]
  exact onlyRunsFail_bind (onlyRunsFail_foreachItems _ _) fun _ => onlyRunsFail_pure _

/-- Without an array, a `foreach` step raises a middleware failure of its own. -/
theorem handleForeachStep_fails {selector : String} (pipeline : Pipeline) {ctx : StepContext}
    (h : ¬ Resolves selector ctx.pipeCtx.state) (w : World σ) :
    ∃ f : Failure, f.IsMiddlewareFailure ∧ handleForeachStep run selector pipeline ctx w = some (.error f, w, []) := by
  refine ⟨.err (.plain .middlewareExecutionError s!"foreach: path '{selector}' is not an array or does not exist"), rfl, ?_⟩
  unfold handleForeachStep
  cases hv : JsonPath.getValue ctx.pipeCtx.state selector with
  | none => rfl
  | some v =>
    cases v with
    | array items => exact absurd ⟨items, hv⟩ h
    | _ => rfl

/-- A loop whose selector leads to no list fails as a middleware. -/
theorem dispatchStep_foreach_fails (env : ExecutionEnv σ) (run : RunFn σ) {selector : String} (pipeline : Pipeline)
    (location : SourceLocation) {ctx : StepContext} (h : ¬ Resolves selector ctx.pipeCtx.state) (w : World σ) :
    ∃ f : Failure, f.IsMiddlewareFailure ∧
      dispatchStep env run (.foreach selector pipeline location) ctx w = some (.error f, w, []) := by
  unfold dispatchStep
  exact handleForeachStep_fails pipeline h w

/-- A step that is neither a regular step nor a `foreach` without an array fails only with a run it started. -/
theorem onlyRunsFail_dispatchStep {step : PipelineStep} (ctx : StepContext) (hregular : ∀ s, step ≠ .regular s)
    (hforeach : ∀ selector pipeline location, step = .foreach selector pipeline location →
      Resolves selector ctx.pipeCtx.state) : OnlyRunsFail (dispatchStep env run step ctx) := by
  unfold dispatchStep
  cases step with
  | regular s => exact absurd rfl (hregular s)
  | result branches location => exact onlyRunsFail_handleResultStep branches ctx
  | ifStep condition thenBranch elseBranch location =>
    exact onlyRunsFail_handleIfStep condition thenBranch elseBranch ctx
  | dispatch branches default location => exact onlyRunsFail_handleDispatchStep branches default ctx
  | foreach selector pipeline location =>
    exact onlyRunsFail_handleForeachStep pipeline (hforeach selector pipeline location rfl)

/-! ## What becomes of a failure -/

/-- Every `foreach` step that was executed in the log, at any depth, found an array. -/
def ForeachResolves (l : List Event) : Prop :=
  ∀ selector pipeline location before raised after,
    (Event.settled (.foreach selector pipeline location) before raised after).Within l → Resolves selector before

/-- A middleware failure of a regular step leaves an error envelope in the state. -/
theorem settle_regular {s : RegularStep} {ctx : StepContext} {f : Failure} (hf : f.IsMiddlewareFailure) :
    ∃ v, (settle (.regular s) ctx (.error f)).map stateAfter = .ok v ∧ (extractErrorType v).isSome := by
  cases f with
  | panic => exact hf.elim
  | err e =>
    have he : (e.withSourceLocation s.location).IsMiddlewareFailure :=
      (WebPipeError.isMiddlewareFailure_withSourceLocation e s.location).mpr hf
    obtain ⟨⟨message, location⟩, hm⟩ := Option.isSome_iff_exists.mp he
    refine ⟨_, by simp only [settle, hm]; rfl, ?_⟩
    have htype := extractErrorType_overrideErrorType (extractErrorType_makeMiddlewareErrorValue s.name message location)
      (s.condition.bind getErrorFromTagExpr)
    exact Option.isSome_iff_exists.mpr ⟨_, htype⟩

/-- A settled regular step never fails with a middleware failure. -/
theorem settle_regular_error {s : RegularStep} {ctx : StepContext} {raw : Except Failure (StepOutcome × StepContext)}
    {f : Failure} (h : settle (.regular s) ctx raw = .error f) : ¬ f.IsMiddlewareFailure := by
  intro hf
  cases raw with
  | ok p => cases h
  | error f' =>
    by_cases hf' : f'.IsMiddlewareFailure
    · obtain ⟨v, hv, -⟩ : ∃ v, (settle (.regular s) ctx (.error f')).map stateAfter = .ok v ∧ _ := settle_regular hf'
      rw [h] at hv
      cases hv
    · cases f' with
      | panic =>
        cases h
        exact hf
      | err e =>
        have hnone : (e.withSourceLocation s.location).extractMiddlewareFailure = none := by
          rw [← Option.not_isSome_iff_eq_none]
          exact fun hs => hf' ((WebPipeError.isMiddlewareFailure_withSourceLocation e s.location).mp hs)
        simp only [settle, hnone] at h
        cases h
        exact hf' ((WebPipeError.isMiddlewareFailure_withSourceLocation e s.location).mp hf)

/-- Every other step is settled with the outcome of its handler. -/
theorem settle_other {step : PipelineStep} (hstep : ∀ s, step ≠ .regular s) (ctx : StepContext)
    (raw : Except Failure (StepOutcome × StepContext)) : settle step ctx raw = raw := by
  cases step with
  | regular s => exact absurd rfl (hstep s)
  | _ => rfl

/-- The log has a `foreach` step without an array. -/
def ForeachFails (l : List Event) : Prop :=
  ∃ selector pipeline location before raised after, ¬ Resolves selector before ∧
    .settled (.foreach selector pipeline location) before raised after ∈ l

/-- A middleware failure that a step does not turn into an envelope is that of a run it started, or that of a `foreach` without an
array. -/
theorem executeStep_escape {step : PipelineStep} {ctx : StepContext} {w w' : World σ} {f : Failure} {l : List Event}
    (h : executeStep env run step ctx w = some (.error f, w', l)) (hf : f.IsMiddlewareFailure) :
    FailedRun f l ∨ ForeachFails l := by
  obtain ⟨message, he, -⟩ | ⟨state, w₁, raw, w₂, l₁, hd, -, -, hr, rfl⟩ := executeStep_eq_some h
  · cases he
    cases hf
  by_cases hregular : ∃ s, step = .regular s
  · obtain ⟨s, rfl⟩ := hregular
    exact absurd hf (settle_regular_error hr.symm)
  have hother : ∀ s, step ≠ .regular s := fun s hs => hregular ⟨s, hs⟩
  rw [settle_other hother] at hr
  subst hr
  by_cases hforeach : ∀ selector pipeline location, step = .foreach selector pipeline location → Resolves selector state
  · obtain ⟨entry, p, v, handled, inner, hmem⟩ := onlyRunsFail_dispatchStep (ctx.withState state) hother hforeach _ _ _ _ hd
    exact Or.inl ⟨entry, p, v, handled, inner, List.mem_append_left _ hmem⟩
  · simp only [not_forall] at hforeach
    obtain ⟨selector, pipeline, location, rfl, hres⟩ := hforeach
    exact Or.inr ⟨selector, pipeline, location, state, _, _, hres, List.mem_append_right _ (List.mem_singleton_self _)⟩

/-! ## Runs -/

/-- A failed run of a log is one of a longer log. -/
theorem FailedRun.mono {f : Failure} {l l' : List Event} (h : FailedRun f l) (hsub : l ⊆ l') : FailedRun f l' := by
  obtain ⟨entry, p, v, handled, inner, hmem⟩ := h
  exact ⟨entry, p, v, handled, inner, hsub hmem⟩

/-- A failed loop of a log is one of a longer log. -/
theorem ForeachFails.mono {l l' : List Event} (h : ForeachFails l) (hsub : l ⊆ l') : ForeachFails l' := by
  obtain ⟨selector, pipeline, location, before, raised, after, hres, hmem⟩ := h
  exact ⟨selector, pipeline, location, before, raised, after, hres, hsub hmem⟩

/-- A loop that fails with a middleware failure has a failed run, or a `foreach` step without an array, in its log. -/
theorem loopSteps_escape {steps : List PipelineStep} (rest : List PipelineStep) {idx : Nat} {s : LoopState}
    {w w' : World σ} {f : Failure} {l : List Event} (h : loopSteps env run steps idx rest s w = some (.error f, w', l))
    (hf : f.IsMiddlewareFailure) : FailedRun f l ∨ ForeachFails l := by
  induction rest generalizing idx s w l with
  | nil => cases h
  | cons step rest ih =>
    rw [loopSteps_cons] at h
    obtain ⟨e, hi, he⟩ | ⟨out, w₁, l₁, l₂, -, hrest, rfl⟩ := Prog.bind_eq_some h
    · obtain rfl := Except.error.inj he
      cases iterate_turn hi with
      | fail hs hx =>
        exact (executeStep_escape hx hf).imp (fun h => h.mono (List.subset_cons_self _ _))
          (fun h => h.mono (List.subset_cons_self _ _))
      | retFail hs hx hsaves =>
        cases saves_error hsaves
        exact hf.elim
    · cases out with
      | inr output => cases hrest
      | inl s₁ =>
        exact (ih hrest).imp (fun h => h.mono (List.subset_append_right _ _))
          (fun h => h.mono (List.subset_append_right _ _))

/-- A failure of a middleware leaves a run from a nested run or from a loop. -/
theorem execute_escape {n : Nat} {pipeline : Pipeline} {input : Value} {handled : Option String} {w w' : World σ}
    {f : Failure} {l : List Event}
    (h : executeWithErrorShortCircuit env n pipeline input handled w = some (.error f, w', l))
    (hf : f.IsMiddlewareFailure) : FailedRun f l ∨ ForeachFails l := by
  obtain ⟨m, rfl⟩ := execute_pos h
  obtain ⟨e, hloop, he⟩ | ⟨last, w₁, l₁, l₂, -, hend, -⟩ := Prog.bind_eq_some h
  · obtain rfl := Except.error.inj he
    exact loopSteps_escape _ hloop hf
  · cases last with
    | inr output => cases hend
    | inl s =>
      obtain ⟨e, hsaves, he⟩ | ⟨_, w₂, l₃, l₄, -, hpure, -⟩ := Prog.bind_eq_some hend
      · obtain rfl := Except.error.inj he
        cases saves_error hsaves
        exact hf.elim
      · cases hpure

/-- Where every `foreach` step finds an array, no run ends with a middleware failure. -/
theorem no_escape {n : Nat} {pipeline : Pipeline} {input : Value} {handled : Option String} {w w' : World σ} {f : Failure}
    {l : List Event} (h : executeWithErrorShortCircuit env n pipeline input handled w = some (.error f, w', l))
    (hall : ForeachResolves l) : ¬ f.IsMiddlewareFailure := by
  intro hf
  induction n generalizing pipeline input handled w w' l with
  | zero => cases h
  | succ n ih =>
    rcases execute_escape h hf with ⟨entry, p, v, handled', inner, hmem⟩ | ⟨selector, p, loc, before, raised, after, hres, hmem⟩
    · cases logged_execute h _ hmem with
      | run hrun =>
        refine ih hrun fun selector p loc before raised after hin => ?_
        exact hall _ _ _ _ _ _ (.run hmem hin)
    · exact hres (hall _ _ _ _ _ _ (.here hmem))

/-! ## Settled steps -/

/-- The event is the end of a step. -/
def Event.IsSettled : Event → Prop
  | .settled _ _ _ _ => True
  | _ => False

/-- No event of the log is the end of a step. -/
def NoneSettled (_ : World σ) (l : List Event) (_ : World σ) : Prop := ∀ e ∈ l, ¬ e.IsSettled

/-- The store settles no step. -/
theorem coversCache_noneSettled : CoversCache (NoneSettled : World σ → List Event → World σ → Prop) := by
  intro own w now c
  simp [NoneSettled, Event.IsSettled]

/-- The handlers of steps settle none. -/
theorem coversHandler_noneSettled (env : ExecutionEnv σ) (run : RunFn σ) : CoversHandler env run NoneSettled where
  toPasses := passes_emits _
  runs _ _ _ _ _ _ _ _ := by simp [NoneSettled, Event.IsSettled]
  tasks _ _ _ _ _ _ _ := by simp [NoneSettled, Event.IsSettled]
  invoked _ _ _ := by simp [NoneSettled, Event.IsSettled]
  spawned _ _ _ := by simp [NoneSettled, Event.IsSettled]
  joined _ _ _ := by simp [NoneSettled, Event.IsSettled]
  cache := coversCache_noneSettled

/-- An executed step logs one end, with its own outcome. -/
theorem executeStep_settled {step step' : PipelineStep} {ctx : StepContext} {w w' : World σ}
    {r : Except Failure (StepOutcome × StepContext)} {l : List Event}
    (h : executeStep env run step ctx w = some (r, w', l)) {before : Value} {raised : Option Failure}
    {after : Except Failure Value} (hmem : .settled step' before raised after ∈ l) : after = r.map stateAfter := by
  obtain ⟨message, rfl, rfl, -⟩ | ⟨state, w₁, raw, w₂, l₁, hd, -, -, -, rfl⟩ := executeStep_eq_some h
  · cases hmem
  · rcases List.mem_append.mp hmem with hmem | hmem
    · exact absurd trivial (follows_dispatchStep (coversHandler_noneSettled env run) _ _ _ _ _ _ hd _ hmem)
    · cases List.mem_singleton.mp hmem
      rfl

/-- The final saves settle no step. -/
theorem saves_settled {saves : List PendingCacheSave} {output : PipelineOutput} {w w' : World σ} {r : Except Failure Unit}
    {l : List Event} (h : runPendingCacheSaves saves output w = some (r, w', l)) : ∀ e ∈ l, ¬ e.IsSettled :=
  follows_runPendingCacheSaves (passes_emits _).frames coversCache_noneSettled _ _ _ _ _ _ h

/-- A step settled with a failure ends its turn with this failure. -/
theorem turn_settled_error {steps : List PipelineStep} {idx : Nat} {step : PipelineStep} {s : LoopState} {w w' : World σ}
    {r : Except Failure (LoopState ⊕ PipelineOutput)} {l : List Event} (h : Turn env run steps idx step s w r w' l)
    {step' : PipelineStep} {before : Value} {raised : Option Failure} {f : Failure}
    (hmem : .settled step' before raised (.error f) ∈ l) : r = .error f := by
  cases h with
  | skip hs => cases List.mem_singleton.mp hmem
  | fail hs hx =>
    rcases List.mem_cons.mp hmem with he | hmem
    · cases he
    · cases executeStep_settled hx hmem
      rfl
  | next hs hx =>
    rcases List.mem_cons.mp hmem with he | hmem
    · cases he
    · cases executeStep_settled hx hmem
  | ret hs hx hsaves =>
    rcases List.mem_cons.mp hmem with he | hmem
    · cases he
    rcases List.mem_append.mp hmem with hmem | hmem
    · cases executeStep_settled hx hmem
    · exact absurd trivial (saves_settled hsaves _ hmem)
  | retFail hs hx hsaves =>
    rcases List.mem_cons.mp hmem with he | hmem
    · cases he
    rcases List.mem_append.mp hmem with hmem | hmem
    · cases executeStep_settled hx hmem
    · exact absurd trivial (saves_settled hsaves _ hmem)

/-- A step settled with a failure ends its loop with this failure. -/
theorem loopSteps_settled_error {steps : List PipelineStep} (rest : List PipelineStep) {idx : Nat} {s : LoopState}
    {w w' : World σ} {r : Except Failure (LoopState ⊕ PipelineOutput)} {l : List Event}
    (h : loopSteps env run steps idx rest s w = some (r, w', l)) {step : PipelineStep} {before : Value}
    {raised : Option Failure} {f : Failure} (hmem : .settled step before raised (.error f) ∈ l) : r = .error f := by
  induction rest generalizing idx s w l with
  | nil =>
    cases h
    cases hmem
  | cons step rest ih =>
    rw [loopSteps_cons] at h
    obtain ⟨e, hi, rfl⟩ | ⟨out, w₁, l₁, l₂, hi, hrest, rfl⟩ := Prog.bind_eq_some h
    · cases turn_settled_error (iterate_turn hi) hmem
      rfl
    · rcases List.mem_append.mp hmem with hmem | hmem
      · cases turn_settled_error (iterate_turn hi) hmem
      · cases out with
        | inl s₁ => exact ih hrest hmem
        | inr output =>
          cases hrest
          cases hmem

/-- A step settled with a failure ends its run with this failure. -/
theorem execute_settled_error {n : Nat} {pipeline : Pipeline} {input : Value} {handled : Option String} {w w' : World σ}
    {r : Except Failure PipelineOutput} {l : List Event}
    (h : executeWithErrorShortCircuit env n pipeline input handled w = some (r, w', l)) {step : PipelineStep}
    {before : Value} {raised : Option Failure} {f : Failure} (hmem : .settled step before raised (.error f) ∈ l) :
    r = .error f := by
  obtain ⟨m, rfl⟩ := execute_pos h
  obtain ⟨e, hloop, rfl⟩ | ⟨last, w₁, l₁, l₂, hloop, hend, rfl⟩ := Prog.bind_eq_some h
  · cases loopSteps_settled_error _ hloop hmem
    rfl
  · rcases List.mem_append.mp hmem with hmem | hmem
    · cases loopSteps_settled_error _ hloop hmem
    · exfalso
      cases last with
      | inr output =>
        cases hend
        cases hmem
      | inl s =>
        obtain ⟨e, hsaves, -⟩ | ⟨_, w₂, l₃, l₄, hsaves, hpure, rfl⟩ := Prog.bind_eq_some hend
        · exact saves_settled hsaves _ hmem trivial
        · cases hpure
          rw [List.append_nil] at hmem
          exact saves_settled hsaves _ hmem trivial

/-! ## Failures stay in their pipeline -/

/-- Every middleware failure stays in the pipeline it occurs in: no run ends with one, at any depth, and every step that raises
one leaves a typed error envelope in the state of its pipeline. -/
structure Contained (r : Except Failure PipelineOutput) (l : List Event) : Prop where
  result : ∀ f, r = .error f → ¬ f.IsMiddlewareFailure
  nested : ∀ entry p v handled inner f, (Event.run entry p v handled inner (.error f)).Within l → ¬ f.IsMiddlewareFailure
  surfaced : ∀ step before f after, (Event.settled step before (some f) after).Within l → f.IsMiddlewareFailure →
    ∃ v, after = .ok v ∧ (extractErrorType v).isSome

/-- Where every `foreach` step finds an array, a settled step ends no run with a middleware failure. -/
theorem settled_no_escape {n : Nat} {pipeline : Pipeline} {input : Value} {handled : Option String} {w w' : World σ}
    {r : Except Failure PipelineOutput} {l : List Event}
    (h : executeWithErrorShortCircuit env n pipeline input handled w = some (r, w', l)) (hall : ForeachResolves l)
    {step : PipelineStep} {before : Value} {raised : Option Failure} {f : Failure}
    (hin : (Event.settled step before raised (.error f)).Within l) : ¬ f.IsMiddlewareFailure := by
  rcases hin.cases_owner with hmem | ⟨entry, p, v, handled, inner, result, hrun, hmem⟩ | ⟨name, inner, htask, hmem⟩
  · cases execute_settled_error h hmem
    exact no_escape h hall
  · obtain ⟨rfl, m, w₁, w₂, hnested⟩ := run_within h hrun
    cases execute_settled_error hnested hmem
    exact no_escape hnested fun _ _ _ _ _ _ hin => hall _ _ _ _ _ _ (hin.trans hrun)
  · obtain ⟨m, hm⟩ := logged_within_execute h htask
    cases hm with
    | task hbody =>
      have hcov := coversHandler_noneSettled env (executeWithErrorShortCircuit env m)
      exact absurd trivial (follows_taskBody hcov.toPasses hcov.runs hcov.invoked hcov.cache _ _ _ _ _ hbody _ hmem)

/-- In every run, middleware failures stay in the pipelines they occur in exactly when every `foreach` step that is executed in
the run, at any depth, finds an array at its path. -/
theorem failures_contained_iff (env : ExecutionEnv σ) (fuel : Nat) (pipeline : Pipeline) (input : Value) (w w' : World σ)
    (r : Except Failure PipelineOutput) (l : List Event)
    (hrun : executePipelineInternal env fuel pipeline input w = some (r, w', l)) : Contained r l ↔ ForeachResolves l := by
  constructor
  · intro hc selector p location before raised after hin
    by_contra hres
    obtain ⟨m, hm⟩ := logged_within_execute hrun hin
    obtain ⟨ctx, raw, w₁, w₂, l', hd, rfl, hraised, hafter⟩ := hm.of_settled
    obtain ⟨f, hf, hfail⟩ := dispatchStep_foreach_fails env _ p location hres w₁
    rw [hfail] at hd
    cases hd
    subst hraised
    obtain ⟨v, hv, -⟩ := hc.surfaced _ _ _ _ hin hf
    rw [hafter, settle_other (fun _ hs => by cases hs)] at hv
    cases hv
  · intro hall
    refine ⟨?_, ?_, ?_⟩
    · rintro f rfl
      exact no_escape hrun hall
    · intro entry p v handled inner f hin
      obtain ⟨rfl, m, w₁, w₂, hnested⟩ := run_within hrun hin
      exact no_escape hnested fun _ _ _ _ _ _ hin' => hall _ _ _ _ _ _ (hin'.trans hin)
    · intro step before f after hin hf
      obtain ⟨m, hm⟩ := logged_within_execute hrun hin
      obtain ⟨ctx, raw, w₁, w₂, l', hd, rfl, hraised, rfl⟩ := hm.of_settled
      cases raw with
      | ok p => cases hraised
      | error f' =>
        obtain rfl := Option.some.inj hraised
        by_cases hregular : ∃ s, step = .regular s
        · obtain ⟨s, rfl⟩ := hregular
          exact settle_regular hf
        · rw [settle_other fun s hs => hregular ⟨s, hs⟩] at hin
          exact absurd hf (settled_no_escape hrun hall hin)

/-- An environment without middleware. -/
def bareEnv : ExecutionEnv Unit := { registry := fun _ => none }

/-- A loop over an array that the request does not have, and a handler for every error. -/
def loopOverItems : Pipeline :=
  { steps :=
      [.foreach "items" { steps := [] } {},
        .result [{ branchType := .default, statusCode := 400, pipeline := { steps := [] } }] {}] }

def loopWorld : World Unit := .start (.ofSettings (.ofNew 16 60 (fromSecs 100000))) ()

/-- A loop over the request's array. -/
theorem failures_contained_iff_items : ∃ w' r l,
    executePipelineInternal bareEnv 2 loopOverItems (.object [("items", .array [.null])]) loopWorld = some (r, w', l) ∧
      (Contained r l ↔ ForeachResolves l) := by
  obtain ⟨w', r, l, hrun⟩ : ∃ w' r l, executePipelineInternal bareEnv 2 loopOverItems (.object [("items", .array [.null])])
      loopWorld = some (r, w', l) := ⟨_, _, _, rfl⟩
  exact ⟨w', r, l, hrun, failures_contained_iff bareEnv 2 loopOverItems _ loopWorld w' r l hrun⟩

/-- A loop over a missing array ends the run with a middleware failure, past the `result` step. -/
theorem foreach_escapes : ∃ w' r l,
    executePipelineInternal bareEnv 2 loopOverItems (.object []) loopWorld = some (r, w', l) ∧ ¬ Contained r l :=
  ⟨_, _, _, rfl, fun h => h.result _ rfl rfl⟩

end WebPipe

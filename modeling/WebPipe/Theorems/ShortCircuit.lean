import WebPipe.Lemmas.Loop

/-!
# Error envelopes short-circuit

Once the state of a run carries a typed error that the run does not handle, every step up to the next `result` is passed over:
the world stays as it is and so does everything the loop carries. With no `result` left, the run returns what it carries.
-/

namespace WebPipe

variable {σ : Type} {env : ExecutionEnv σ} {run : RunFn σ}

/-- A loop that handles no error passes over every step but a `result` while its state carries one. -/
theorem skips_of_error {s : LoopState} (hnone : s.handledErrorType = none) (herr : s.currentErrorType.isSome)
    {step : PipelineStep} (hstep : step.isResult = false) : s.skips step = true ∧ s.recompute = s := by
  have hrec : s.recompute = s := by
    obtain ⟨pipeCtx, contentType, statusCode, handled⟩ := s
    cases hnone
    unfold LoopState.recompute
    simp only [ite_self]
  refine ⟨?_, hrec⟩
  unfold LoopState.skips
  rw [hrec, hnone, herr, hstep]
  rfl

/-- Passing over steps leaves the world and the loop as they are. -/
theorem loopSteps_skip {s : LoopState} (hnone : s.handledErrorType = none) (herr : s.currentErrorType.isSome)
    (steps : List PipelineStep) (idx : Nat) {mid : List PipelineStep} (hmid : ∀ step ∈ mid, step.isResult = false)
    (w : World σ) :
    loopSteps env run steps idx mid s w =
      some (.ok (.inl s), w, mid.map (fun step => .skipped step s.pipeCtx.state)) := by
  induction mid generalizing idx with
  | nil => rfl
  | cons step mid ih =>
    obtain ⟨hskip, hrec⟩ := skips_of_error hnone herr (hmid step (by simp))
    have hturn : iterate env run steps idx _ s w = _ := iterate_of_skips hskip steps idx w
    rw [loopSteps_cons, Prog.bind_of_ok hturn, hrec, continueLoop, ih _ fun x hx => hmid x (by simp [hx])]
    rfl

/-- The output of a loop whose state carries an error is never cached. -/
theorem uncacheable_of_error {s : LoopState} (herr : s.currentErrorType.isSome) : uncacheable s.output = true := by
  unfold uncacheable
  rw [show extractErrorType s.output.state = s.currentErrorType from rfl, herr]
  rfl

/-- The rest of a run: the loop over the steps left, and the end. -/
def continueRun (env : ExecutionEnv σ) (run : RunFn σ) (steps : List PipelineStep) (idx : Nat) (rest : List PipelineStep)
    (s : LoopState) : Exec σ PipelineOutput := do
  let last ← loopSteps env run steps idx rest s
  finishRun last

/-- Once the state before some step of a run carries a typed error, the steps up to the next `result` are passed over: nothing
is invoked, no condition is evaluated, no task is spawned, and the world, the state, the content type and the status stay. The
run goes on at the next `result`; without one it returns the state, content type and status it carries. -/
theorem error_short_circuits (env : ExecutionEnv σ) (fuel : Nat) (pipeline : Pipeline) (input : Value)
    (pre mid rest : List PipelineStep) (hsteps : pipeline.steps = pre ++ mid ++ rest)
    (hmid : ∀ step ∈ mid, step.isResult = false) (w w₁ : World σ) (s : LoopState) (l : List Event)
    (hpre : loopSteps env (executeWithErrorShortCircuit env fuel) pipeline.steps 0 pre (.start input none) w =
      some (.ok (.inl s), w₁, l))
    (herr : (extractErrorType s.pipeCtx.state).isSome) :
    loopSteps env (executeWithErrorShortCircuit env fuel) pipeline.steps 0 (pre ++ mid) (.start input none) w =
        some (.ok (.inl s), w₁, l ++ mid.map (fun step => .skipped step s.pipeCtx.state)) ∧
      executePipelineInternal env (fuel + 1) pipeline input w =
        Prog.logged (l ++ mid.map (fun step => .skipped step s.pipeCtx.state))
          (continueRun env (executeWithErrorShortCircuit env fuel) pipeline.steps (pre ++ mid).length rest s w₁) ∧
      (rest = [] → ∃ w₂ l₂, executePipelineInternal env (fuel + 1) pipeline input w =
          some (.ok { state := s.pipeCtx.state, contentType := s.contentType, statusCode := s.statusCode }, w₂,
            l ++ mid.map (fun step => .skipped step s.pipeCtx.state) ++ l₂) ∧
        SameRequest w₁ w₂ ∧ ∀ e ∈ l₂, e.IsCache) := by
  have hnone : s.handledErrorType = none := handled_none_loopSteps pre (by rfl) hpre
  have hfront : loopSteps env (executeWithErrorShortCircuit env fuel) pipeline.steps 0 (pre ++ mid) (.start input none) w =
      some (.ok (.inl s), w₁, l ++ mid.map (fun step => .skipped step s.pipeCtx.state)) := by
    rw [loopSteps_append, Prog.bind_of_ok hpre, continueLoop, loopSteps_skip hnone herr _ _ hmid]
    rfl
  have hwhole : executePipelineInternal env (fuel + 1) pipeline input w =
      Prog.logged (l ++ mid.map (fun step => .skipped step s.pipeCtx.state))
        (continueRun env (executeWithErrorShortCircuit env fuel) pipeline.steps (pre ++ mid).length rest s w₁) := by
    rw [executePipelineInternal, executeWithErrorShortCircuit, runPipeline]
    have hloop : loopSteps env (executeWithErrorShortCircuit env fuel) pipeline.steps 0 pipeline.steps (.start input none) =
        loopSteps env (executeWithErrorShortCircuit env fuel) pipeline.steps 0 (pre ++ mid) (.start input none) >>=
          continueLoop env (executeWithErrorShortCircuit env fuel) pipeline.steps (0 + (pre ++ mid).length) rest := by
      rw [← loopSteps_append, ← hsteps]
    rw [hloop, bind_assoc, Prog.bind_of_ok hfront, Nat.zero_add]
    rfl
  refine ⟨hfront, hwhole, ?_⟩
  rintro rfl
  obtain ⟨w₂, l₂, hrel, hsame, hcache⟩ := releaseSlots_total s.pipeCtx.pendingCacheSaves w₁
  refine ⟨w₂, l₂, ?_, hsame, hcache⟩
  have hsaves : runPendingCacheSaves s.pipeCtx.pendingCacheSaves s.output w₁ = some (.ok (), w₂, l₂) := by
    rw [runPendingCacheSaves, if_pos (uncacheable_of_error herr)]
    exact hrel
  rw [hwhole, continueRun, loopSteps, pure_bind, finishRun, Prog.bind_of_ok hsaves]
  simp [LoopState.output]

/-- An environment whose only middleware, `fetch`, always fails. -/
def offlineEnv : ExecutionEnv Unit :=
  { registry := fun name =>
      if name = "fetch" then
        some (.stateless .merge fun _ => .error (.err (.plain .middlewareExecutionError "no connection")))
      else none }

/-- Two calls of `fetch`: the second one is passed over, and the run returns the envelope of the first. -/
theorem error_short_circuits_twoFetches :
    ∃ w l, executePipelineInternal offlineEnv 1
        { steps := [.regular { name := "fetch" }, .regular { name := "fetch", config := "again" }] } .null
        (.start (.ofSettings (.ofNew 16 60 (fromSecs 100000))) ()) =
      some (.ok { state := makeMiddlewareErrorValue "fetch" "no connection" none, contentType := "application/json",
                  statusCode := none }, w, l) := by
  obtain ⟨-, -, hend⟩ := error_short_circuits offlineEnv 0
    { steps := [.regular { name := "fetch" }, .regular { name := "fetch", config := "again" }] } .null
    [.regular { name := "fetch" }] [.regular { name := "fetch", config := "again" }] [] rfl (by simp [PipelineStep.isResult])
    (.start (.ofSettings (.ofNew 16 60 (fromSecs 100000))) ()) _ _ _ rfl rfl
  obtain ⟨w, l, hrun, -, -⟩ := hend rfl
  exact ⟨w, _, hrun⟩

end WebPipe

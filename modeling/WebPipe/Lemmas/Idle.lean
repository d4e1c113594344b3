import WebPipe.Lemmas.Regular

/-!
# Steps that are not executed

A step that is passed over for an error, or whose tags are off, leaves the state of the run and what the tags of the other steps
read, when no debugger interferes.
-/

namespace WebPipe

variable {σ : Type} {env : ExecutionEnv σ}

/-- The debugger, if there is one, lets every step go on with the state it has. -/
def Unobtrusive (env : ExecutionEnv σ) : Prop :=
  ∀ dbg, env.debugger = some dbg → ∀ id name location state stack ext,
    ∃ mode, (dbg.beforeStep id name location state stack ext).1 = .ok (mode, state)

/-- A step that the loop comes to is executed: it is not passed over for an error, and its tags hold. -/
def Executes (env : ExecutionEnv σ) (step : PipelineStep) (s : LoopState) (w : World σ) : Prop :=
  s.skips step = false ∧
    match step with
    | .regular r => shouldExecuteStep r.condition env w.reqCtx s.pipeCtx.state = true
    | _ => True

/-! ## Steps that are not executed -/

/-- What the tags read of a request is the same. -/
def SameTags (c c' : RequestContext) : Prop := c'.featureFlags = c.featureFlags ∧ c'.conditions = c.conditions

theorem SameTags.trans {c c' c'' : RequestContext} (h : SameTags c c') (h' : SameTags c' c'') : SameTags c c'' :=
  ⟨h'.1.trans h.1, h'.2.trans h.2⟩

/-- Requests with the same tags agree on expressions. -/
theorem checkTagExpr_sameTags {c c' : RequestContext} (h : SameTags c c') (state : Value) (expr : TagExpr) :
    checkTagExpr env c' state expr = checkTagExpr env c state expr := by
  induction expr with
  | tag tag => simp [checkTagExpr, checkTag, checkFlagTag, checkWhenTag, h.1, h.2]
  | and left right ihl ihr => rw [checkTagExpr, checkTagExpr, ihl, ihr]
  | or left right ihl ihr => rw [checkTagExpr, checkTagExpr, ihl, ihr]

/-- So they execute the same steps. -/
theorem shouldExecuteStep_sameTags {c c' : RequestContext} (h : SameTags c c') (condition : Option TagExpr) (state : Value) :
    shouldExecuteStep condition env c' state = shouldExecuteStep condition env c state := by
  cases condition with
  | none => rfl
  | some expr => exact checkTagExpr_sameTags h state expr

/-- A debugger that does not interfere leaves the state and the tags. -/
theorem handleDebuggerBefore_unobtrusive (hdbg : Unobtrusive env) (step : PipelineStep) (name : String) (ctx : StepContext)
    (w : World σ) :
    ∃ w', Prog.Ends (handleDebuggerBefore env step name ctx) w (.ok ctx) w' ∧ SameTags w.reqCtx w'.reqCtx := by
  unfold handleDebuggerBefore
  cases hd : env.debugger with
  | none => exact ⟨w, Prog.ends_pure ctx w, rfl, rfl⟩
  | some dbg =>
    obtain ⟨mode, hmode⟩ := hdbg dbg hd (w.reqCtx.debugThreadId.getD 0) name step.location ctx.pipeCtx.state
      w.reqCtx.profiler.stack w.ext
    generalize hout : dbg.beforeStep (w.reqCtx.debugThreadId.getD 0) name step.location ctx.pipeCtx.state
      w.reqCtx.profiler.stack w.ext = out at hmode
    refine ⟨{ w with reqCtx := { w.reqCtx with debugStepMode := mode }, ext := out.2 }, (Prog.ends_update _ w).bind ?_, rfl, rfl⟩
    dsimp only
    rw [hout, hmode]
    exact (Prog.ends_modify _ _).bind (Prog.ends_pure _ _)

/-- A step whose tags are off changes neither the state nor the tags. -/
theorem executeStep_idle (run : RunFn σ) (hdbg : Unobtrusive env) {r : RegularStep} (ctx : StepContext) {w : World σ}
    (htags : shouldExecuteStep r.condition env w.reqCtx ctx.pipeCtx.state = false) :
    ∃ w', Prog.Ends (executeStep env run (.regular r) ctx) w (.ok (.continue, ctx)) w' ∧ SameTags w.reqCtx w'.reqCtx := by
  obtain ⟨w₁, hhook, hsame⟩ := handleDebuggerBefore_unobtrusive hdbg (.regular r) (determineStepName (.regular r)) ctx
    { w with reqCtx := { w.reqCtx with profiler := w.reqCtx.profiler.push (determineStepName (.regular r)) } }
  have hoff : shouldExecuteStep r.condition env w₁.reqCtx ctx.pipeCtx.state = false := by
    have hsame' : SameTags w.reqCtx w₁.reqCtx := ⟨hsame.1, hsame.2⟩
    rw [shouldExecuteStep_sameTags hsame']
    exact htags
  have hdispatch : Prog.Ends (dispatchStep env run (.regular r) ctx) w₁ (.ok (.continue, ctx)) w₁ := by
    refine (Prog.ends_gets _ _).bind ?_
    rw [if_neg (by simp [hoff])]
    exact Prog.ends_pure _ _
  refine ⟨_, (Prog.ends_modify _ w).bind (hhook.bind (hdispatch.attempt.bind ((Prog.ends_emit _ _).bind
    ((Prog.ends_modify _ _).bind (Prog.ends_ofExcept _ _))))), ?_⟩
  exact ⟨hsame.1, hsame.2⟩

/-- Two states of the loop in which the same steps would be executed. -/
structure Alike (s s' : LoopState) : Prop where
  state : s'.pipeCtx.state = s.pipeCtx.state
  handled : s'.recompute.handledErrorType = s.recompute.handledErrorType

/-- The handled error type follows from the state. -/
theorem recompute_handled {s s' : LoopState} (hstate : s'.pipeCtx.state = s.pipeCtx.state)
    (h : s'.handledErrorType = s.recompute.handledErrorType) : s'.recompute.handledErrorType = s.recompute.handledErrorType := by
  have herror : s'.currentErrorType = s.currentErrorType := by
    rw [LoopState.currentErrorType, hstate]
    rfl
  unfold LoopState.recompute at h ⊢
  dsimp only at h ⊢
  rw [h, herror]
  by_cases he : s.handledErrorType = s.currentErrorType
  · simp [he]
  · simp [he]

/-- Alike loops skip the same steps. -/
theorem Alike.skips {s s' : LoopState} (h : Alike s s') (step : PipelineStep) : s'.skips step = s.skips step := by
  unfold LoopState.skips LoopState.currentErrorType
  rw [h.state, h.handled]

theorem Alike.trans {s s' s'' : LoopState} (h : Alike s s') (h' : Alike s' s'') : Alike s s'' :=
  ⟨h'.state.trans h.state, h'.handled.trans h.handled⟩

/-- A turn of a step that is not executed goes on as if the step were not there. -/
theorem iterate_idle (run : RunFn σ) (hdbg : Unobtrusive env) {r : RegularStep} {s : LoopState} {w : World σ}
    (hoff : ¬Executes env (.regular r) s w) (steps : List PipelineStep) (idx : Nat) :
    ∃ s' w' l, iterate env run steps idx (.regular r) s w = some (.ok (.inl s'), w', l) ∧ Alike s s' ∧
      SameTags w.reqCtx w'.reqCtx := by
  cases hskip : s.skips (.regular r) with
  | true => exact ⟨_, _, _, iterate_of_skips hskip steps idx w, ⟨rfl, recompute_handled rfl rfl⟩, rfl, rfl⟩
  | false =>
    have htags : shouldExecuteStep r.condition env w.reqCtx s.pipeCtx.state = false := by
      simpa [Executes, hskip] using hoff
    obtain ⟨w', ⟨l, hstep⟩, hsame⟩ := executeStep_idle run hdbg (s.stepContext idx steps) htags
    refine ⟨s.next (s.stepContext idx steps), w', .entered (.regular r) s.pipeCtx.state :: l, ?_,
      ⟨rfl, recompute_handled rfl rfl⟩, hsame⟩
    rw [iterate_of_not_skips hskip, Prog.bind_of_ok (Prog.emit_apply _ _), Prog.bind_of_ok hstep]
    simp

/-- Alike loops execute the same steps. -/
theorem Alike.executes {s s' : LoopState} {w w' : World σ} (h : Alike s s') (htags : SameTags w.reqCtx w'.reqCtx)
    (step : PipelineStep) : Executes env step s' w' ↔ Executes env step s w := by
  unfold Executes
  rw [h.skips]
  cases step with
  | regular r =>
    dsimp only
    rw [h.state, shouldExecuteStep_sameTags htags]
  | _ => exact Iff.rfl

/-- Steps that are not executed, one after the other. -/
theorem loopSteps_idle (run : RunFn σ) (hdbg : Unobtrusive env) (steps : List PipelineStep) {mid : List PipelineStep} (idx : Nat) {s : LoopState}
    {w : World σ} (hoff : ∀ step ∈ mid, ¬Executes env step s w ∧ ∃ r, step = .regular r) :
    ∃ s' w' l, loopSteps env run steps idx mid s w = some (.ok (.inl s'), w', l) ∧ Alike s s' ∧ SameTags w.reqCtx w'.reqCtx := by
  induction mid generalizing idx s w with
  | nil => exact ⟨s, w, [], rfl, ⟨rfl, rfl⟩, rfl, rfl⟩
  | cons step mid ih =>
    obtain ⟨hfirst, r, rfl⟩ := hoff step List.mem_cons_self
    obtain ⟨s₁, w₁, l₁, hturn, halike, htags⟩ := iterate_idle run hdbg hfirst steps idx
    have hrest : ∀ step ∈ mid, ¬Executes env step s₁ w₁ ∧ ∃ r, step = .regular r := by
      intro step hstep
      obtain ⟨hnot, hregular⟩ := hoff step (List.mem_cons_of_mem _ hstep)
      rw [halike.executes htags]
      exact ⟨hnot, hregular⟩
    obtain ⟨s₂, w₂, l₂, hloop, halike₂, htags₂⟩ := ih (idx + 1) hrest
    refine ⟨s₂, w₂, l₁ ++ l₂, ?_, halike.trans halike₂, htags.trans htags₂⟩
    rw [loopSteps_cons, Prog.bind_of_ok hturn, continueLoop, hloop, Prog.logged_some]

end WebPipe

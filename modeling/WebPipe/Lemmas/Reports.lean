import WebPipe.Lemmas.Regular

/-!
# What the steps of a run report

The content type that a run returns is threaded through it apart from the state. The reports of a run say, step for step and with the
runs inside it, which middleware wrote the state and what content type it reported. Every run that returns has its reports.
-/

namespace WebPipe

variable {σ : Type} {env : ExecutionEnv σ} {run : RunFn σ}

/-- What a step has to do with the content type of its run. -/
inductive StepReport where
  /-- No result of the step enters the state. -/
  | silent
  /-- A middleware ran in place: whether it writes the state, whether it is one that renders, the type it reported, and whether the
  step was judged the last one. -/
  | middleware (writes renders : Bool) (reported : String) (last : Bool)
  /-- A named pipeline ran. -/
  | call (last : Bool) (inner : List StepReport)
  /-- A branch ran. -/
  | branch (inner : List StepReport)
  /-- An error, a cache hit or a loop over items. -/
  | other

/-- The middleware whose reports are recorded at any place of a pipeline. -/
def renders (name : String) : Bool := decide (name = "handlebars" ∨ name = "gg" ∨ name = "algraf" ∨ name = "ag")

/-- The middleware of a step changes the state. -/
def writesState (env : ExecutionEnv σ) (name : String) : Bool :=
  match (env.getBehavior name).getD .merge with
  | .readOnly => false
  | _ => true

/-- The step is judged the last one. -/
abbrev StepContext.judgedLast (env : ExecutionEnv σ) (ctx : StepContext) (w : World σ) : Bool :=
  isEffectivelyLastStep ctx.stepIndex ctx.allSteps env w.reqCtx ctx.pipeCtx.state

/-! ## The reports of a step -/

/-- The reports of a run: its pipeline, its input, the error type it handles, where it starts and what it returns. -/
abbrev Reporting (σ : Type) := Pipeline → Value → Option String → World σ → PipelineOutput → List StepReport → Prop

/-- The pipeline that an `if` or `dispatch` step goes on with, and where its run starts. -/
inductive Selects (env : ExecutionEnv σ) (run : RunFn σ) : PipelineStep → StepContext → World σ → Option Pipeline → World σ → Prop
  | thenBranch {c t : Pipeline} {e : Option Pipeline} {location : SourceLocation} {ctx : StepContext} {w w₁ : World σ}
      {cond : PipelineOutput} {l : List Event} (hc : run c ctx.pipeCtx.state none w = some (.ok cond, w₁, l))
      (htrue : isTruthy cond.state = true) : Selects env run (.ifStep c t e location) ctx w (some t) w₁
  | elseBranch {c t : Pipeline} {e : Option Pipeline} {location : SourceLocation} {ctx : StepContext} {w w₁ : World σ}
      {cond : PipelineOutput} {l : List Event} (hc : run c ctx.pipeCtx.state none w = some (.ok cond, w₁, l))
      (hfalse : isTruthy cond.state = false) : Selects env run (.ifStep c t e location) ctx w e w₁
  | dispatchCase {branches : List DispatchBranch} {default : Option Pipeline} {location : SourceLocation} {ctx : StepContext}
      {w : World σ} : Selects env run (.dispatch branches default location) ctx w
        (selectCase env w.reqCtx ctx.pipeCtx.state branches default) w

/-- What the handler of a step returned, and what the step reports. -/
inductive StepReports (env : ExecutionEnv σ) (run : RunFn σ) (Inner : Reporting σ) :
    PipelineStep → StepContext → World σ → StepOutcome × StepContext → StepReport → Prop
  | passed {s : RegularStep} {ctx : StepContext} {w : World σ}
      (h : shouldExecuteStep s.condition env w.reqCtx ctx.pipeCtx.state = false ∨ isAsync env s = true) :
      StepReports env run Inner (.regular s) ctx w (.continue, ctx) .silent
  | middleware {s : RegularStep} {ctx : StepContext} {w w' : World σ} {result : PipelineOutput} {pipeCtx : PipelineContext}
      {l : List Event} {out : StepOutcome × StepContext}
      (htags : shouldExecuteStep s.condition env w.reqCtx ctx.pipeCtx.state = true) (hsync : isAsync env s = false)
      (hname : effectiveName env s ≠ "pipeline") (hx : stepResult env run s ctx w = some (.ok (result, pipeCtx), w', l))
      (hhit : pipeCtx.cacheHit = none) (hout : withResult env s ctx result pipeCtx (ctx.judgedLast env w) = out) :
      StepReports env run Inner (.regular s) ctx w out
        (.middleware (writesState env (effectiveName env s)) (renders (effectiveName env s)) result.contentType
          (ctx.judgedLast env w))
  | call {s : RegularStep} {ctx : StepContext} {w w₁ w' : World σ} {q : Pipeline} {input : Value} {result : PipelineOutput}
      {pipeCtx : PipelineContext} {l l₁ : List Event} {inner : List StepReport} {out : StepOutcome × StepContext}
      (htags : shouldExecuteStep s.condition env w.reqCtx ctx.pipeCtx.state = true) (hsync : isAsync env s = false)
      (hname : effectiveName env s = "pipeline") (hx : stepResult env run s ctx w = some (.ok (result, pipeCtx), w', l))
      (hhit : pipeCtx.cacheHit = none)
      (hq : resolveNamedPipeline env s.location (Text.trim (resolvedStep env s ctx.pipeCtx.state).1) = some q)
      (hinput : pipelineInput env s.args (resolvedStep env s ctx.pipeCtx.state).2.1 = .ok input)
      (hlog : Prog.Ends (logPipelineCall (effectiveName env s) (resolvedStep env s ctx.pipeCtx.state).1
        (resolvedStep env s ctx.pipeCtx.state).2.1) w (.ok ()) w₁)
      (hrun : run q input none w₁ = some (.ok result, w', l₁)) (hinner : Inner q input none w₁ result inner)
      (hout : withResult env s ctx result pipeCtx (ctx.judgedLast env w) = out) :
      StepReports env run Inner (.regular s) ctx w out (.call (ctx.judgedLast env w) inner)
  | hit {s : RegularStep} {ctx : StepContext} {w w' : World σ} {result : PipelineOutput} {pipeCtx : PipelineContext}
      {l : List Event} {out : StepOutcome × StepContext}
      (htags : shouldExecuteStep s.condition env w.reqCtx ctx.pipeCtx.state = true) (hsync : isAsync env s = false)
      (hx : stepResult env run s ctx w = some (.ok (result, pipeCtx), w', l)) (hhit : pipeCtx.cacheHit ≠ none)
      (hout : withResult env s ctx result pipeCtx (ctx.judgedLast env w) = out) :
      StepReports env run Inner (.regular s) ctx w out .other
  | unselected {step : PipelineStep} {ctx : StepContext} {w w₁ : World σ} (h : Selects env run step ctx w none w₁) :
      StepReports env run Inner step ctx w (.continue, ctx) .silent
  | branch {step : PipelineStep} {ctx : StepContext} {w w₁ w' : World σ} {q : Pipeline} {result : PipelineOutput} {l : List Event}
      {inner : List StepReport} (h : Selects env run step ctx w (some q) w₁)
      (hrun : run q ctx.pipeCtx.state none w₁ = some (.ok result, w', l)) (hinner : Inner q ctx.pipeCtx.state none w₁ result inner) :
      StepReports env run Inner step ctx w (.continue, ctx.afterBranch result) (.branch inner)
  | resultBranch {branches : List ResultBranch} {location : SourceLocation} {ctx : StepContext} {w w' : World σ}
      {b : ResultBranch} {result : PipelineOutput} {l : List Event} {inner : List StepReport}
      (hb : selectBranch branches (extractErrorType ctx.pipeCtx.state) = some b)
      (hrun : run b.pipeline ctx.pipeCtx.state (extractErrorType ctx.pipeCtx.state) w = some (.ok result, w', l))
      (hinner : Inner b.pipeline ctx.pipeCtx.state (extractErrorType ctx.pipeCtx.state) w result inner) :
      StepReports env run Inner (.result branches location) ctx w
        (.ret
          { state := restoreCookies ctx.pipeCtx.state result.state
            contentType := if result.contentType ≠ "application/json" then result.contentType else ctx.output.contentType
            statusCode := some b.statusCode }, ctx.withState (restoreCookies ctx.pipeCtx.state result.state)) (.branch inner)
  | noResult {branches : List ResultBranch} {location : SourceLocation} {ctx : StepContext} {w : World σ}
      (hb : selectBranch branches (extractErrorType ctx.pipeCtx.state) = none) :
      StepReports env run Inner (.result branches location) ctx w
        (.ret { state := ctx.pipeCtx.state, contentType := ctx.output.contentType, statusCode := ctx.output.statusCode }, ctx) .silent
  | foreach {selector : String} {p : Pipeline} {location : SourceLocation} {ctx : StepContext} {w w' : World σ}
      {out : StepOutcome × StepContext} {l : List Event} (hx : handleForeachStep run selector p ctx w = some (.ok out, w', l)) :
      StepReports env run Inner (.foreach selector p location) ctx w out .other

/-! ## The reports of a run -/

/-- How the loop ended, and the reports of its steps. -/
inductive LoopReports (env : ExecutionEnv σ) (run : RunFn σ) (Inner : Reporting σ) (steps : List PipelineStep) :
    Nat → List PipelineStep → LoopState → World σ → LoopState ⊕ PipelineOutput → List StepReport → Prop
  | nil {idx : Nat} {s : LoopState} {w : World σ} : LoopReports env run Inner steps idx [] s w (.inl s) []
  | skip {idx : Nat} {step : PipelineStep} {rest : List PipelineStep} {s : LoopState} {w : World σ}
      {last : LoopState ⊕ PipelineOutput} {rs : List StepReport} (hs : s.skips step = true)
      (hrest : LoopReports env run Inner steps (idx + 1) rest s.recompute w last rs) :
      LoopReports env run Inner steps idx (step :: rest) s w last (.other :: rs)
  | failed {idx : Nat} {step : PipelineStep} {rest : List PipelineStep} {s s' : LoopState} {w w₁ w₂ w' : World σ}
      {ctx₁ : StepContext} {f : Failure} {l l₁ : List Event} {last : LoopState ⊕ PipelineOutput} {rs : List StepReport}
      (hs : s.skips step = false) (henter : Prog.Ends (enterStep env step (s.stepContext idx steps)) w (.ok ctx₁) w₁)
      (hfail : dispatchStep env run step ctx₁ w₁ = some (.error f, w₂, l₁))
      (hturn : iterate env run steps idx step s w = some (.ok (.inl s'), w', l))
      (hrest : LoopReports env run Inner steps (idx + 1) rest s' w' last rs) :
      LoopReports env run Inner steps idx (step :: rest) s w last (.other :: rs)
  | next {idx : Nat} {step : PipelineStep} {rest : List PipelineStep} {s : LoopState} {w w₁ w' : World σ}
      {ctx₁ ctx₂ : StepContext} {l : List Event} {last : LoopState ⊕ PipelineOutput} {r : StepReport} {rs : List StepReport}
      (hs : s.skips step = false) (henter : Prog.Ends (enterStep env step (s.stepContext idx steps)) w (.ok ctx₁) w₁)
      (hstep : StepReports env run Inner step ctx₁ w₁ (.continue, ctx₂) r)
      (hturn : iterate env run steps idx step s w = some (.ok (.inl (s.next ctx₂)), w', l))
      (hrest : LoopReports env run Inner steps (idx + 1) rest (s.next ctx₂) w' last rs) :
      LoopReports env run Inner steps idx (step :: rest) s w last (r :: rs)
  | ret {idx : Nat} {step : PipelineStep} {rest : List PipelineStep} {s : LoopState} {w w₁ w' : World σ}
      {ctx₁ ctx₂ : StepContext} {output : PipelineOutput} {l : List Event} {r : StepReport}
      (hs : s.skips step = false) (henter : Prog.Ends (enterStep env step (s.stepContext idx steps)) w (.ok ctx₁) w₁)
      (hstep : StepReports env run Inner step ctx₁ w₁ (.ret output, ctx₂) r)
      (hturn : iterate env run steps idx step s w = some (.ok (.inr output), w', l)) :
      LoopReports env run Inner steps idx (step :: rest) s w (.inr output) [r]

/-- What a run returns whose loop has ended. -/
def returned : LoopState ⊕ PipelineOutput → PipelineOutput
  | .inl s => s.output
  | .inr output => output

/-- The reports of a run with some fuel. -/
def RunReports (env : ExecutionEnv σ) : Nat → Reporting σ
  | 0 => fun _ _ _ _ _ _ => False
  | n + 1 => fun pipeline input handled w output rs =>
    ∃ last, LoopReports env (executeWithErrorShortCircuit env n) (RunReports env n) pipeline.steps 0 pipeline.steps
      (.start input handled) w last rs ∧ output = returned last

/-! ## Every run that returns has reports -/

/-- Runs that return have reports. -/
def Reported (run : RunFn σ) (Inner : Reporting σ) : Prop :=
  ∀ q input handled w output w' l, run q input handled w = some (.ok output, w', l) → ∃ rs, Inner q input handled w output rs

variable {Inner : Reporting σ}

/-- The result of a call is what the run of the called pipeline returned. -/
theorem stepResult_call {s : RegularStep} {ctx : StepContext} (hsync : isAsync env s = false)
    (hname : effectiveName env s = "pipeline") {w w' : World σ} {result : PipelineOutput} {pipeCtx : PipelineContext}
    {l : List Event} (h : stepResult env run s ctx w = some (.ok (result, pipeCtx), w', l)) :
    ∃ q input w₁ l',
      resolveNamedPipeline env s.location (Text.trim (resolvedStep env s ctx.pipeCtx.state).1) = some q ∧
      pipelineInput env s.args (resolvedStep env s ctx.pipeCtx.state).2.1 = .ok input ∧
      Prog.Ends (logPipelineCall (effectiveName env s) (resolvedStep env s ctx.pipeCtx.state).1
        (resolvedStep env s ctx.pipeCtx.state).2.1) w (.ok ()) w₁ ∧
      run q input none w₁ = some (.ok result, w', l') := by
  have hmode : detectExecutionMode (effectiveName env s) s.condition = .recursive := by
    unfold isAsync at hsync
    revert hsync
    rw [hname]
    unfold detectExecutionMode
    cases s.condition.bind getAsyncFromTagExpr <;> simp
  obtain ⟨_, w₁, l₁, l₂, hlog, hcore, -⟩ := Prog.bind_eq_ok h
  rw [hmode] at hcore
  obtain ⟨result', w₂, l₃, l₄, hcall, hend, -⟩ := Prog.bind_eq_ok hcore
  cases hend
  unfold handleRecursivePipeline at hcall
  cases hq : resolveNamedPipeline env s.location (Text.trim (resolvedStep env s ctx.pipeCtx.state).1) with
  | none =>
    rw [hq] at hcall
    cases hcall
  | some q =>
    rw [hq] at hcall
    cases hinput : pipelineInput env s.args (resolvedStep env s ctx.pipeCtx.state).2.1 with
    | error e =>
      rw [hinput] at hcall
      cases hcall
    | ok input =>
      rw [hinput] at hcall
      obtain ⟨inner, hrun, -⟩ := nested_eq_some hcall
      exact ⟨q, input, w₁, inner, rfl, rfl, ⟨l₁, hlog⟩, hrun⟩

/-- A regular step reports what its middleware, its call or its join did. -/
theorem executeRegular_reports (hrun : Reported run Inner) {s : RegularStep} {ctx : StepContext} {w w' : World σ}
    {out : StepOutcome × StepContext} {l : List Event} (h : executeRegular env run s ctx w = some (.ok out, w', l)) :
    ∃ r, StepReports env run Inner (.regular s) ctx w out r := by
  cases executeRegular_end h with
  | idle htags => exact ⟨_, .passed (Or.inl htags)⟩
  | spawn htags hmode => exact ⟨_, .passed (Or.inr (by simp [isAsync, hmode]))⟩
  | @done result pipeCtx _ _ htags hsync hx =>
    by_cases hhit : pipeCtx.cacheHit = none
    · by_cases hname : effectiveName env s = "pipeline"
      · obtain ⟨q, input, w₁, l', hq, hinput, hlog, hinner⟩ := stepResult_call hsync hname hx
        obtain ⟨rs, hrs⟩ := hrun _ _ _ _ _ _ _ hinner
        exact ⟨_, .call htags hsync hname hx hhit hq hinput hlog hinner hrs rfl⟩
      · exact ⟨_, .middleware htags hsync hname hx hhit rfl⟩
    · exact ⟨_, .hit htags hsync hx hhit rfl⟩

/-- The step that goes on with a pipeline, or with none. -/
theorem selected_reports (selected : Option Pipeline) (hrun : Reported run Inner) {step : PipelineStep} {ctx : StepContext}
    {w w₁ w' : World σ} {entry : Entry} {out : StepOutcome × StepContext} {l : List Event}
    (hx : (match selected with
      | some pipeline => executeBranch run entry pipeline ctx
      | none => pure (.continue, ctx) : Exec σ (StepOutcome × StepContext)) w₁ = some (.ok out, w', l))
    (h : Selects env run step ctx w selected w₁) :
    ∃ r, StepReports env run Inner step ctx w out r := by
  cases selected with
  | none =>
    cases hx
    exact ⟨_, .unselected h⟩
  | some q =>
    obtain ⟨result, w₂, l₁, l₂, hn, hp, -⟩ := Prog.bind_eq_ok hx
    obtain ⟨inner, hq, -⟩ := nested_eq_some hn
    cases hp
    obtain ⟨rs, hrs⟩ := hrun _ _ _ _ _ _ _ hq
    exact ⟨_, .branch h hq hrs⟩

/-- Every kind of step has a report. -/
theorem dispatchStep_reports (hrun : Reported run Inner) {step : PipelineStep} {ctx : StepContext} {w w' : World σ}
    {out : StepOutcome × StepContext} {l : List Event} (h : dispatchStep env run step ctx w = some (.ok out, w', l)) :
    ∃ r, StepReports env run Inner step ctx w out r := by
  cases step with
  | regular s => exact executeRegular_reports hrun h
  | result branches location =>
    change handleResultStep run branches ctx w = some (.ok out, w', l) at h
    unfold handleResultStep at h
    cases hb : selectBranch branches (extractErrorType ctx.pipeCtx.state) with
    | some b =>
      rw [hb] at h
      obtain ⟨result, w₂, l₁, l₂, hn, hp, -⟩ := Prog.bind_eq_ok h
      obtain ⟨inner, hq, -⟩ := nested_eq_some hn
      cases hp
      obtain ⟨rs, hrs⟩ := hrun _ _ _ _ _ _ _ hq
      exact ⟨_, .resultBranch hb hq hrs⟩
    | none =>
      rw [hb] at h
      cases h
      exact ⟨_, .noResult hb⟩
  | ifStep c t e location =>
    obtain ⟨cond, w₁, l₁, l₂, hn, hrest, -⟩ := Prog.bind_eq_ok h
    obtain ⟨inner, hc, -⟩ := nested_eq_some hn
    cases htrue : isTruthy cond.state with
    | true =>
      rw [htrue, if_pos rfl] at hrest
      exact selected_reports (some t) hrun hrest (.thenBranch hc htrue)
    | false =>
      rw [htrue, if_neg Bool.false_ne_true] at hrest
      exact selected_reports e hrun hrest (.elseBranch hc htrue)
  | dispatch branches default location =>
    simp only [dispatchStep, handleDispatchStep, Exec.req] at h
    rw [Prog.gets_bind] at h
    exact selected_reports _ hrun h .dispatchCase
  | foreach selector p location => exact ⟨_, .foreach h⟩

theorem settle_ok (step : PipelineStep) (ctx : StepContext) (out : StepOutcome × StepContext) :
    settle step ctx (.ok out) = .ok out := by
  cases step <;> rfl

/-- A failed step does not return. -/
theorem settle_error_ne_ret (step : PipelineStep) (ctx : StepContext) (f : Failure) {output : PipelineOutput} {ctx' : StepContext} :
    settle step ctx (.error f) ≠ .ok (.ret output, ctx') := by
  intro h
  unfold settle at h
  split at h
  · split at h
    · cases h
    · cases h
  · cases h

/-- The loop reports its turns: induction on the steps that are left. -/
theorem loopSteps_reports (hrun : Reported run Inner) {steps : List PipelineStep} (rest : List PipelineStep) {idx : Nat}
    {s : LoopState} {w w' : World σ} {last : LoopState ⊕ PipelineOutput} {l : List Event}
    (h : loopSteps env run steps idx rest s w = some (.ok last, w', l)) :
    ∃ rs, LoopReports env run Inner steps idx rest s w last rs := by
  induction rest generalizing idx s w l with
  | nil =>
    cases h
    exact ⟨[], .nil⟩
  | cons step rest ih =>
    rw [loopSteps_cons] at h
    obtain ⟨turn, w₁, l₁, l₂, hturn, hrest, -⟩ := Prog.bind_eq_ok h
    cases iterate_turn hturn with
    | skip hs =>
      obtain ⟨rs, hrs⟩ := ih hrest
      exact ⟨_, .skip hs hrs⟩
    | next hs hx =>
      obtain ⟨ctx₁, w₂, raw, w₃, l₃, henter, hraw, hsettle⟩ := executeStep_entered hx
      obtain ⟨rs, hrs⟩ := ih hrest
      cases raw with
      | error f => exact ⟨_, .failed hs henter hraw hturn hrs⟩
      | ok out =>
        have hout : out = _ := Except.ok.inj ((settle_ok step ctx₁ out).symm.trans hsettle)
        subst hout
        obtain ⟨r, hr⟩ := dispatchStep_reports hrun hraw
        exact ⟨_, .next hs henter hr hturn hrs⟩
    | ret hs hx hsaves =>
      obtain ⟨ctx₁, w₂, raw, w₃, l₃, henter, hraw, hsettle⟩ := executeStep_entered hx
      cases hrest
      cases raw with
      | error f => exact absurd hsettle (settle_error_ne_ret step ctx₁ f)
      | ok out =>
        have hout : out = _ := Except.ok.inj ((settle_ok step ctx₁ out).symm.trans hsettle)
        subst hout
        obtain ⟨r, hr⟩ := dispatchStep_reports hrun hraw
        exact ⟨_, .ret hs henter hr hturn⟩

/-- A run that returns has reports. -/
theorem execute_reports (n : Nat) : Reported (executeWithErrorShortCircuit env n) (RunReports env n) := by
  induction n with
  | zero => exact fun _ _ _ _ _ _ _ h => nomatch h
  | succ n ih =>
    intro q input handled w output w' l h
    obtain ⟨last, w₁, l₁, l₂, hloop, hend, -⟩ := Prog.bind_eq_ok h
    obtain ⟨rs, hrs⟩ := loopSteps_reports ih q.steps hloop
    refine ⟨rs, last, hrs, ?_⟩
    cases last with
    | inr output' =>
      cases hend
      rfl
    | inl s =>
      obtain ⟨_, w₂, l₃, l₄, -, hp, -⟩ := Prog.bind_eq_ok hend
      cases hp
      rfl

end WebPipe

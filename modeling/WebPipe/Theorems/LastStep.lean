import WebPipe.Lemmas.Idle

/-!
# The last step

Before a regular step runs, the executor looks ahead: when the tags of every later step are off, the step counts as the last one.
It looks at the state and the request as they are before the step. The later steps look at what the step leaves, and a `@guard`
or `@when` that was off may be on there. `last_step_sound_iff` says that nothing else can go wrong: steps that are not executed leave
the tags of the others as they are.
-/

namespace WebPipe

variable {σ : Type} {env : ExecutionEnv σ} {run : RunFn σ}

/-- No later step is executed in the run that goes on with a step. -/
def NoneExecutedAfter (env : ExecutionEnv σ) (run : RunFn σ) (steps : List PipelineStep) (idx : Nat) (step : PipelineStep)
    (post : List PipelineStep) (s : LoopState) (w : World σ) : Prop :=
  ∀ mid later rest, post = mid ++ later :: rest → ∀ s' w' l,
    loopSteps env run steps idx (step :: mid) s w = some (.ok (.inl s'), w', l) → ¬Executes env later s' w'

/-- Where the step goes on, a later step whose tags are off before it is not executed on what it leaves: its tags are off
there too, or the state carries an error. -/
def TagsStayOff (env : ExecutionEnv σ) (run : RunFn σ) (steps : List PipelineStep) (idx : Nat) (step : PipelineStep)
    (post : List PipelineStep) (s : LoopState) (w : World σ) : Prop :=
  ∀ s' w' l, iterate env run steps idx step s w = some (.ok (.inl s'), w', l) → ∀ r : RegularStep, .regular r ∈ post →
    shouldExecuteStep r.condition env w.reqCtx s.pipeCtx.state = false →
      s'.skips (.regular r) = true ∨ shouldExecuteStep r.condition env w'.reqCtx s'.pipeCtx.state = false

/-! ## The look-ahead -/

/-- The steps up to the first one with a property do not have it. -/
theorem exists_first {α : Type*} {P : α → Prop} {l : List α} (h : ∃ x ∈ l, P x) :
    ∃ mid x rest, l = mid ++ x :: rest ∧ P x ∧ ∀ y ∈ mid, ¬P y := by
  induction l with
  | nil =>
    obtain ⟨x, hx, -⟩ := h
    cases hx
  | cons a l ih =>
    by_cases ha : P a
    · exact ⟨[], a, l, rfl, ha, nofun⟩
    · obtain ⟨x, hx, hP⟩ := h
      have hl : x ∈ l := (List.mem_cons.mp hx).resolve_left fun e => ha (e ▸ hP)
      obtain ⟨mid, y, rest, rfl, hy, hmid⟩ := ih ⟨x, hl, hP⟩
      refine ⟨a :: mid, y, rest, rfl, hy, ?_⟩
      intro z hz
      rcases List.mem_cons.mp hz with rfl | hz
      · exact ha
      · exact hmid z hz

/-- A step that counts as the last one has only regular steps after it, and their tags are off. -/
theorem later_of_isEffectivelyLastStep {pre post : List PipelineStep} {step : PipelineStep} {c : RequestContext} {state : Value}
    (h : isEffectivelyLastStep pre.length (pre ++ step :: post) env c state = true) {later : PipelineStep}
    (hlater : later ∈ post) : ∃ r, later = .regular r ∧ shouldExecuteStep r.condition env c state = false := by
  have hdrop : (pre ++ step :: post).drop (pre.length + 1) = post := by simp
  unfold isEffectivelyLastStep at h
  rw [hdrop] at h
  have hoff := List.all_eq_true.mp h later hlater
  cases later with
  | regular r => exact ⟨r, rfl, by simpa using hoff⟩
  | _ => cases hoff

/-- The step of a run that counts as the last one is the last one to be executed if and only if what it leaves keeps the tags of
the later steps off. -/
theorem last_step_sound_iff (env : ExecutionEnv σ) (hdbg : Unobtrusive env) (run : RunFn σ) (pre post : List PipelineStep)
    (step : PipelineStep) (s : LoopState) (w : World σ)
    (hlast : isEffectivelyLastStep pre.length (pre ++ step :: post) env w.reqCtx s.pipeCtx.state = true) :
    NoneExecutedAfter env run (pre ++ step :: post) pre.length step post s w ↔
      TagsStayOff env run (pre ++ step :: post) pre.length step post s w := by
  generalize hsteps : pre ++ step :: post = steps at *
  have hlater : ∀ later ∈ post, ∃ r, later = .regular r ∧ shouldExecuteStep r.condition env w.reqCtx s.pipeCtx.state = false :=
    fun later h => later_of_isEffectivelyLastStep (hsteps ▸ hlast) h
  constructor
  · intro hnone s' w' l hturn r hr _
    by_contra hon
    simp only [not_or, Bool.not_eq_true, Bool.not_eq_false] at hon
    -- the first step that would be executed is, since the steps before it change nothing
    obtain ⟨mid, later, rest, rfl, hexec, hmid⟩ :=
      exists_first (P := fun step => Executes env step s' w') ⟨.regular r, hr, hon⟩
    have hoff : ∀ step ∈ mid, ¬Executes env step s' w' ∧ ∃ r, step = .regular r := by
      intro step hstep
      obtain ⟨r, rfl, -⟩ := hlater step (List.mem_append_left _ hstep)
      exact ⟨hmid _ hstep, r, rfl⟩
    obtain ⟨s₂, w₂, l₂, hloop, halike, htags⟩ := loopSteps_idle run hdbg steps (pre.length + 1) hoff
    refine hnone mid later rest rfl s₂ w₂ (l ++ l₂) ?_ ((halike.executes htags later).mpr hexec)
    rw [loopSteps_cons, Prog.bind_of_ok hturn, continueLoop, hloop, Prog.logged_some]
  · intro hstay mid later rest hpost s₂ w₂ l hloop
    rw [loopSteps_cons] at hloop
    obtain ⟨turn, w', l₁, l₂, hturn, hrest, -⟩ := Prog.bind_eq_ok hloop
    cases turn with
    | inr output => cases hrest
    | inl s' =>
      have hoff : ∀ step ∈ post, ¬Executes env step s' w' ∧ ∃ r, step = .regular r := by
        intro step hstep
        obtain ⟨r, rfl, hbefore⟩ := hlater step hstep
        refine ⟨fun hexec => ?_, r, rfl⟩
        rcases hstay s' w' l₁ hturn r hstep hbefore with hskip | htags
        · simp [Executes, hskip] at hexec
        · simp [Executes, htags] at hexec
      have hmid : ∀ step ∈ mid, ¬Executes env step s' w' ∧ ∃ r, step = .regular r :=
        fun step hstep => hoff step (hpost ▸ List.mem_append_left _ hstep)
      obtain ⟨s₃, w₃, l₃, hidle, halike, htags⟩ := loopSteps_idle run hdbg steps (pre.length + 1) hmid
      rw [continueLoop, hidle] at hrest
      cases hrest
      rw [halike.executes htags]
      exact (hoff later (hpost ▸ by simp)).1

/-- A jq step that makes the state ready. -/
def readyStep : PipelineStep := .regular { name := "jq", config := "ready" }

/-- A jq step for states that are ready. -/
def guardedStep : PipelineStep :=
  .regular { name := "jq", config := "seen", condition := some (.tag { name := "guard", negated := false, args := [".ready"] }) }

/-- A jq that answers the two filters with an object, and reads `.ready`. -/
def readyEnv : ExecutionEnv Unit :=
  { registry := fun name =>
      if name = "jq" then some (.stateless .transform fun call => .ok ({}, .object [(call.config, .bool true)])) else none
    jq := fun filter input => if filter = ".ready" then .ok ((input.get "ready").getD .null) else .error "no filter" }

theorem unobtrusive_readyEnv : Unobtrusive readyEnv := nofun

/-- A request that starts alone. -/
def readyWorld : World Unit := .start (.ofSettings (.ofNew 16 60 (fromSecs 100000))) ()

/-- The query of a request. -/
def queryState : Value := .object [("query", .string "q")]

theorem last_step_sound_iff_guarded :
    NoneExecutedAfter readyEnv (executeWithErrorShortCircuit readyEnv 0) [readyStep, guardedStep] 0 readyStep [guardedStep]
        (.start queryState none) readyWorld ↔
      TagsStayOff readyEnv (executeWithErrorShortCircuit readyEnv 0) [readyStep, guardedStep] 0 readyStep [guardedStep]
        (.start queryState none) readyWorld :=
  last_step_sound_iff readyEnv unobtrusive_readyEnv (executeWithErrorShortCircuit readyEnv 0) [] [guardedStep] readyStep
    (.start queryState none) readyWorld rfl

/-- The first step counts as the last one and drops the query of the request. It makes the guard of the second one hold, which is
executed on what is left. -/
theorem last_step_goes_on :
    isEffectivelyLastStep 0 [readyStep, guardedStep] readyEnv readyWorld.reqCtx queryState = true ∧
      ¬NoneExecutedAfter readyEnv (executeWithErrorShortCircuit readyEnv 0) [readyStep, guardedStep] 0 readyStep [guardedStep]
        (.start queryState none) readyWorld ∧
      (executePipelineInternal readyEnv 1 { steps := [readyStep, guardedStep] } queryState readyWorld).map
          (fun p => p.1.toOption.map (fun output => output.state)) = some (some (.object [("seen", .bool true)])) :=
  ⟨rfl, fun h => h [] guardedStep [] rfl _ _ _ rfl ⟨rfl, rfl⟩, rfl⟩

end WebPipe

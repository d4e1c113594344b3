import WebPipe.Lemmas.Trace

/-!
# Error handlers

A branch of a `result` step that handles an error runs its own steps on the error's state. A run started below the branch, by an
`if`, a `dispatch` or a call of a named pipeline, starts with no handled error: there the same state makes every step but a
`result` be passed over.
-/

namespace WebPipe

variable {σ : Type} {env : ExecutionEnv σ} {run : RunFn σ}

/-! ## The steps a run comes to -/

/-- A step that a run came to, the state it came with, and whether the step was executed or passed over. -/
structure Visit where
  step : PipelineStep
  state : Value
  executed : Bool

/-- The visit an event reports. -/
def Event.visit : Event → Option Visit
  | .skipped step state => some { step := step, state := state, executed := false }
  | .entered step state => some { step := step, state := state, executed := true }
  | _ => none

/-- The visits of a run, in order; those of the runs inside it are not among them. -/
def visits (l : List Event) : List Visit := l.filterMap Event.visit

/-- Visits come in order. -/
theorem visits_append (l₁ l₂ : List Event) : visits (l₁ ++ l₂) = visits l₁ ++ visits l₂ :=
  List.filterMap_append ..

/-- The log reports no visit. -/
def NoVisits (_ : World σ) (l : List Event) (_ : World σ) : Prop := visits l = []

/-- Logs without visits add up to one. -/
theorem passes_noVisits : Passes (NoVisits : World σ → List Event → World σ → Prop) where
  quiet _ := rfl
  trans h₁ h₂ := by
    unfold NoVisits at *
    rw [visits_append, h₁, h₂, List.append_nil]

/-- Steps report no visit of the run they are executed in. -/
theorem covers_noVisits (env : ExecutionEnv σ) (run : RunFn σ) : Covers env run NoVisits where
  toPasses := passes_noVisits
  runs _ _ _ _ _ _ _ _ := rfl
  tasks _ _ _ _ _ _ _ := rfl
  invoked _ _ _ := rfl
  spawned _ _ _ := rfl
  joined _ _ _ := rfl
  cache _ _ _ _ := rfl
  settled _ _ _ _ _ _ _ _ := rfl

/-- A step visits no other step of its own run. -/
theorem visits_executeStep {step : PipelineStep} {ctx : StepContext} {w w' : World σ}
    {r : Except Failure (StepOutcome × StepContext)} {l : List Event}
    (h : executeStep env run step ctx w = some (r, w', l)) : visits l = [] :=
  follows_executeStep (covers_noVisits env run) _ _ _ _ _ _ h

/-- The final saves visit no step. -/
theorem visits_saves {saves : List PendingCacheSave} {output : PipelineOutput} {w w' : World σ} {r : Except Failure Unit}
    {l : List Event} (h : runPendingCacheSaves saves output w = some (r, w', l)) : visits l = [] :=
  follows_runPendingCacheSaves passes_noVisits.frames (fun _ _ _ _ => rfl) _ _ _ _ _ _ h

/-- A turn of the loop is one visit. -/
theorem visits_turn {steps : List PipelineStep} {idx : Nat} {step : PipelineStep} {s : LoopState} {w w' : World σ}
    {r : Except Failure (LoopState ⊕ PipelineOutput)} {l : List Event} (h : Turn env run steps idx step s w r w' l) :
    visits l = [{ step := step, state := s.pipeCtx.state, executed := !s.skips step }] := by
  have hcons : ∀ l, visits l = [] → visits (.entered step s.pipeCtx.state :: l) =
      [{ step := step, state := s.pipeCtx.state, executed := true }] := by
    intro l hl
    rw [← List.singleton_append, visits_append, hl]
    rfl
  cases h with
  | skip hs =>
    rw [hs]
    rfl
  | fail hs hx => rw [hs, hcons _ (visits_executeStep hx), Bool.not_false]
  | next hs hx => rw [hs, hcons _ (visits_executeStep hx), Bool.not_false]
  | ret hs hx hsaves =>
    rw [hs, hcons _ (by rw [visits_append, visits_executeStep hx, visits_saves hsaves, List.append_nil]), Bool.not_false]
  | retFail hs hx hsaves =>
    rw [hs, hcons _ (by rw [visits_append, visits_executeStep hx, visits_saves hsaves, List.append_nil]), Bool.not_false]

/-! ## Which steps are executed -/

/-- On a state of type `E`, a step is executed exactly when the loop handles `E` or the step is a `result`. -/
theorem skips_iff {s : LoopState} {E : String} (hE : extractErrorType s.pipeCtx.state = some E) (step : PipelineStep) :
    s.skips step = false ↔ s.handledErrorType = some E ∨ step.isResult = true := by
  have hcur : s.currentErrorType = some E := hE
  unfold LoopState.skips LoopState.recompute
  rw [hcur]
  by_cases hh : s.handledErrorType = some E
  · simp [hh]
  · simp [hh]

/-- On a state of type `E`, a loop goes on handling `E` exactly when it did. -/
theorem recompute_handles {s : LoopState} {E : String} (hE : extractErrorType s.pipeCtx.state = some E) :
    s.recompute.handledErrorType = some E ↔ s.handledErrorType = some E := by
  have hcur : s.currentErrorType = some E := hE
  unfold LoopState.recompute
  rw [hcur]
  by_cases hh : s.handledErrorType = some E
  · simp [hh]
  · simp [hh]

/-- The first visit of a loop is its first turn; the others are those of the loop that goes on, if it does. -/
theorem visits_loopSteps_cons {steps : List PipelineStep} {idx : Nat} {step : PipelineStep} {rest : List PipelineStep}
    {s : LoopState} {w w' : World σ} {r : Except Failure (LoopState ⊕ PipelineOutput)} {l : List Event}
    (h : loopSteps env run steps idx (step :: rest) s w = some (r, w', l)) :
    ∃ others, visits l = { step := step, state := s.pipeCtx.state, executed := !s.skips step } :: others ∧
      (others = [] ∨ ∃ s₁ w₁ l₁, s₁.handledErrorType = s.recompute.handledErrorType ∧ visits l₁ = others ∧
        loopSteps env run steps (idx + 1) rest s₁ w₁ = some (r, w', l₁)) := by
  rw [loopSteps_cons] at h
  obtain ⟨f, hi, rfl⟩ | ⟨out, w₁, l₁, l₂, hi, hrest, rfl⟩ := Prog.bind_eq_some h
  · exact ⟨[], visits_turn (iterate_turn hi), Or.inl rfl⟩
  · have hturn := visits_turn (iterate_turn hi)
    refine ⟨visits l₂, by rw [visits_append, hturn]; rfl, ?_⟩
    cases out with
    | inr output =>
      cases hrest
      exact Or.inl rfl
    | inl s₁ =>
      refine Or.inr ⟨s₁, w₁, l₂, ?_, rfl, hrest⟩
      cases iterate_turn hi with
      | skip => rfl
      | next => rfl

/-- As long as every state is of type `E`, a loop executes exactly the steps it came to handling `E`, and `result` steps. -/
theorem executed_iff_loopSteps {E : String} {steps : List PipelineStep} (rest : List PipelineStep) {idx : Nat}
    {s : LoopState} {w w' : World σ} {r : Except Failure (LoopState ⊕ PipelineOutput)} {l : List Event}
    (h : loopSteps env run steps idx rest s w = some (r, w', l)) {a b : List Visit} {x : Visit}
    (hl : visits l = a ++ x :: b) (ha : ∀ y ∈ a, extractErrorType y.state = some E)
    (hx : extractErrorType x.state = some E) :
    x.executed = true ↔ s.handledErrorType = some E ∨ x.step.isResult = true := by
  induction rest generalizing idx s w l a with
  | nil =>
    cases h
    cases a <;> cases hl
  | cons step rest ih =>
    obtain ⟨others, hvisits, hothers⟩ := visits_loopSteps_cons h
    rw [hvisits] at hl
    cases a with
    | nil =>
      obtain ⟨rfl, -⟩ := List.cons.inj hl
      rw [← skips_iff hx step]
      simp
    | cons y a =>
      obtain ⟨rfl, hrest⟩ := List.cons.inj hl
      have hE : extractErrorType s.pipeCtx.state = some E := ha _ List.mem_cons_self
      rcases hothers with hnil | ⟨s₁, w₁, l₁, hs₁, hl₁, hloop⟩
      · rw [hnil] at hrest
        cases a <;> cases hrest
      · rw [ih hloop (hl₁.trans hrest) (fun z hz => ha z (List.mem_cons_of_mem _ hz)), hs₁, recompute_handles hE]

/-- The visits of a run are those of its loop. -/
theorem visits_execute {n : Nat} {pipeline : Pipeline} {input : Value} {handled : Option String} {w w' : World σ}
    {r : Except Failure PipelineOutput} {l : List Event}
    (h : executeWithErrorShortCircuit env n pipeline input handled w = some (r, w', l)) :
    ∃ m r' w₁ l₁, loopSteps env (executeWithErrorShortCircuit env m) pipeline.steps 0 pipeline.steps (.start input handled) w =
      some (r', w₁, l₁) ∧ visits l = visits l₁ := by
  obtain ⟨m, rfl⟩ := execute_pos h
  obtain ⟨f, hloop, rfl⟩ | ⟨last, w₁, l₁, l₂, hloop, hend, rfl⟩ := Prog.bind_eq_some h
  · exact ⟨m, _, _, _, hloop, rfl⟩
  · refine ⟨m, _, _, _, hloop, ?_⟩
    have hnil : visits l₂ = [] := by
      cases last with
      | inr output =>
        cases hend
        rfl
      | inl s =>
        obtain ⟨f, hsaves, -⟩ | ⟨_, w₂, l₃, l₄, hsaves, hpure, rfl⟩ := Prog.bind_eq_some hend
        · exact visits_saves hsaves
        · cases hpure
          rw [visits_append, visits_saves hsaves]
          rfl
    rw [visits_append, hnil, List.append_nil]

/-- A run that handles the error of its input, or none, executes a step on a state of type `E`, with every state before of type
`E`, exactly when it handles an error or the step is a `result`. -/
theorem executed_iff {n : Nat} {pipeline : Pipeline} {input : Value} {entry : Entry} {w w' : World σ}
    {r : Except Failure PipelineOutput} {l : List Event}
    (h : executeWithErrorShortCircuit env n pipeline input (entry.handles input) w = some (r, w', l)) {E : String}
    {a b : List Visit} {x : Visit} (hl : visits l = a ++ x :: b) (ha : ∀ y ∈ a, extractErrorType y.state = some E)
    (hx : extractErrorType x.state = some E) :
    x.executed = true ↔ entry = .resultBranch ∨ x.step.isResult = true := by
  obtain ⟨m, r', w₁, l₁, hloop, hvisits⟩ := visits_execute h
  rw [hvisits] at hl
  rw [executed_iff_loopSteps _ hloop hl ha hx]
  -- the first state is the input, so the input is of type `E`
  have hinput : extractErrorType input = some E := by
    cases hsteps : pipeline.steps with
    | nil =>
      rw [hsteps] at hloop
      cases hloop
      cases a <;> cases hl
    | cons step rest =>
      have hloop' := hloop
      rw [hsteps] at hloop'
      obtain ⟨others, hfirst, -⟩ := visits_loopSteps_cons hloop'
      rw [hfirst] at hl
      cases a with
      | nil =>
        obtain ⟨rfl, -⟩ := List.cons.inj hl
        exact hx
      | cons y a =>
        obtain ⟨rfl, -⟩ := List.cons.inj hl
        exact ha _ List.mem_cons_self
  have hhandles : (LoopState.start input (entry.handles input)).handledErrorType = some E ↔ entry = .resultBranch := by
    change entry.handles input = some E ↔ _
    unfold Entry.handles
    by_cases he : entry = .resultBranch
    · simp [he, hinput]
    · simp [he]
  rw [hhandles]

/-! ## Handlers at any depth -/

/-- What a branch that handles errors is meant to give: wherever a run at or below it comes to a step with the branch's error
still in the state, the step is executed. -/
def HandlersRun (env : ExecutionEnv σ) (fuel : Nat) (pipeline : Pipeline) : Prop :=
  ∀ (input : Value) (w w' : World σ) (r : Except Failure PipelineOutput) (l : List Event),
    executePipelineInternal env fuel pipeline input w = some (r, w', l) →
    ∀ p v E inner result, (Event.run .resultBranch p v (some E) inner result).Within l →
    ∀ entry p' v' handled inner' result',
      (Event.run entry p' v' handled inner' result').Within [.run .resultBranch p v (some E) inner result] →
    ∀ a x b, visits inner' = a ++ x :: b → (∀ y ∈ a, extractErrorType y.state = some E) →
      extractErrorType x.state = some E → x.executed = true

/-- In every run, at and below a branch that handles an error `E`, a step that a run comes to with the state still of type `E` is
executed exactly when it stands directly in the pipeline of a `result` branch or is a `result` step itself. -/
theorem handlers_run_iff (env : ExecutionEnv σ) (fuel : Nat) (pipeline : Pipeline) (input : Value) (w w' : World σ)
    (r : Except Failure PipelineOutput) (l : List Event)
    (hrun : executePipelineInternal env fuel pipeline input w = some (r, w', l))
    (p : Pipeline) (v : Value) (E : String) (inner : List Event) (result : Except Failure PipelineOutput)
    (hbranch : (Event.run .resultBranch p v (some E) inner result).Within l)
    (entry : Entry) (p' : Pipeline) (v' : Value) (handled : Option String) (inner' : List Event)
    (result' : Except Failure PipelineOutput)
    (hbelow : (Event.run entry p' v' handled inner' result').Within [.run .resultBranch p v (some E) inner result])
    (a b : List Visit) (x : Visit) (hvisits : visits inner' = a ++ x :: b)
    (hbefore : ∀ y ∈ a, extractErrorType y.state = some E) (hstate : extractErrorType x.state = some E) :
    x.executed = true ↔ entry = .resultBranch ∨ x.step.isResult = true := by
  have hin : (Event.run entry p' v' handled inner' result').Within l := by
    cases hbelow with
    | here hmem => exact List.mem_singleton.mp hmem ▸ hbranch
    | run hmem hin =>
      cases List.mem_singleton.mp hmem
      exact hin.trans hbranch
    | task hmem => cases List.mem_singleton.mp hmem
  obtain ⟨rfl, m, w₁, w₂, hnested⟩ := run_within hrun hin
  exact executed_iff hnested hvisits hbefore hstate

/-- `fetch` always fails, `render` answers with a page, and the pipeline `page` renders it. -/
def pageEnv : ExecutionEnv Unit :=
  { registry := fun name =>
      if name = "fetch" then
        some (.stateless .merge fun _ => .error (.err (.plain .middlewareExecutionError "no connection")))
      else if name = "render" then some (.stateless .render fun _ => .ok ({ contentType := some "text/html" }, .string "try again later"))
      else none
    namedPipelines := fun moduleId name =>
      if moduleId = none ∧ name = "page" then some { steps := [.regular { name := "render" }] } else none }

/-- A failing step, and a handler that calls a named pipeline. -/
def errorPage : Pipeline :=
  { steps :=
      [.regular { name := "fetch" },
        .result [{ branchType := .custom "fetchError", statusCode := 503,
                   pipeline := { steps := [.regular { name := "pipeline", config := "page" }] } }] {}] }

def pageWorld : World Unit := .start (.ofSettings (.ofNew 16 60 (fromSecs 100000))) ()

/-- The step that calls the pipeline is executed, and the step inside it is not. -/
theorem handlers_run_iff_errorPage :
    ∃ call render : Visit, call.step = .regular { name := "pipeline", config := "page" } ∧
      render.step = .regular { name := "render" } ∧
      (call.executed = true ↔ Entry.resultBranch = .resultBranch ∨ call.step.isResult = true) ∧
      (render.executed = true ↔ Entry.named = .resultBranch ∨ render.step.isResult = true) := by
  have hcall := handlers_run_iff pageEnv 3 errorPage .null pageWorld _ _ _ rfl _ _ _ _ _
    (.here (@List.mem_of_getElem? _ _ 4 _ rfl)) _ _ _ _ _ _ (.here (List.mem_singleton_self _)) [] [] _ rfl nofun rfl
  have hrender := handlers_run_iff pageEnv 3 errorPage .null pageWorld _ _ _ rfl _ _ _ _ _
    (.here (@List.mem_of_getElem? _ _ 4 _ rfl)) _ _ _ _ _ _
    (.run (List.mem_singleton_self _) (.here (@List.mem_of_getElem? _ _ 1 _ rfl))) [] [] _ rfl nofun rfl
  exact ⟨_, _, rfl, rfl, hcall, hrender⟩

/-- The page of the handler is never rendered. -/
theorem named_handler_skipped : ¬ HandlersRun pageEnv 3 errorPage := by
  intro h
  have hrender := h .null pageWorld _ _ _ rfl _ _ _ _ _
    (.here (@List.mem_of_getElem? _ _ 4 _ rfl)) _ _ _ _ _ _
    (.run (List.mem_singleton_self _) (.here (@List.mem_of_getElem? _ _ 1 _ rfl))) [] _ [] rfl nofun rfl
  cases hrender

end WebPipe

import WebPipe.Lemmas.Step

/-!
# A failed condition counts as true

A middleware failure in a condition leaves an error envelope, which is an object, and every object is truthy: an `if` step whose
condition fails runs its `then` branch, whatever the rest of the condition would have said.
-/

namespace WebPipe

variable {σ : Type}

/-- An error envelope is truthy. -/
theorem isTruthy_of_error {v : Value} (h : (extractErrorType v).isSome) : isTruthy v = true := by
  cases v with
  | object members => rfl
  | _ => cases h

/-- What the check of an `if` step is meant to give: when the run of the condition ends in an error envelope, on a state that is
none, the `then` branch is not run. -/
def FailsClosed (env : ExecutionEnv σ) (fuel : Nat) (condition thenBranch : Pipeline) (elseBranch : Option Pipeline) : Prop :=
  ∀ (ctx : StepContext) (w w₁ w₂ : World σ) (cond : PipelineOutput) (r : Except Failure (StepOutcome × StepContext))
    (l₁ l₂ : List Event),
    extractErrorType ctx.pipeCtx.state = none →
    executePipelineInternal env fuel condition ctx.pipeCtx.state w = some (.ok cond, w₁, l₁) →
    (extractErrorType cond.state).isSome →
    handleIfStep (executeWithErrorShortCircuit env fuel) condition thenBranch elseBranch ctx w = some (r, w₂, l₂) →
    ¬ ∃ input handled inner result, .run .thenBranch thenBranch input handled inner result ∈ l₂

/-- The step goes on with its `then` branch when the run of its condition ends in an error envelope. -/
theorem handleIfStep_of_error {env : ExecutionEnv σ} {fuel : Nat} {condition : Pipeline} (thenBranch : Pipeline)
    (elseBranch : Option Pipeline) {ctx : StepContext} {w w₁ : World σ} {cond : PipelineOutput} {l : List Event}
    (hcond : executePipelineInternal env fuel condition ctx.pipeCtx.state w = some (.ok cond, w₁, l))
    (herr : (extractErrorType cond.state).isSome) :
    handleIfStep (executeWithErrorShortCircuit env fuel) condition thenBranch elseBranch ctx w =
      Prog.logged [.run .condition condition ctx.pipeCtx.state none l (.ok cond)]
        (executeBranch (executeWithErrorShortCircuit env fuel) .thenBranch thenBranch ctx w₁) := by
  have hnested := nested_of_some .condition hcond
  unfold handleIfStep
  rw [Prog.bind_of_ok hnested, if_pos (isTruthy_of_error herr)]

/-- Whenever the run of a condition ends in an error envelope, the `if` step goes on by executing its `then` branch on the state
before the condition, and the branch is run before the step ends. -/
theorem failed_condition_runs_then (env : ExecutionEnv σ) (fuel : Nat) (condition thenBranch : Pipeline)
    (elseBranch : Option Pipeline) (ctx : StepContext) (w w₁ : World σ) (cond : PipelineOutput) (l : List Event)
    (hcond : executePipelineInternal env fuel condition ctx.pipeCtx.state w = some (.ok cond, w₁, l))
    (herr : (extractErrorType cond.state).isSome) :
    handleIfStep (executeWithErrorShortCircuit env fuel) condition thenBranch elseBranch ctx w =
        Prog.logged [.run .condition condition ctx.pipeCtx.state none l (.ok cond)]
          (executeBranch (executeWithErrorShortCircuit env fuel) .thenBranch thenBranch ctx w₁) ∧
      ∀ r w₂ l₂, handleIfStep (executeWithErrorShortCircuit env fuel) condition thenBranch elseBranch ctx w =
        some (r, w₂, l₂) →
        ∃ inner result, executePipelineInternal env fuel thenBranch ctx.pipeCtx.state w₁ = some (result, w₂, inner) ∧
          .run .thenBranch thenBranch ctx.pipeCtx.state none inner result ∈ l₂ := by
  have hstep := handleIfStep_of_error thenBranch elseBranch hcond herr
  refine ⟨hstep, ?_⟩
  intro r w₂ l₂ h
  rw [hstep] at h
  obtain ⟨l', hbranch, rfl⟩ := Prog.logged_eq_some h
  obtain ⟨inner, result, hrun, rfl⟩ := executeBranch_eq_some hbranch
  exact ⟨inner, result, hrun, by simp⟩

/-- `fetch` always fails, `deny` answers false, and `reveal` answers with a secret. -/
def gateEnv : ExecutionEnv Unit :=
  { registry := fun name =>
      if name = "fetch" then
        some (.stateless .merge fun _ => .error (.err (.plain .middlewareExecutionError "no connection")))
      else if name = "deny" then some (.stateless .transform fun _ => .ok ({}, .bool false))
      else if name = "reveal" then some (.stateless .transform fun _ => .ok ({}, .string "secret"))
      else none }

/-- A check that asks a service and then denies. -/
def denyAfterFetch : Pipeline := { steps := [.regular { name := "fetch" }, .regular { name := "deny" }] }

/-- What only those who pass the check may see. -/
def revealSecret : Pipeline := { steps := [.regular { name := "reveal" }] }

/-- A request at the check. -/
def gateContext : StepContext :=
  { pipeCtx := PipelineContext.new (.object []), output := { state := .null, contentType := "application/json", statusCode := none }
    stepIndex := 0, allSteps := [] }

def gateWorld : World Unit := .start (.ofSettings (.ofNew 16 60 (fromSecs 100000))) ()

theorem failed_condition_runs_then_gate :
    ∃ w₁ cond l, executePipelineInternal gateEnv 1 denyAfterFetch (.object []) gateWorld = some (.ok cond, w₁, l) ∧
      handleIfStep (executeWithErrorShortCircuit gateEnv 1) denyAfterFetch revealSecret none gateContext gateWorld =
        Prog.logged [.run .condition denyAfterFetch (.object []) none l (.ok cond)]
          (executeBranch (executeWithErrorShortCircuit gateEnv 1) .thenBranch revealSecret gateContext w₁) :=
  ⟨_, _, _, rfl,
    (failed_condition_runs_then gateEnv 1 denyAfterFetch revealSecret none gateContext gateWorld _ _ _ rfl rfl).1⟩

/-- The secret is revealed when the service cannot be reached. -/
theorem gate_fails_open : ¬ FailsClosed gateEnv 1 denyAfterFetch revealSecret none := by
  intro h
  have hcond : ∃ w₁ cond l, executePipelineInternal gateEnv 1 denyAfterFetch gateContext.pipeCtx.state gateWorld =
      some (.ok cond, w₁, l) ∧ (extractErrorType cond.state).isSome := ⟨_, _, _, rfl, rfl⟩
  obtain ⟨w₁, cond, l, hcond, herr⟩ := hcond
  have hbranch : ∃ w₂ res inner, executeWithErrorShortCircuit gateEnv 1 revealSecret gateContext.pipeCtx.state none w₁ =
      some (.ok res, w₂, inner) := ⟨_, _, _, rfl⟩
  obtain ⟨w₂, res, inner, hbranch⟩ := hbranch
  have hstep := handleIfStep_of_error revealSecret none hcond herr
  rw [executeBranch_of_ok .thenBranch hbranch, Prog.logged_some] at hstep
  exact h gateContext gateWorld _ _ _ _ _ _ rfl hcond herr hstep ⟨_, _, _, _, List.mem_append_right _ (List.mem_singleton_self _)⟩

end WebPipe

import WebPipe.Parser.JoinTargets
import WebPipe.Lemmas.Blind

/-!
# Join targets read ahead of time

A `join` step waits for the names that the parser read from the text of its config. Without them it would wait for the names in the
config that the step resolves to at run time, which is the text of a variable when the config names one. The two agree exactly when
they read the same names, and then the step is the same computation with and without its targets.
-/

namespace WebPipe

variable {σ : Type} {env : ExecutionEnv σ}

/-- What the executor takes for a `join` has this name in the source, and its own config. -/
theorem join_step {s : RegularStep} (h : effectiveName env s = "join") : s.name = "join" ∧ rawConfig env s = s.config := by
  unfold effectiveName at h
  split at h
  · exact absurd h (by decide)
  · rename_i hno
    obtain ⟨hname, hshorthand⟩ := not_or.mp hno
    refine ⟨h, ?_⟩
    unfold rawConfig
    rw [if_neg hname, if_neg hshorthand]

/-- The config of a `join` is the text of the variable that it names, or its own. -/
theorem resolvedConfig_join {s : RegularStep} (h : effectiveName env s = "join") :
    resolvedConfig env s = ((referencedVariable env s.location "join" s.config).map Variable.value).getD s.config := by
  unfold resolvedConfig resolveConfigAndAutoname
  rw [h, (join_step h).2]
  cases referencedVariable env s.location "join" s.config with
  | none => rfl
  | some var => rfl

/-- The variable that the config names, if it names one, has the names that the config's own text has, if it has any. -/
def TargetsAgree (env : ExecutionEnv σ) (s : RegularStep) : Prop :=
  ∀ var names, referencedVariable env s.location "join" s.config = some var →
    Parser.parseJoinTaskNames env.parseStringArray s.config = some names → parseJoinTaskNames env var.value = .ok names

/-- Without parsed targets a step is what it is with none. -/
def withoutTargets (s : RegularStep) : RegularStep := { s with parsedJoinTargets := none }

theorem effectiveName_withoutTargets (env : ExecutionEnv σ) (s : RegularStep) :
    effectiveName env (withoutTargets s) = effectiveName env s := rfl

theorem rawConfig_withoutTargets (env : ExecutionEnv σ) (s : RegularStep) :
    rawConfig env (withoutTargets s) = rawConfig env s := rfl

theorem finishRegular_withoutTargets (env : ExecutionEnv σ) (s : RegularStep) :
    finishRegular env (withoutTargets s) = finishRegular env s := rfl

/-- Joins that come to the same names are the same. -/
theorem runCoreLogic_withoutTargets {s : RegularStep} (run : RunFn σ) (ctx : StepContext) {mode : ExecutionMode} {config : String}
    (h : mode = .join → joinTaskNames env config s.parsedJoinTargets = joinTaskNames env config none) (input : Value)
    (target : Option String) :
    runCoreLogic env run (withoutTargets s) ctx mode config input target = runCoreLogic env run s ctx mode config input target := by
  have hargs : (withoutTargets s).args = s.args ∧ (withoutTargets s).location = s.location ∧
      (withoutTargets s).parsedJoinTargets = none := ⟨rfl, rfl, rfl⟩
  obtain ⟨hargs, hlocation, htargets⟩ := hargs
  unfold runCoreLogic
  rw [effectiveName_withoutTargets, hargs, hlocation, htargets]
  cases mode with
  | join =>
    dsimp only
    unfold handleJoin
    rw [h rfl]
  | _ => rfl

/-- Without parse-time targets a step does the same where the names are the same. -/
theorem executeCore_withoutTargets {s : RegularStep} (run : RunFn σ) (ctx : StepContext) {mode : ExecutionMode}
    (h : mode = .join → joinTaskNames env (resolvedConfig env s) s.parsedJoinTargets = joinTaskNames env (resolvedConfig env s) none)
    (isLastStep : Bool) :
    executeCore env run (withoutTargets s) ctx mode isLastStep = executeCore env run s ctx mode isLastStep := by
  have hlocation : (withoutTargets s).location = s.location ∧ (withoutTargets s).condition = s.condition := ⟨rfl, rfl⟩
  obtain ⟨hlocation, hcondition⟩ := hlocation
  unfold resolvedConfig at h
  rw [← resolveConfig_fst env s.location (effectiveName env s) (rawConfig env s) ctx.pipeCtx.state] at h
  unfold executeCore
  rw [effectiveName_withoutTargets, rawConfig_withoutTargets, finishRegular_withoutTargets, hlocation, hcondition]
  dsimp only
  generalize resolveConfigAndAutoname env s.location (effectiveName env s) (rawConfig env s) ctx.pipeCtx.state = resolved at h ⊢
  simp only [runCoreLogic_withoutTargets run _ h]

/-- Steps whose targets come to the same names run the same. -/
theorem executeRegular_withoutTargets {s : RegularStep} (run : RunFn σ) (ctx : StepContext)
    (h : effectiveName env s = "join" →
      joinTaskNames env (resolvedConfig env s) s.parsedJoinTargets = joinTaskNames env (resolvedConfig env s) none) :
    executeRegular env run (withoutTargets s) ctx = executeRegular env run s ctx := by
  have hfields : (withoutTargets s).condition = s.condition ∧ (withoutTargets s).args = s.args ∧
      (withoutTargets s).location = s.location := ⟨rfl, rfl, rfl⟩
  obtain ⟨hcondition, hargs, hlocation⟩ := hfields
  have hcore : ∀ mode isLastStep, mode = detectExecutionMode (effectiveName env s) s.condition →
      executeCore env run (withoutTargets s) ctx mode isLastStep = executeCore env run s ctx mode isLastStep := by
    intro mode isLastStep hmode
    exact executeCore_withoutTargets run ctx (fun hjoin => h (name_of_join (hmode.symm.trans hjoin))) isLastStep
  unfold executeRegular
  rw [effectiveName_withoutTargets, rawConfig_withoutTargets, hcondition, hargs, hlocation]
  refine bind_congr fun runs => ?_
  split
  · refine bind_congr fun isLastStep => ?_
    generalize hmode : detectExecutionMode (effectiveName env s) s.condition = mode at hcore ⊢
    cases mode with
    | async name => rfl
    | standard => exact hcore _ _ rfl
    | join => exact hcore _ _ rfl
    | recursive => exact hcore _ _ rfl
  · rfl

/-- A `join` step as the parser builds it waits for the names, or fails in the way, that it would without its targets, exactly when
the variable that its config names has the names of the config's own text. Then the two are the same computation. -/
theorem join_targets_iff (env : ExecutionEnv σ) (s : RegularStep) (hjoin : effectiveName env s = "join")
    (hparsed : s.parsedJoinTargets = Parser.parsedJoinTargets env.parseStringArray s.name s.config) :
    (joinTaskNames env (resolvedConfig env s) s.parsedJoinTargets = joinTaskNames env (resolvedConfig env s) none ↔
        TargetsAgree env s) ∧
      (TargetsAgree env s → ∀ run ctx, executeRegular env run (withoutTargets s) ctx = executeRegular env run s ctx) := by
  have hread : s.parsedJoinTargets = Parser.parseJoinTaskNames env.parseStringArray s.config := by
    rw [hparsed, Parser.parsedJoinTargets, if_pos (join_step hjoin).1]
  have hiff : joinTaskNames env (resolvedConfig env s) s.parsedJoinTargets = joinTaskNames env (resolvedConfig env s) none ↔
      TargetsAgree env s := by
    unfold TargetsAgree
    rw [hread, resolvedConfig_join hjoin]
    cases hnames : Parser.parseJoinTaskNames env.parseStringArray s.config with
    | none => simp
    | some names =>
      cases hvar : referencedVariable env s.location "join" s.config with
      | none =>
        have hok : parseJoinTaskNames env s.config = .ok names := by
          rw [parseJoinTaskNames_toOption] at hnames
          cases hp : parseJoinTaskNames env s.config with
          | error e =>
            rw [hp] at hnames
            cases hnames
          | ok names' =>
            rw [hp] at hnames
            rw [Option.some.inj hnames]
        simp [joinTaskNames, hok]
      | some var =>
        simp only [joinTaskNames, Option.map_some, Option.getD_some, Option.some.injEq]
        constructor
        · rintro h _ _ rfl rfl
          exact h.symm
        · intro h
          exact (h var names rfl rfl).symm
  exact ⟨hiff, fun hagree run ctx => executeRegular_withoutTargets run ctx fun _ => hiff.mpr hagree⟩

/-- `join` is a registered middleware, and `tasks` a variable of its kind. -/
def tasksEnv : ExecutionEnv Unit :=
  { registry := fun name => if name = "join" then some (.stateless .merge fun call => .ok ({}, call.state)) else none
    variableMap := fun m kind name =>
      if m = none ∧ kind = "join" ∧ name = "tasks" then some { name := "tasks", value := "user, posts" } else none }

/-- A `join` step as the parser builds it. -/
def parsedJoin (config : String) : RegularStep :=
  { name := "join", config := config, parsedJoinTargets := Parser.parsedJoinTargets tasksEnv.parseStringArray "join" config }

/-- Two names with a comma are read alike. -/
theorem join_targets_iff_names :
    joinTaskNames tasksEnv (resolvedConfig tasksEnv (parsedJoin "user, posts")) (parsedJoin "user, posts").parsedJoinTargets =
      joinTaskNames tasksEnv (resolvedConfig tasksEnv (parsedJoin "user, posts")) none := by
  refine (join_targets_iff tasksEnv (parsedJoin "user, posts") (by decide +kernel) rfl).1.mpr ?_
  have hno : referencedVariable tasksEnv (parsedJoin "user, posts").location "join" (parsedJoin "user, posts").config = none := by
    decide +kernel
  intro var names hvar
  rw [hno] at hvar
  cases hvar

/-- `join: tasks` waits for a task named `tasks`, not for those that the variable lists. -/
theorem join_ignores_variable : ¬ ∀ s : RegularStep, effectiveName tasksEnv s = "join" →
    s.parsedJoinTargets = Parser.parsedJoinTargets tasksEnv.parseStringArray s.name s.config →
    joinTaskNames tasksEnv (resolvedConfig tasksEnv s) s.parsedJoinTargets = joinTaskNames tasksEnv (resolvedConfig tasksEnv s) none := by
  intro h
  have hsame := h (parsedJoin "tasks") (by decide +kernel) rfl
  have hfast : joinTaskNames tasksEnv (resolvedConfig tasksEnv (parsedJoin "tasks")) (parsedJoin "tasks").parsedJoinTargets =
      .ok ["tasks"] := by decide +kernel
  have hslow : joinTaskNames tasksEnv (resolvedConfig tasksEnv (parsedJoin "tasks")) none = .ok ["user", "posts"] := by
    decide +kernel
  rw [hfast, hslow] at hsame
  exact absurd hsame (by decide)

end WebPipe

import WebPipe.Lemmas.Saves
import WebPipe.Lemmas.State

/-!
# Auto-naming

A step whose config is a variable works on a state with the variable's name as `resultName`. The name is there for this step
only, and the step removes it when it took its target from it. With a `@result` tag the target is the tag's, so nothing removes the
name: it stays wherever the result of the step does not replace it.
-/

namespace WebPipe

open IndexMap

variable {σ : Type} {env : ExecutionEnv σ} {run : RunFn σ}

/-- The result name of a state is not this one. -/
def Unnamed (name : String) (state : Value) : Prop := state.get "resultName" ≠ some (.string name)

/-- A result that enters a state with a result name leaves another one, or none. -/
def Replaces (name : String) (value : Value) : StateBehavior → Prop
  | .merge => ∀ members, value = .object members → get members "resultName" ≠ none ∧ Unnamed name value
  | .transform => Unnamed name value
  | .render => Unnamed name value
  | .readOnly => False

/-- The result of a step leaves no trace of the name: a cached response does not have it; otherwise the step has no `@result`
tag, or its result replaces the state. -/
def Sheds (env : ExecutionEnv σ) (s : RegularStep) (name : String) (result : PipelineOutput) (pipeCtx : PipelineContext) :
    Prop :=
  match pipeCtx.cacheHit with
  | some hit => Unnamed name hit.body
  | none => s.condition.bind getResultFromTagExpr = none ∨
      ¬Wraps (effectiveName env s) (resultValue s result) ∧
        Replaces name (resultValue s result) ((env.getBehavior (effectiveName env s)).getD .merge)

/-! ## The name in the state -/

theorem unnamed_of_get_none {name : String} {members : Object} (h : get members "resultName" = none) :
    Unnamed name (.object members) := by
  simp [Unnamed, get_object, h]

/-- An error envelope has no result name. -/
theorem unnamed_failure (name middlewareName message : String) (location : Option String) (errorType : Option String) :
    Unnamed name (overrideErrorType (makeMiddlewareErrorValue middlewareName message location) errorType) := by
  cases errorType with
  | none => exact unnamed_of_get_none rfl
  | some errorType => exact unnamed_of_get_none (get_modify_of_ne _ _ (by decide))

/-- A Transform result brings its own result name. -/
theorem unnamed_transform {name : String} {c : PipelineContext} {value : Value} {isLastStep : Bool} :
    Unnamed name (updatePipelineState c value .transform isLastStep).state ↔ Unnamed name value := by
  unfold updatePipelineState
  dsimp only
  split
  · rfl
  · cases value with
    | object members =>
      simp only [PipelineContext.restoreSystemKeys, PipelineContext.replaceState, Unnamed, get_object]
      rw [get_restored members c "resultName", if_neg (by decide), Option.or_none]
    | _ => rfl

/-- What a result that is not wrapped leaves of the name in the state. -/
theorem unnamed_update {name : String} {c : PipelineContext} {members : Object} {value : Value} {behavior : StateBehavior}
    {isLastStep : Bool} (hstate : c.state = .object members) (hname : get members "resultName" = some (.string name))
    (hvalue : value.KeysDistinct) :
    Unnamed name (updatePipelineState c value behavior isLastStep).state ↔ Replaces name value behavior := by
  cases behavior with
  | merge =>
    unfold updatePipelineState PipelineContext.mergeState
    rw [hstate]
    cases value with
    | object new =>
      dsimp only
      rw [Unnamed, get_object, get_insertAll hvalue, hname]
      cases hnew : get new "resultName" with
      | none => simp [Replaces, hnew]
      | some v => simp [Replaces, Unnamed, get_object, hnew]
    | _ => simp [Replaces, Unnamed, Value.get, Value.asObject]
  | transform => exact unnamed_transform
  | render => exact Iff.rfl
  | readOnly => simp [updatePipelineState, Replaces, Unnamed, hstate, get_object, hname]

/-- The cleanup leaves no result name. -/
theorem unnamed_removeResultName {state : Value} (h : state.KeysDistinct) (name : String) :
    Unnamed name (removeResultName state) := by
  cases state with
  | object members =>
    refine unnamed_of_get_none ?_
    cases hk : get members "resultName" with
    | none => rw [swapRemove_of_none hk, hk]
    | some v =>
      have hperm := ((swapRemove_perm hk).map Prod.fst).nodup_iff.mpr h
      exact get_eq_none_iff.mpr (distinct_cons.mp hperm).1
  | _ => exact fun h => by cases h

/-! ## One step -/

section Step

variable {s : RegularStep} {ctx : StepContext} {members : Object} {var : Variable}

/-- A step with a variable for its config works on the state with the name of the variable. -/
theorem namedContext_of_variable
    (hvar : referencedVariable env s.location (effectiveName env s) (rawConfig env s) = some var)
    (hstate : ctx.pipeCtx.state = .object members) (hnone : get members "resultName" = none) :
    (resolvedStep env s ctx.pipeCtx.state).2.2 = true ∧
      (namedContext env s ctx).pipeCtx.state = .object (insert members "resultName" (.string var.name)) := by
  have hresolved : resolvedStep env s ctx.pipeCtx.state =
      (var.value, .object (insert members "resultName" (.string var.name)), true) := by
    simp [resolvedStep, resolveConfigAndAutoname, hvar, hstate, hnone]
  refine ⟨by rw [hresolved], ?_⟩
  rw [namedContext, hresolved, if_pos rfl]
  rfl

/-- The name is removed exactly when it was also the target. -/
theorem targetOf_of_variable
    (hvar : referencedVariable env s.location (effectiveName env s) (rawConfig env s) = some var)
    (hstate : ctx.pipeCtx.state = .object members) (hnone : get members "resultName" = none) :
    targetOf env s ctx = match s.condition.bind getResultFromTagExpr with
      | some target => (some target, false)
      | none => (some var.name, true) := by
  obtain ⟨hnamed, hctx⟩ := namedContext_of_variable hvar hstate hnone
  rw [targetOf, hctx, hnamed, determineTargetName]
  cases s.condition.bind getResultFromTagExpr with
  | some target => rfl
  | none => simp [get_object, Value.asStr]

/-- The state after a step has lost the name exactly when the result sheds it. -/
theorem unnamed_withResult
    (hvar : referencedVariable env s.location (effectiveName env s) (rawConfig env s) = some var)
    (hstate : ctx.pipeCtx.state = .object members) (hnone : get members "resultName" = none) (hkeys : Distinct members)
    {result : PipelineOutput} {pipeCtx : PipelineContext} (hpipe : pipeCtx.state = (namedContext env s ctx).pipeCtx.state)
    (hresult : result.state.KeysDistinct) (isLastStep : Bool) :
    Unnamed var.name (stateAfter (withResult env s ctx result pipeCtx isLastStep)) ↔ Sheds env s var.name result pipeCtx := by
  obtain ⟨-, hctx⟩ := namedContext_of_variable hvar hstate hnone
  have hpstate : pipeCtx.state = .object (insert members "resultName" (.string var.name)) := hpipe.trans hctx
  have hdistinct : pipeCtx.state.KeysDistinct := by
    rw [hpstate]
    exact hkeys.insert _ _
  unfold withResult finishRegular Sheds
  rw [targetOf_of_variable hvar hstate hnone]
  dsimp only
  rw [(applyResultToState_saves env _ _ _ _ _).2]
  change _ ↔ match pipeCtx.cacheHit with
    | some hit => Unnamed var.name hit.body
    | none => _
  cases pipeCtx.cacheHit with
  | some hit => exact Iff.rfl
  | none =>
    cases htag : s.condition.bind getResultFromTagExpr with
    | none =>
      -- the name was the target: it is removed
      simp only [true_or, iff_true]
      exact unnamed_removeResultName (keysDistinct_apply hdistinct (keysDistinct_resultValue s hresult) _ _ _) _
    | some target =>
      simp only [reduceCtorEq, false_or]
      change Unnamed var.name (applyResultToState env pipeCtx (effectiveName env s) (resultValue s result) (some target)
        isLastStep).state ↔ _
      by_cases hwraps : Wraps (effectiveName env s) (resultValue s result)
      · have hname : (applyDataWrap pipeCtx.state (resultValue s result) target).get "resultName" =
            some (.string var.name) := by
          rw [hpstate]
          simp [applyDataWrap, get_object, get_insert]
        rw [applyResultToState_of_wraps hwraps, Unnamed, hname]
        simp [hwraps]
      · rw [applyResultToState_of_not_wraps hwraps,
          unnamed_update hpstate (get_insert_self _ _ _) (keysDistinct_resultValue s hresult)]
        simp [hwraps]

end Step

/-- Whatever the step computes leaves no trace of the name; nothing is asked of a step that its tags pass over, that goes to a
task, or that fails. -/
def Forgets (env : ExecutionEnv σ) (run : RunFn σ) (s : RegularStep) (ctx : StepContext) (w : World σ) (name : String) : Prop :=
  shouldExecuteStep s.condition env w.reqCtx ctx.pipeCtx.state = true → isAsync env s = false →
    ∀ result pipeCtx w' l, stepResult env run s ctx w = some (.ok (result, pipeCtx), w', l) → Sheds env s name result pipeCtx

/-- A regular step whose config is a variable, on a state without a result name: after the step, whether it succeeded or its
failure became an envelope, the state does not have the name of the variable as its result name, if and only if what the step
computes sheds it. -/
theorem auto_name_removed_iff (env : ExecutionEnv σ) (run : RunFn σ) (s : RegularStep) (ctx : StepContext) (var : Variable)
    (members : Object) (hvar : referencedVariable env s.location (effectiveName env s) (rawConfig env s) = some var)
    (hstate : ctx.pipeCtx.state = .object members) (hnone : get members "resultName" = none) (hkeys : Distinct members)
    (w w' : World σ) (raw : Except Failure (StepOutcome × StepContext)) (out : StepOutcome × StepContext) (l : List Event)
    (hresult : ∀ result pipeCtx w' l, stepResult env run s ctx w = some (.ok (result, pipeCtx), w', l) →
      result.state.KeysDistinct)
    (hx : dispatchStep env run (.regular s) ctx w = some (raw, w', l)) (hend : settle (.regular s) ctx raw = .ok out) :
    Unnamed var.name (stateAfter out) ↔ Forgets env run s ctx w var.name := by
  have hkept : Unnamed var.name (stateAfter (.continue, ctx)) := by
    change Unnamed var.name ctx.pipeCtx.state
    rw [hstate]
    exact unnamed_of_get_none hnone
  unfold Forgets
  cases executeRegular_end hx with
  | idle htags =>
    cases hend
    simp [hkept, htags]
  | spawn htags hmode =>
    cases hend
    simp [hkept, isAsync, hmode]
  | fail htags hsync hfail =>
    have hshed : Unnamed var.name (stateAfter out) := by
      unfold settle at hend
      split at hend
      · split at hend
        · cases hend
          exact unnamed_failure _ _ _ _ _
        · cases hend
      · cases hend
    refine iff_of_true hshed fun _ _ result pipeCtx w₁ l₁ hok => ?_
    rw [hfail] at hok
    cases hok
  | done htags hsync hok =>
    cases hend
    rw [unnamed_withResult hvar hstate hnone hkeys (stepResult_state hok) (hresult _ _ _ _ hok)]
    constructor
    · intro h _ _ result pipeCtx w₁ l₁ hok'
      rw [hok] at hok'
      cases hok'
      exact h
    · intro h
      exact h htags hsync _ _ _ _ hok

/-- Two queries in variables, and a database that answers every query with no rows. -/
def queriesEnv : ExecutionEnv Unit :=
  { registry := fun name => if name = "pg" then some (.stateless .merge fun _ => .ok ({}, .array [])) else none
    variableMap := fun id varType name =>
      if id = none ∧ varType = "pg" ∧ (name = "findUser" ∨ name = "findOrders") then some { name := name, value := "SELECT 1" }
      else none }

/-- A query whose result is named by a tag. -/
def taggedQuery : RegularStep :=
  { name := "pg", config := "findUser", condition := some (.tag { name := "result", negated := false, args := ["user"] }) }

/-- A query whose result is named after its variable. -/
def plainQuery : RegularStep := { name := "pg", config := "findOrders" }

/-- A step on the empty object. -/
def emptyContext : StepContext :=
  { pipeCtx := .new (.object []), output := { state := .null, contentType := "application/json", statusCode := none }
    stepIndex := 0, allSteps := [] }

/-- A request that starts alone. -/
def queriesWorld : World Unit := .start (.ofSettings (.ofNew 16 60 (fromSecs 100000))) ()

/-- The plain query loses its name. -/
theorem auto_name_removed_iff_plain : ∃ out w l,
    dispatchStep queriesEnv (executeWithErrorShortCircuit queriesEnv 0) (.regular plainQuery) emptyContext queriesWorld =
        some (.ok out, w, l) ∧
      (Unnamed "findOrders" (stateAfter out) ↔
        Forgets queriesEnv (executeWithErrorShortCircuit queriesEnv 0) plainQuery emptyContext queriesWorld "findOrders") := by
  refine ⟨_, _, _, rfl, ?_⟩
  refine auto_name_removed_iff queriesEnv (executeWithErrorShortCircuit queriesEnv 0) plainQuery emptyContext
    { name := "findOrders", value := "SELECT 1" } [] (by decide +kernel) rfl rfl List.nodup_nil queriesWorld _ _ _ _ ?_ rfl rfl
  intro result pipeCtx w l h
  have hrows : result.state = .array [] := by
    have hx : (stepResult queriesEnv (executeWithErrorShortCircuit queriesEnv 0) plainQuery emptyContext queriesWorld).map
        (fun p => p.1.toOption.map (fun q => q.1.state)) = some (some (.array [])) := rfl
    rw [h] at hx
    simpa [Except.toOption] using hx
  rw [hrows]
  trivial

/-- The tagged query leaves the name of its variable in the state; the result of the next query is stored under that name, not
under the name of its own variable. -/
theorem tagged_query_keeps_name :
    (∃ out w l,
      dispatchStep queriesEnv (executeWithErrorShortCircuit queriesEnv 0) (.regular taggedQuery) emptyContext queriesWorld =
          some (.ok out, w, l) ∧ ¬Unnamed "findUser" (stateAfter out)) ∧
      (executePipelineInternal queriesEnv 1 { steps := [.regular taggedQuery, .regular plainQuery] } (.object [])
          queriesWorld).map (fun p => p.1.toOption.map (fun output => output.state)) =
        some (some (.object
          [("resultName", .string "findUser"),
            ("data", .object [("user", .array []), ("findUser", .array [])])])) := by
  refine ⟨⟨_, _, _, rfl, fun h => h rfl⟩, rfl⟩

end WebPipe

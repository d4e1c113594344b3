import WebPipe.Lemmas.Idle
import WebPipe.Lemmas.State

/-!
# Named results

A `pg`, `fetch` or `graphql` step with a `@result` tag puts its result under `data`, where the results of the earlier ones are. A
Transform step replaces the state but gets `data` back, as long as a later step follows it. So the results accumulate: after
any number of such steps `data` holds what each name was given last.
-/

namespace WebPipe

open IndexMap

variable {σ : Type} {env : ExecutionEnv σ} {run : RunFn σ}

/-- The named results of a state. -/
def namedResults (state : Value) : Object :=
  match state.get "data" with
  | some (.object data) => data
  | _ => []

/-- A step that puts its result under a name. -/
def NamesResult (env : ExecutionEnv σ) (r : RegularStep) (name : String) : Prop :=
  (effectiveName env r = "pg" ∨ effectiveName env r = "fetch" ∨ effectiveName env r = "graphql") ∧
    r.condition.bind getResultFromTagExpr = some name

/-- A step whose result replaces the state. -/
def Transforms (env : ExecutionEnv σ) (r : RegularStep) : Prop :=
  ¬(effectiveName env r = "pg" ∨ effectiveName env r = "fetch" ∨ effectiveName env r = "graphql") ∧
    env.getBehavior (effectiveName env r) = some .transform

/-- A step that is executed whenever the run comes to it without an error. -/
def Unconditional : PipelineStep → Prop
  | .regular r => r.condition = none
  | _ => True

/-- The step that the loop comes to is executed in place and succeeds with a value. -/
def Computes (env : ExecutionEnv σ) (run : RunFn σ) (steps : List PipelineStep) (idx : Nat) (r : RegularStep) (s : LoopState)
    (w : World σ) (v : Value) : Prop :=
  s.skips (.regular r) = false ∧ isAsync env r = false ∧ ∃ ctx w₁ result pipeCtx w₂ l,
    Prog.Ends (enterStep env (.regular r) (s.stepContext idx steps)) w (.ok ctx) w₁ ∧
      shouldExecuteStep r.condition env w₁.reqCtx ctx.pipeCtx.state = true ∧
      stepResult env run r ctx w₁ = some (.ok (result, pipeCtx), w₂, l) ∧ v = resultValue r result

/-- A part of a run of named queries and Transform steps, with the results written in it, in order. A step that is passed over or
whose tags are off writes nothing. -/
inductive Accumulates (env : ExecutionEnv σ) (run : RunFn σ) (steps : List PipelineStep) :
    Nat → List PipelineStep → LoopState → World σ → Object → LoopState → World σ → Prop
  | nil (idx : Nat) (s : LoopState) (w : World σ) : Accumulates env run steps idx [] s w [] s w
  | named {idx : Nat} {r : RegularStep} {rest : List PipelineStep} {s s₁ s' : LoopState} {w w₁ w' : World σ} {l : List Event}
      {name : String} {v : Value} {writes : Object} (hname : NamesResult env r name)
      (hv : Computes env run steps idx r s w v) (hok : extractErrorType v = none)
      (hturn : iterate env run steps idx (.regular r) s w = some (.ok (.inl s₁), w₁, l))
      (hrest : Accumulates env run steps (idx + 1) rest s₁ w₁ writes s' w') :
      Accumulates env run steps idx (.regular r :: rest) s w ((name, v) :: writes) s' w'
  | transform {idx : Nat} {r : RegularStep} {rest : List PipelineStep} {s s₁ s' : LoopState} {w w₁ w' : World σ}
      {l : List Event} {members : Object} {writes : Object} (htransforms : Transforms env r)
      (hv : Computes env run steps idx r s w (.object members)) (hkeys : Distinct members)
      (hdata : get members "data" = none)
      (hturn : iterate env run steps idx (.regular r) s w = some (.ok (.inl s₁), w₁, l))
      (hrest : Accumulates env run steps (idx + 1) rest s₁ w₁ writes s' w') :
      Accumulates env run steps idx (.regular r :: rest) s w writes s' w'
  | idle {idx : Nat} {r : RegularStep} {rest : List PipelineStep} {s s₁ s' : LoopState} {w w₁ w' : World σ} {l : List Event}
      {writes : Object} (hoff : ¬Executes env (.regular r) s w)
      (hturn : iterate env run steps idx (.regular r) s w = some (.ok (.inl s₁), w₁, l))
      (hrest : Accumulates env run steps (idx + 1) rest s₁ w₁ writes s' w') :
      Accumulates env run steps idx (.regular r :: rest) s w writes s' w'
  | spawn {idx : Nat} {r : RegularStep} {rest : List PipelineStep} {s s₁ s' : LoopState} {w w₁ w' : World σ} {l : List Event}
      {writes : Object} (hasync : isAsync env r = true)
      (hturn : iterate env run steps idx (.regular r) s w = some (.ok (.inl s₁), w₁, l))
      (hrest : Accumulates env run steps (idx + 1) rest s₁ w₁ writes s' w') :
      Accumulates env run steps idx (.regular r :: rest) s w writes s' w'

/-! ## One step -/

/-- A step that a later unconditional one follows does not count as the last. -/
theorem not_last_of_unconditional {steps : List PipelineStep} {idx : Nat} {last : PipelineStep} (hlast : Unconditional last)
    (hmem : last ∈ steps.drop (idx + 1)) (c : RequestContext) (state : Value) :
    isEffectivelyLastStep idx steps env c state = false := by
  unfold isEffectivelyLastStep
  rw [List.all_eq_false]
  refine ⟨last, hmem, ?_⟩
  cases last with
  | regular r =>
    have hcondition : r.condition = none := hlast
    simp [hcondition, shouldExecuteStep]
  | _ => simp

/-- When no debugger interferes, a step is entered with the state that the loop has. -/
theorem enterStep_unobtrusive (hdbg : Unobtrusive env) {step : PipelineStep} {ctx ctx₁ : StepContext} {w w₁ : World σ}
    (h : Prog.Ends (enterStep env step ctx) w (.ok ctx₁) w₁) : ctx₁ = ctx := by
  obtain ⟨w₂, hhook, -⟩ := handleDebuggerBefore_unobtrusive hdbg step (determineStepName step) ctx
    { w with reqCtx := { w.reqCtx with profiler := w.reqCtx.profiler.push (determineStepName step) } }
  have hsame := h.unique ((Prog.ends_modify _ w).bind hhook)
  exact Except.ok.inj hsame.1

/-- What a step that goes on does with its result. -/
theorem withResult_continue {r : RegularStep} {ctx ctx' : StepContext} {result : PipelineOutput} {pipeCtx : PipelineContext}
    {isLastStep : Bool} (h : withResult env r ctx result pipeCtx isLastStep = (.continue, ctx')) :
    ctx'.pipeCtx.state =
      (let after := (applyResultToState env pipeCtx (effectiveName env r) (resultValue r result) (targetOf env r ctx).1
          isLastStep).state
       if (targetOf env r ctx).2 then removeResultName after else after) := by
  unfold withResult finishRegular at h
  dsimp only at h
  split at h
  · cases h
  · cases h
    rfl

/-- After a step that computed a value, the value is in the state as the step puts it there. -/
theorem next_of_computes (hdbg : Unobtrusive env) {steps : List PipelineStep} {idx : Nat} {r : RegularStep} {s s₁ : LoopState}
    {w w₁ : World σ} {l : List Event} {v : Value} {last : PipelineStep} (hlast : Unconditional last)
    (hmem : last ∈ steps.drop (idx + 1)) (hv : Computes env run steps idx r s w v)
    (hturn : iterate env run steps idx (.regular r) s w = some (.ok (.inl s₁), w₁, l)) :
    ∃ pipeCtx : PipelineContext, pipeCtx.state = (namedContext env r (s.stepContext idx steps)).pipeCtx.state ∧
      s₁.pipeCtx.state =
        (let after := (applyResultToState env pipeCtx (effectiveName env r) v (targetOf env r (s.stepContext idx steps)).1
            false).state
         if (targetOf env r (s.stepContext idx steps)).2 then removeResultName after else after) := by
  obtain ⟨hskip, hsync, ctx, w₂, result, pipeCtx, w₃, l₁, henter, htags, hresult, rfl⟩ := hv
  obtain rfl := enterStep_unobtrusive hdbg henter
  refine ⟨pipeCtx, stepResult_state hresult, ?_⟩
  cases iterate_turn hturn with
  | skip hs =>
    rw [hs] at hskip
    cases hskip
  | next hs hx =>
    obtain ⟨ctx₂, w₄, raw, w₅, l₂, henter', hdispatch, hsettle⟩ := executeStep_entered hx
    obtain ⟨hctx, rfl⟩ := henter.unique henter'
    obtain rfl := Except.ok.inj hctx
    -- the handler ended as the computed result says
    cases executeRegular_end hdispatch with
    | idle htags' =>
      rw [htags] at htags'
      cases htags'
    | spawn _ hmode => simp [isAsync, hmode] at hsync
    | fail _ _ hfail =>
      rw [hresult] at hfail
      cases hfail
    | done _ _ hok =>
      rw [hresult] at hok
      cases hok
      have hnot : isEffectivelyLastStep (s.stepContext idx steps).stepIndex (s.stepContext idx steps).allSteps env w₂.reqCtx
          (s.stepContext idx steps).pipeCtx.state = false := not_last_of_unconditional hlast hmem _ _
      rw [hnot] at hsettle
      exact withResult_continue (Except.ok.inj hsettle)

/-- A step that goes to a task leaves the state. -/
theorem next_of_async (hdbg : Unobtrusive env) {steps : List PipelineStep} {idx : Nat} {r : RegularStep} {s s₁ : LoopState}
    {w w₁ : World σ} {l : List Event} (hasync : isAsync env r = true)
    (hturn : iterate env run steps idx (.regular r) s w = some (.ok (.inl s₁), w₁, l)) :
    s₁.pipeCtx.state = s.pipeCtx.state := by
  cases iterate_turn hturn with
  | skip hs => rfl
  | next hs hx =>
    obtain ⟨ctx, w₂, raw, w₃, l₁, henter, hdispatch, hsettle⟩ := executeStep_entered hx
    obtain rfl := enterStep_unobtrusive hdbg henter
    cases executeRegular_end hdispatch with
    | idle htags =>
      cases hsettle
      rfl
    | spawn htags hmode =>
      cases hsettle
      rfl
    | fail _ hsync _ => simp [hasync] at hsync
    | done _ hsync _ => simp [hasync] at hsync

/-! ## What a step leaves of the named results -/

/-- Naming the step for its variable does not touch the named results. -/
theorem namedResults_named (r : RegularStep) (ctx : StepContext) :
    namedResults (namedContext env r ctx).pipeCtx.state = namedResults ctx.pipeCtx.state := by
  unfold namedContext resolvedStep resolveConfigAndAutoname
  cases referencedVariable env r.location (effectiveName env r) (rawConfig env r) with
  | none => rfl
  | some var =>
    cases hstate : ctx.pipeCtx.state with
    | object members =>
      dsimp only
      split
      · simp [hstate]
      · simp [StepContext.withState, namedResults, get_object, get_insert]
    | _ => simp [hstate]

theorem namedResults_removeResultName {state : Value} (h : state.KeysDistinct) :
    namedResults (removeResultName state) = namedResults state := by
  cases state with
  | object members =>
    have hget : get (swapRemove members "resultName") "data" = get members "data" :=
      get_swapRemove_of_ne h (by decide)
    simp [removeResultName, namedResults, get_object, hget]
  | _ => rfl

/-- A result under a name is one more named result. -/
theorem namedResults_wrap (state v : Value) (name : String) :
    namedResults (applyDataWrap state v name) = insert (namedResults state) name v := by
  cases state with
  | object members =>
    rcases hdata : get members "data" with _ | data
    · simp [applyDataWrap, namedResults, get_object, hdata, get_insert_self]
    · cases data <;> simp [applyDataWrap, namedResults, get_object, hdata, get_insert_self]
  | _ => simp [applyDataWrap, namedResults, IndexMap.get, IndexMap.insert, Value.get, Value.asObject]

/-- A Transform result without `data` gets the named results back. -/
theorem namedResults_transform {c : PipelineContext} {members : Object} (hdata : get members "data" = none) :
    namedResults (updatePipelineState c (.object members) .transform false).state = namedResults c.state := by
  change namedResults (.object (c.backupSystemKeys.foldl _ members)) = _
  have hget := get_restored members c "data"
  rw [hdata, Option.none_or, if_pos (by decide)] at hget
  simp only [namedResults, get_object, hget]

/-! ## The run -/

/-- A named query adds its result. -/
theorem namedResults_query (hdbg : Unobtrusive env) {steps : List PipelineStep} {idx : Nat} {r : RegularStep} {s s₁ : LoopState}
    {w w₁ : World σ} {l : List Event} {name : String} {v : Value} {last : PipelineStep} (hlast : Unconditional last)
    (hmem : last ∈ steps.drop (idx + 1)) (hname : NamesResult env r name) (hv : Computes env run steps idx r s w v)
    (hok : extractErrorType v = none)
    (hturn : iterate env run steps idx (.regular r) s w = some (.ok (.inl s₁), w₁, l)) :
    namedResults s₁.pipeCtx.state = insert (namedResults s.pipeCtx.state) name v := by
  obtain ⟨pipeCtx, hpipe, hstate⟩ := next_of_computes hdbg hlast hmem hv hturn
  have htarget : targetOf env r (s.stepContext idx steps) = (some name, false) := by
    rw [targetOf, determineTargetName, hname.2]
  have hwraps : Wraps (effectiveName env r) v := ⟨hname.1, by rw [hok]; rfl⟩
  rw [hstate, htarget, applyResultToState_of_wraps hwraps]
  change namedResults (applyDataWrap pipeCtx.state v name) = _
  rw [namedResults_wrap, hpipe, namedResults_named]
  rfl

/-- A Transform step keeps the named results. -/
theorem namedResults_transforms (hdbg : Unobtrusive env) {steps : List PipelineStep} {idx : Nat} {r : RegularStep}
    {s s₁ : LoopState} {w w₁ : World σ} {l : List Event} {members : Object} {last : PipelineStep}
    (hlast : Unconditional last) (hmem : last ∈ steps.drop (idx + 1)) (htransforms : Transforms env r)
    (hv : Computes env run steps idx r s w (.object members)) (hkeys : Distinct members) (hdata : get members "data" = none)
    (hturn : iterate env run steps idx (.regular r) s w = some (.ok (.inl s₁), w₁, l)) :
    namedResults s₁.pipeCtx.state = namedResults s.pipeCtx.state := by
  obtain ⟨pipeCtx, hpipe, hstate⟩ := next_of_computes hdbg hlast hmem hv hturn
  have hnot : ¬Wraps (effectiveName env r) (.object members) := fun h => htransforms.1 h.1
  rw [applyResultToState_of_not_wraps hnot, htransforms.2, Option.getD_some] at hstate
  have hafter : namedResults (updatePipelineState pipeCtx (.object members) .transform false).state =
      namedResults s.pipeCtx.state := by
    rw [namedResults_transform hdata, hpipe, namedResults_named]
    rfl
  have hobject : (Value.object members).KeysDistinct := hkeys
  have hdistinct : (updatePipelineState pipeCtx (.object members) .transform false).state.KeysDistinct :=
    keysDistinct_restore hobject _
  rw [hstate]
  dsimp only
  split
  · rw [namedResults_removeResultName hdistinct, hafter]
  · exact hafter

/-- Over any number of named queries and Transform steps before an unconditional one, the named results are those at the start
with the results written since put over them, in order. -/
theorem namedResults_accumulate (hdbg : Unobtrusive env) {steps body : List PipelineStep} {last : PipelineStep}
    (hlast : Unconditional last) {idx : Nat} {s s' : LoopState} {w w' : World σ} {writes : Object}
    (hrun : Accumulates env run steps idx body s w writes s' w') (hmem : last ∈ steps.drop (idx + body.length)) :
    namedResults s'.pipeCtx.state = insertAll (namedResults s.pipeCtx.state) writes := by
  have hlater : ∀ {idx : Nat} {r : RegularStep} {rest : List PipelineStep},
      last ∈ steps.drop (idx + (.regular r :: rest : List PipelineStep).length) →
        last ∈ steps.drop (idx + 1) ∧ last ∈ steps.drop (idx + 1 + rest.length) := by
    intro idx r rest h
    rw [List.length_cons, Nat.add_comm rest.length 1, ← Nat.add_assoc] at h
    exact ⟨(List.drop_sublist_drop_left steps (Nat.le_add_right _ _)).subset h, h⟩
  induction hrun with
  | nil => rfl
  | named hname hv hok hturn _ ih =>
    obtain ⟨hfirst, hrest⟩ := hlater hmem
    rw [ih hrest, namedResults_query hdbg hlast hfirst hname hv hok hturn, insertAll_cons]
  | transform htransforms hv hkeys hdata hturn _ ih =>
    obtain ⟨hfirst, hrest⟩ := hlater hmem
    rw [ih hrest, namedResults_transforms hdbg hlast hfirst htransforms hv hkeys hdata hturn]
  | idle hoff hturn _ ih =>
    obtain ⟨hfirst, hrest⟩ := hlater hmem
    obtain ⟨s₁, w₁, l₁, hidle, halike, -⟩ := iterate_idle run hdbg hoff steps _
    rw [hidle] at hturn
    cases hturn
    rw [ih hrest, namedResults, namedResults, halike.state]
  | spawn hasync hturn _ ih =>
    obtain ⟨-, hrest⟩ := hlater hmem
    rw [ih hrest, namedResults, namedResults, next_of_async hdbg hasync hturn]

/-- In a pipeline over an object whose first steps are named queries and Transform steps without `data` in what they output, followed
by an unconditional step: after each of these steps, `data` holds under every name that was written the value that was written last
under it. -/
theorem named_results_accumulate (env : ExecutionEnv σ) (hdbg : Unobtrusive env) (run : RunFn σ)
    (pre post : List PipelineStep) (last : PipelineStep) (rest : List PipelineStep) (hlast : Unconditional last)
    (members : Object) (handled : Option String) (w w' : World σ) (s' : LoopState) (writes : Object)
    (hrun : Accumulates env run (pre ++ post ++ last :: rest) 0 pre (.start (.object members) handled) w writes s' w')
    (before after : Object) (name : String) (v : Value) (hwrites : writes = before ++ (name, v) :: after)
    (hlater : name ∉ after.map Prod.fst) :
    ∃ data, s'.pipeCtx.state.get "data" = some (.object data) ∧ get data name = some v := by
  have hmem : last ∈ (pre ++ post ++ last :: rest).drop (0 + pre.length) := by
    rw [Nat.zero_add, List.append_assoc, List.drop_left]
    simp
  have hdata := namedResults_accumulate hdbg hlast hrun hmem
  have hget : get (namedResults s'.pipeCtx.state) name = some v := by
    rw [hdata, hwrites, get_insertAll_of_last hlater]
  cases hstate : s'.pipeCtx.state.get "data" with
  | none => simp [namedResults, hstate] at hget
  | some value =>
    cases value with
    | object data => exact ⟨data, rfl, by simpa [namedResults, hstate] using hget⟩
    | _ => simp [namedResults, hstate] at hget

/-- A database that answers with no rows, and a jq that makes a page. -/
def profileEnv : ExecutionEnv Unit :=
  { registry := fun name =>
      if name = "pg" then some (.stateless .merge fun _ => .ok ({}, .array []))
      else if name = "jq" then some (.stateless .transform fun _ => .ok ({}, .object [("page", .string "profile")]))
      else none }

/-- A query whose result is named `user`. -/
def userQuery : RegularStep :=
  { name := "pg", config := "SELECT 1", condition := some (.tag { name := "result", negated := false, args := ["user"] }) }

def pageStep : RegularStep := { name := "jq", config := "page" }

/-- A request that starts alone. -/
def profileWorld : World Unit := .start (.ofSettings (.ofNew 16 60 (fromSecs 100000))) ()

/-- The rows of the query are still there after a Transform step. -/
theorem named_results_accumulate_profile : ∃ s w data,
    Accumulates profileEnv (executeWithErrorShortCircuit profileEnv 0)
        [.regular userQuery, .regular pageStep, .regular pageStep] 0 [.regular userQuery, .regular pageStep]
        (.start (.object []) none) profileWorld [("user", .array [])] s w ∧
      s.pipeCtx.state.get "data" = some (.object data) ∧ get data "user" = some (.array []) := by
  obtain ⟨s, w, hrun⟩ : ∃ s w, Accumulates profileEnv (executeWithErrorShortCircuit profileEnv 0)
      [.regular userQuery, .regular pageStep, .regular pageStep] 0 [.regular userQuery, .regular pageStep]
      (.start (.object []) none) profileWorld [("user", .array [])] s w :=
    ⟨_, _, .named ⟨Or.inl rfl, rfl⟩ ⟨rfl, rfl, _, _, _, _, _, _, ⟨_, rfl⟩, rfl, rfl, rfl⟩ rfl rfl
      (.transform ⟨by decide, rfl⟩ ⟨rfl, rfl, _, _, _, _, _, _, ⟨_, rfl⟩, rfl, rfl, rfl⟩ (List.nodup_singleton _) rfl rfl
        (.nil _ _ _))⟩
  obtain ⟨data, hdata, hget⟩ := named_results_accumulate profileEnv nofun (executeWithErrorShortCircuit profileEnv 0)
    [.regular userQuery, .regular pageStep] [] (.regular pageStep) [] rfl [] none profileWorld w s _ hrun [] [] "user"
    (.array []) rfl (by simp)
  exact ⟨s, w, data, hrun, hdata, hget⟩

end WebPipe

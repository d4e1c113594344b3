import WebPipe.Lemmas.Step

/-!
# Foreach is a lens

A `foreach` step takes the array at a path out of the state, runs its pipeline on each item, and puts the array of the results back
at the same path. The hole that the array leaves is not seen: what is put back is at the path, and whatever another path leads to
stays.
-/

namespace WebPipe

variable {σ : Type} {env : ExecutionEnv σ} {run : RunFn σ}

/-! ## Paths -/

namespace JsonPath

/-- The second path leads to the place of the first, or to one inside or around it. A segment of an array may spell its index in
more than one way. -/
def Meets : List String → List String → Value → Prop
  | [], _, _ => True
  | _, [], _ => True
  | a :: p, b :: q, .object members => a = b ∧ ∀ v, IndexMap.get members a = some v → Meets p q v
  | a :: p, b :: q, .array items =>
    ∃ i, Text.parseUnsigned 64 a = some i ∧ Text.parseUnsigned 64 b = some i ∧ ∀ v, items[i]? = some v → Meets p q v
  | _, _, _ => False

/-- A value that is put where there is one is there. -/
theorem getAt_modifyAt {f : Value → Value} {p : List String} {v u : Value} (h : getAt p v = some u) :
    getAt p (modifyAt f p v) = some (f u) := by
  induction p generalizing v with
  | nil =>
    cases h
    rfl
  | cons part parts ih =>
    cases v with
    | object members =>
      obtain ⟨child, hchild, h⟩ := Option.bind_eq_some_iff.mp h
      simp [modifyAt, getAt, IndexMap_get_modify, hchild, ih h]
    | array items =>
      obtain ⟨i, hi, h⟩ := Option.bind_eq_some_iff.mp h
      obtain ⟨child, hchild, h⟩ := Option.bind_eq_some_iff.mp h
      simp [modifyAt, getAt, hi, List.getElem?_modify, hchild, ih h]
    | _ => cases h

/-- Of two changes at one path that write, the second counts: what the first wrote is not seen. -/
theorem modifyAt_modifyAt (x y : Value) (p : List String) (v : Value) :
    modifyAt (fun _ => y) p (modifyAt (fun _ => x) p v) = modifyAt (fun _ => y) p v := by
  induction p generalizing v with
  | nil => rfl
  | cons part parts ih =>
    cases v with
    | object members =>
      have hcomp : (modifyAt (fun _ => y) parts ∘ modifyAt (fun _ => x) parts) = modifyAt (fun _ => y) parts := funext ih
      simp only [modifyAt, IndexMap.modify, List.map_map]
      refine congrArg Value.object (List.map_congr_left fun kv _ => ?_)
      by_cases hk : kv.1 = part
      · simp [hk, ih]
      · simp [hk]
    | array items =>
      cases hi : Text.parseUnsigned 64 part with
      | none => simp [modifyAt, hi]
      | some i =>
        have hcomp : (modifyAt (fun _ => y) parts ∘ modifyAt (fun _ => x) parts) = modifyAt (fun _ => y) parts := funext ih
        simp [modifyAt, hi, List.modify_modify_eq, hcomp]
    | _ => rfl

/-- A change at a path is not seen on another path. -/
theorem getAt_modifyAt_other {f : Value → Value} {p q : List String} {v : Value} (h : ¬Meets p q v) :
    getAt q (modifyAt f p v) = getAt q v := by
  induction p generalizing q v with
  | nil => exact absurd trivial h
  | cons a p ih =>
    cases q with
    | nil => exact absurd trivial h
    | cons b q =>
      cases v with
      | object members =>
        by_cases hab : a = b
        · subst hab
          simp only [modifyAt, getAt, IndexMap_get_modify]
          cases hchild : IndexMap.get members a with
          | none => rfl
          | some child =>
            refine ih fun hmeets => h ⟨rfl, fun u hu => ?_⟩
            rw [hchild] at hu
            cases hu
            exact hmeets
        · simp [modifyAt, getAt, IndexMap.get_modify_of_ne members _ (Ne.symm hab)]
      | array items =>
        cases hi : Text.parseUnsigned 64 a with
        | none => simp [modifyAt, hi]
        | some i =>
          simp only [modifyAt, hi, getAt]
          cases hj : Text.parseUnsigned 64 b with
          | none => rfl
          | some j =>
            simp only [Option.bind_some, List.getElem?_modify]
            by_cases hij : i = j
            · subst hij
              cases hchild : items[i]? with
              | none => simp
              | some child =>
                simp only [if_true, Option.bind_some]
                refine ih fun hmeets => h ⟨i, hi, hj, fun u hu => ?_⟩
                rw [hchild] at hu
                cases hu
                exact hmeets
            · simp [hij]
      | _ => rfl

end JsonPath

/-! ## The step -/

/-- The runs of a pipeline on items, one after the other, each on its item alone, and their results. -/
inductive BodyRuns (run : RunFn σ) (pipeline : Pipeline) : List Value → World σ → List Value → World σ → Prop
  | nil (w : World σ) : BodyRuns run pipeline [] w [] w
  | cons {item : Value} {items results : List Value} {w w₁ w' : World σ} {res : PipelineOutput} {l : List Event}
      (hrun : run pipeline item none w = some (.ok res, w₁, l)) (hrest : BodyRuns run pipeline items w₁ results w') :
      BodyRuns run pipeline (item :: items) w (res.state :: results) w'

theorem BodyRuns.length {pipeline : Pipeline} {items results : List Value} {w w' : World σ}
    (h : BodyRuns run pipeline items w results w') : results.length = items.length := by
  induction h with
  | nil => rfl
  | cons _ _ ih => simp [ih]

/-- The results of a `foreach` are those of its runs. -/
theorem foreachItems_ends {pipeline : Pipeline} {items results : List Value} {w w' : World σ}
    (h : BodyRuns run pipeline items w results w') : Prog.Ends (foreachItems run pipeline items) w (.ok results) w' := by
  induction h with
  | nil w => exact Prog.ends_pure _ w
  | cons hrun _ ih => exact Prog.Ends.bind ⟨_, nested_of_some .foreachItem hrun⟩ (ih.bind (Prog.ends_pure _ _))

/-- When the runs of its pipeline on the items of the array at its selector return, a `foreach` step leaves the state with the array
of their results at the selector, as many as there were items and in their order; whatever any other path leads to is as it
was, and so is the rest of the context. -/
theorem foreach_is_lens (env : ExecutionEnv σ) (run : RunFn σ) (selector : String) (pipeline : Pipeline)
    (location : SourceLocation) (ctx : StepContext) (items results : List Value)
    (hitems : JsonPath.getValue ctx.pipeCtx.state selector = some (.array items)) (w w' : World σ)
    (hruns : BodyRuns run pipeline items w results w') :
    ∃ state, Prog.Ends (dispatchStep env run (.foreach selector pipeline location) ctx) w
        (.ok (.continue, ctx.withState state)) w' ∧
      results.length = items.length ∧
      JsonPath.getValue state selector = some (.array results) ∧
      ∀ path, ¬JsonPath.Meets (JsonPath.parsePath selector) path ctx.pipeCtx.state →
        JsonPath.getAt path state = JsonPath.getAt path ctx.pipeCtx.state := by
  have hhole : JsonPath.setValue (JsonPath.setValue ctx.pipeCtx.state selector .null) selector (.array results) =
      JsonPath.setValue ctx.pipeCtx.state selector (.array results) := JsonPath.modifyAt_modifyAt _ _ _ _
  refine ⟨JsonPath.setValue ctx.pipeCtx.state selector (.array results), ?_, hruns.length,
    JsonPath.getAt_modifyAt hitems, fun path hother => JsonPath.getAt_modifyAt_other hother⟩
  change Prog.Ends (handleForeachStep run selector pipeline ctx) w _ w'
  unfold handleForeachStep
  rw [hitems]
  refine (foreachItems_ends hruns).bind ?_
  dsimp only
  rw [hhole]
  exact Prog.ends_pure _ _

/-- A jq that puts its input into an array. -/
def wrapEnv : ExecutionEnv Unit :=
  { registry := fun name =>
      if name = "jq" then some (.stateless .transform fun call => .ok ({}, .array [call.state])) else none }

/-- The rows of `data.rows` and another member. -/
def rowsState : Value :=
  .object [("data", .object [("rows", .array [.bool true, .null]), ("total", .string "2")])]

/-- A step on that state. -/
def rowsContext : StepContext :=
  { pipeCtx := .new rowsState, output := { state := .null, contentType := "application/json", statusCode := none }
    stepIndex := 0, allSteps := [] }

/-- A request that starts alone. -/
def rowsWorld : World Unit := .start (.ofSettings (.ofNew 16 60 (fromSecs 100000))) ()

theorem foreach_is_lens_rows : ∃ state w,
    Prog.Ends (dispatchStep wrapEnv (executeWithErrorShortCircuit wrapEnv 1)
        (.foreach ".data.rows" { steps := [.regular { name := "jq" }] } {}) rowsContext) rowsWorld
        (.ok (.continue, rowsContext.withState state)) w ∧
      JsonPath.getValue state ".data.rows" = some (.array [.array [.bool true], .array [.null]]) ∧
      JsonPath.getAt ["data", "total"] state = some (.string "2") := by
  obtain ⟨results, w, hruns, rfl⟩ : ∃ results w, BodyRuns (executeWithErrorShortCircuit wrapEnv 1)
      { steps := [.regular { name := "jq" }] } [.bool true, .null] rowsWorld results w ∧
        results = [.array [.bool true], .array [.null]] := ⟨_, _, .cons rfl (.cons rfl (.nil _)), rfl⟩
  have hpath : JsonPath.parsePath ".data.rows" = ["data", "rows"] := by decide +kernel
  have hitems : JsonPath.getValue rowsContext.pipeCtx.state ".data.rows" = some (.array [.bool true, .null]) := by
    rw [JsonPath.getValue, hpath]
    rfl
  obtain ⟨state, hends, -, hrows, hother⟩ := foreach_is_lens wrapEnv (executeWithErrorShortCircuit wrapEnv 1) ".data.rows"
    { steps := [.regular { name := "jq" }] } {} rowsContext [.bool true, .null] _ hitems rowsWorld w hruns
  refine ⟨state, w, hends, hrows, (hother ["data", "total"] ?_).trans rfl⟩
  rw [hpath]
  rintro ⟨-, hmeets⟩
  exact absurd (hmeets _ rfl).1 (by decide)

end WebPipe

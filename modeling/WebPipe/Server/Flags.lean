import WebPipe.Executor.Step
import WebPipe.Lib.Search

/-!
# Which pipelines need feature flags

`pipeline_needs_flags` of `server.rs`: whether a route's pipeline may read a feature flag, decided when the server starts. The
analysis calls itself for nested pipelines and for named ones; `fuel` bounds the depth of these calls.
-/

namespace WebPipe

open Search

section Flags

variable {σ : Type}

/-- `tag_expr_has_flag`. -/
def tagExprHasFlag : TagExpr → Bool
  | .tag tag => decide (tag.name = "flag")
  | .and left right => tagExprHasFlag left || tagExprHasFlag right
  | .or left right => tagExprHasFlag left || tagExprHasFlag right

/-- `tag_expr_has_needs_flags`. -/
def tagExprHasNeedsFlags : TagExpr → Bool
  | .tag tag => decide (tag.name = "needs") && tag.args.contains "flags"
  | .and left right => tagExprHasNeedsFlags left || tagExprHasNeedsFlags right
  | .or left right => tagExprHasNeedsFlags left || tagExprHasNeedsFlags right

/-- The named pipeline that the analysis takes a step to call. -/
def analyzedTarget (env : ExecutionEnv σ) (s : RegularStep) : Option Pipeline :=
  let shorthandPipeline := !s.configPresent && decide (s.name ≠ "loader") && (env.getBehavior s.name).isNone
  if s.name = "pipeline" ∨ shorthandPipeline then
    let target := if s.name = "pipeline" then Text.trim s.config else Text.trim s.name
    (env.namedPipelines s.location.moduleId target).or
      (if s.location.moduleId.isSome then env.namedPipelines none target else none)
  else none

/-- One step; `ask` is the analysis of another pipeline. -/
def stepNeedsFlags (env : ExecutionEnv σ) (ask : Pipeline → Option Bool) : PipelineStep → Option Bool
  | .regular s =>
    if s.condition.any tagExprHasFlag then some true
    else if s.condition.any tagExprHasNeedsFlags then some true
    else
      match analyzedTarget env s with
      | some sub => ask sub
      | none => some false
  | .result branches _ => firstTrue (fun (b : ResultBranch) => ask b.pipeline) branches
  | .ifStep condition thenBranch elseBranch _ => firstTrue ask (condition :: thenBranch :: elseBranch.toList)
  | .dispatch branches default _ =>
    match firstTrue (fun (b : DispatchBranch) => if tagExprHasFlag b.condition then some true else ask b.pipeline) branches with
    | some false => firstTrue ask default.toList
    | answer => answer
  | .foreach _ pipeline _ => ask pipeline

/-- `pipeline_needs_flags`. -/
def pipelineNeedsFlags (env : ExecutionEnv σ) : ℕ → Pipeline → Option Bool
  | 0, _ => none
  | fuel + 1, pipeline => firstTrue (stepNeedsFlags env (pipelineNeedsFlags env fuel)) pipeline.steps

/-! ## The analysis as a search -/

/-- What the analysis meets at a step: flags that are asked for, and pipelines it goes into. -/
def stepItems (env : ExecutionEnv σ) : PipelineStep → List (Item Pipeline)
  | .regular s =>
    (if s.condition.any tagExprHasFlag ∨ s.condition.any tagExprHasNeedsFlags then [.hit] else []) ++
      (analyzedTarget env s).toList.map .ref
  | .result branches _ => branches.map (fun (b : ResultBranch) => .ref b.pipeline)
  | .ifStep condition thenBranch elseBranch _ => (condition :: thenBranch :: elseBranch.toList).map .ref
  | .dispatch branches default _ =>
    branches.flatMap (fun (b : DispatchBranch) => (if tagExprHasFlag b.condition then [.hit] else []) ++ [.ref b.pipeline]) ++
      default.toList.map .ref
  | .foreach _ pipeline _ => [.ref pipeline]

/-- What the analysis meets in a pipeline, in order. -/
def pipelineItems (env : ExecutionEnv σ) (pipeline : Pipeline) : List (Item Pipeline) :=
  pipeline.steps.flatMap (stepItems env)

theorem firstTrue_refs {ask : Pipeline → Option Bool} (pipelines : List Pipeline) :
    firstTrue (Item.answer ask) (pipelines.map .ref) = firstTrue ask pipelines := by
  induction pipelines with
  | nil => rfl
  | cons p pipelines ih =>
    rw [List.map_cons, firstTrue, firstTrue, ih]
    rfl

theorem stepNeedsFlags_eq (env : ExecutionEnv σ) (ask : Pipeline → Option Bool) (step : PipelineStep) :
    stepNeedsFlags env ask step = firstTrue (Item.answer ask) (stepItems env step) := by
  cases step with
  | regular s =>
    simp only [stepNeedsFlags, stepItems]
    by_cases hflag : s.condition.any tagExprHasFlag
    · rw [if_pos hflag, if_pos (Or.inl hflag)]
      rfl
    · by_cases hneeds : s.condition.any tagExprHasNeedsFlags
      · rw [if_neg hflag, if_pos hneeds, if_pos (Or.inr hneeds)]
        rfl
      · rw [if_neg hflag, if_neg hneeds, if_neg (by simp [hflag, hneeds]), List.nil_append, firstTrue_refs]
        rcases analyzedTarget env s with _ | sub
        · rfl
        · simp only [Option.toList_some, firstTrue]
          rcases ask sub with _ | _ | _ <;> rfl
  | result branches location =>
    simp only [stepNeedsFlags, stepItems]
    induction branches with
    | nil => rfl
    | cons b branches ih =>
      rw [List.map_cons, firstTrue, firstTrue, ih]
      rfl
  | ifStep condition thenBranch elseBranch location => exact (firstTrue_refs _).symm
  | dispatch branches default location =>
    simp only [stepNeedsFlags, stepItems]
    have hcase : ∀ b : DispatchBranch, (if tagExprHasFlag b.condition then some true else ask b.pipeline) =
        firstTrue (Item.answer ask) ((if tagExprHasFlag b.condition then [.hit] else []) ++ [.ref b.pipeline]) := by
      intro b
      cases tagExprHasFlag b.condition with
      | true => rfl
      | false =>
        simp only [Bool.false_eq_true, if_false, List.nil_append, firstTrue, Item.answer]
        rcases ask b.pipeline with _ | _ | _ <;> rfl
    rw [firstTrue_append, firstTrue_flatMap, firstTrue_refs]
    simp only [hcase]
    generalize firstTrue _ branches = answer
    rcases answer with _ | _ | _ <;> rfl
  | foreach selector pipeline location =>
    simp only [stepNeedsFlags, stepItems]
    simp only [firstTrue, Item.answer]
    rcases ask pipeline with _ | _ | _ <;> rfl

/-- The analysis searches for a flag through the references of pipelines. -/
theorem pipelineNeedsFlags_eq_search (env : ExecutionEnv σ) (fuel : ℕ) (pipeline : Pipeline) :
    pipelineNeedsFlags env fuel pipeline = search (pipelineItems env) fuel pipeline := by
  induction fuel generalizing pipeline with
  | zero => rfl
  | succ fuel ih =>
    rw [pipelineNeedsFlags, search, pipelineItems, firstTrue_flatMap, funext ih]
    exact firstTrue_congr fun step _ => stepNeedsFlags_eq env _ step

end Flags

end WebPipe

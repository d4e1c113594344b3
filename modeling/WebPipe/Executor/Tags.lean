import WebPipe.Executor.Env

/-!
# Tags

`executor/tags.rs`: which steps run, and the names that `@async`, `@result` and `@error` carry.
-/

namespace WebPipe

section Tags

variable {σ : Type}

/-- Every argument must hold, and none when the tag is negated; an unknown name counts as off. -/
def checkAll (read : String → Option Bool) (tag : Tag) : Bool :=
  tag.args.all (fun name => if tag.negated then !(read name).getD false else (read name).getD false)

/-- `check_flag_tag`. -/
def checkFlagTag (tag : Tag) (ctx : RequestContext) : Bool := checkAll ctx.featureFlags tag

/-- `check_when_tag`. -/
def checkWhenTag (tag : Tag) (ctx : RequestContext) : Bool := checkAll ctx.conditions tag

/-- `check_env_tag`. -/
def checkEnvTag (tag : Tag) (env : ExecutionEnv σ) : Bool :=
  match tag.args with
  | [required] =>
    match env.environment with
    | some current => if tag.negated then decide (current ≠ required) else decide (current = required)
    | none => !tag.negated
  | _ => true

/-- `check_guard_tag`: a filter that fails skips the step. -/
def checkGuardTag (tag : Tag) (env : ExecutionEnv σ) (input : Value) (negated : Bool) : Bool :=
  match tag.args with
  | [] => true
  | filter :: _ =>
    match env.evalBool filter input with
    | .ok result => if negated then !result else result
    | .error _ => false

/-- `check_tag`. -/
def checkTag (tag : Tag) (env : ExecutionEnv σ) (ctx : RequestContext) (input : Value) : Bool :=
  if tag.name = "env" then checkEnvTag tag env
  else if tag.name = "async" then true
  else if tag.name = "flag" then checkFlagTag tag ctx
  else if tag.name = "when" then checkWhenTag tag ctx
  else if tag.name = "guard" then checkGuardTag tag env input tag.negated
  else true

/-- `check_tag_expr`. -/
def checkTagExpr (env : ExecutionEnv σ) (ctx : RequestContext) (input : Value) : TagExpr → Bool
  | .tag tag => checkTag tag env ctx input
  | .and left right => checkTagExpr env ctx input left && checkTagExpr env ctx input right
  | .or left right => checkTagExpr env ctx input left || checkTagExpr env ctx input right

/-- `should_execute_step`. -/
def shouldExecuteStep (condition : Option TagExpr) (env : ExecutionEnv σ) (ctx : RequestContext) (input : Value) : Bool :=
  match condition with
  | none => true
  | some expr => checkTagExpr env ctx input expr

end Tags

/-- The argument of the first tag of a name that is not negated and has one argument. -/
def argumentFromTagExpr (name : String) : TagExpr → Option String
  | .tag tag =>
    match tag.args with
    | [arg] => if tag.name = name ∧ tag.negated = false then some arg else none
    | _ => none
  | .and left right => (argumentFromTagExpr name left).or (argumentFromTagExpr name right)
  | .or left right => (argumentFromTagExpr name left).or (argumentFromTagExpr name right)

/-- `get_async_from_tag_expr`. -/
def getAsyncFromTagExpr (expr : TagExpr) : Option String := argumentFromTagExpr "async" expr

/-- `get_result_from_tag_expr`. -/
def getResultFromTagExpr (expr : TagExpr) : Option String := argumentFromTagExpr "result" expr

/-- `get_error_from_tag_expr`. -/
def getErrorFromTagExpr (expr : TagExpr) : Option String := argumentFromTagExpr "error" expr

end WebPipe

/-!
# The syntax of pipelines

The part of `ast/types.rs` the executor reads: source locations, tags, and the five kinds of steps. The structures that hold
pipelines are parameters of the step type, which nests in them.
-/

namespace WebPipe

/-- The id of a loaded module. -/
abbrev ModuleId := Nat

/-- Where a step stands in the source. -/
structure SourceLocation where
  line : Nat := 0
  column : Nat := 0
  endLine : Nat := 0
  filePath : Option String := none
  moduleId : Option ModuleId := none
deriving DecidableEq, Repr

/-- `error_label`: the compact label of a location in error messages; line 0 stands for an unknown place. -/
def SourceLocation.errorLabel (loc : SourceLocation) : Option String :=
  if loc.line = 0 then none
  else
    let endLine := if loc.line ≤ loc.endLine then loc.endLine else loc.line
    let lineLabel := if loc.line < endLine then s!"{loc.line}-{endLine}" else toString loc.line
    match loc.filePath with
    | some path => if path.isEmpty then some s!"line {lineLabel}" else some s!"{path}:{lineLabel}"
    | none => some s!"line {lineLabel}"

/-- A tag: `@flag(beta)`, `@!env(production)`. -/
structure Tag where
  name : String
  negated : Bool
  args : List String
deriving DecidableEq, Repr

/-- A boolean expression of tags. -/
inductive TagExpr where
  | tag (tag : Tag)
  | and (left right : TagExpr)
  | or (left right : TagExpr)
deriving DecidableEq, Repr

/-- A pipeline: a list of steps. -/
structure PipelineOf (α : Type) where
  steps : List α

/-- What a branch of a `result` step matches. -/
inductive ResultBranchType where
  | ok
  | custom (name : String)
  | default
deriving DecidableEq, Repr

/-- A branch of a `result` step. -/
structure ResultBranchOf (π : Type) where
  branchType : ResultBranchType
  statusCode : Nat
  pipeline : π

/-- A case of a `dispatch` step. -/
structure DispatchBranchOf (π : Type) where
  condition : TagExpr
  pipeline : π

/-- A middleware call, a call of a named pipeline, or an async join. -/
structure RegularStep where
  name : String
  args : List String := []
  config : String := ""
  /-- The step has an explicit `: config` segment. -/
  configPresent : Bool := true
  condition : Option TagExpr := none
  parsedJoinTargets : Option (List String) := none
  location : SourceLocation := {}

/-- A step of a pipeline. -/
inductive PipelineStep where
  | regular (step : RegularStep)
  | result (branches : List (ResultBranchOf (PipelineOf PipelineStep))) (location : SourceLocation)
  | ifStep (condition thenBranch : PipelineOf PipelineStep) (elseBranch : Option (PipelineOf PipelineStep))
      (location : SourceLocation)
  | dispatch (branches : List (DispatchBranchOf (PipelineOf PipelineStep))) (default : Option (PipelineOf PipelineStep))
      (location : SourceLocation)
  | foreach (selector : String) (pipeline : PipelineOf PipelineStep) (location : SourceLocation)

abbrev Pipeline := PipelineOf PipelineStep
abbrev ResultBranch := ResultBranchOf Pipeline
abbrev DispatchBranch := DispatchBranchOf Pipeline

namespace PipelineStep

/-- The source location of a step. -/
def location : PipelineStep → SourceLocation
  | regular step => step.location
  | result _ location => location
  | ifStep _ _ _ location => location
  | dispatch _ _ location => location
  | foreach _ _ location => location

/-- The step is a `result` step. -/
def isResult : PipelineStep → Bool
  | result _ _ => true
  | _ => false

end PipelineStep

end WebPipe

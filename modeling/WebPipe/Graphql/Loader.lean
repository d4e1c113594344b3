import WebPipe.Executor.Step
import WebPipe.JsonEquality

/-!
# The loader of a query

`graphql/loader.rs`: the loads of one batch are grouped by the name of their pipeline, and every group is one run of the pipeline on all
its keys, with the arguments, the context and the module of the first. Which loads fall into one batch is up to the schema's data loader:
it collects the keys of a window in a set and hands the set over.
-/

namespace WebPipe

/-- `LoaderKey`: what a resolver asks the loader for. -/
structure LoaderKey where
  pipelineName : String
  key : Value
  /-- What the resolver works on: its `parent`, `args` and `context`. -/
  context : Value
  /-- The module of the loader step. -/
  moduleId : Option ModuleId

namespace LoaderKey

/-- `PartialEq` and `Hash`, as a hash map finds a key: the name of the pipeline and the key, whose text is hashed. -/
def same (a b : LoaderKey) : Bool :=
  decide (a.pipelineName = b.pipelineName) && a.key.same b.key && decide (a.key.toJson = b.key.toJson)

/-- The arguments of the field. -/
def args (k : LoaderKey) : Value := (k.context.get "args").getD .null

/-- The state of the pipeline that made the query. -/
def outer (k : LoaderKey) : Value := (k.context.get "context").getD .null

end LoaderKey

/-- `key_str`, the member of a result that answers a key: a string as it is, any other key as JSON. -/
def keyStr : Value → String
  | .string s => s
  | v => v.toJson

/-- The state in which the pipeline of a field starts. -/
def resolverInput (parent args context : Value) : Value := .object [("parent", parent), ("args", args), ("context", context)]

/-- The key for a loader step that works on `current`: the step's argument, a jq expression, names it. An error is that of the field. -/
def loaderKeyOf {σ : Type} (env : ExecutionEnv σ) (step : RegularStep) (current : Value) : Except String LoaderKey :=
  match step.args with
  | [] => .error "loader requires a key expression"
  | keyExpr :: _ =>
    match env.evaluate keyExpr current with
    | .error e => .error s!"Failed to evaluate key expression: {e.display}"
    | .ok key =>
      .ok { pipelineName := step.config, key := key, context := current, moduleId := step.location.moduleId }

/-- A field whose pipeline starts with its loader asks with the arguments of the field, the state of the query and the step's module. -/
theorem loaderKeyOf_resolverInput {σ : Type} {env : ExecutionEnv σ} {step : RegularStep} {parent args context : Value} {k : LoaderKey}
    (h : loaderKeyOf env step (resolverInput parent args context) = .ok k) :
    k.pipelineName = step.config ∧ k.moduleId = step.location.moduleId ∧ k.args = args ∧ k.outer = context := by
  unfold loaderKeyOf at h
  split at h
  · cases h
  · split at h
    · cases h
    · cases h
      exact ⟨rfl, rfl, rfl, rfl⟩

/-- The loads with one pipeline name, of which there is a first. -/
structure LoadGroup where
  first : LoaderKey
  rest : List LoaderKey

namespace LoadGroup

/-- All of them. -/
def entries (g : LoadGroup) : List LoaderKey := g.first :: g.rest

/-- `push`. -/
def push (g : LoadGroup) (k : LoaderKey) : LoadGroup := { g with rest := g.rest ++ [k] }

end LoadGroup

/-- Group keys by pipeline name. -/
def groupKeys (keys : List LoaderKey) : List (String × LoadGroup) :=
  keys.foldl (fun groups k =>
    match IndexMap.get groups k.pipelineName with
    | none => IndexMap.insert groups k.pipelineName { first := k, rest := [] }
    | some g => IndexMap.insert groups k.pipelineName (g.push k)) []

/-- The results of a batch, a hash map whose order nobody reads. -/
def LoadedValues := LoaderKey → Option Value

namespace LoadedValues

def empty : LoadedValues := fun _ => none

def insert (loaded : LoadedValues) (k : LoaderKey) (v : Value) : LoadedValues := fun k' => if k.same k' then some v else loaded k'

/-- Map the members of a result back to the keys; a key without a member has null. -/
def insertAll (loaded : LoadedValues) (members : Object) (keys : List LoaderKey) : LoadedValues :=
  keys.foldl (fun loaded k => loaded.insert k ((IndexMap.get members (keyStr k.key)).getD .null)) loaded

end LoadedValues

section Load

variable {σ : Type} (env : ExecutionEnv σ) (debugText : Value → String) (run : RunFn σ)

/-- The pipeline of a name, of the module or of none. -/
def loaderPipeline (moduleId : Option ModuleId) (name : String) : Option Pipeline :=
  (env.namedPipelines moduleId name).or (if moduleId.isSome then env.namedPipelines none name else none)

/-- The input of the run of a group: all its keys, and the arguments and the context of the first. -/
def LoadGroup.input (g : LoadGroup) : Value :=
  .object [("keys", .array (g.entries.map LoaderKey.key)), ("args", g.first.args), ("context", g.first.outer)]

/-- The result of a run is an object, or an error. -/
def loaderMembers (name : String) : Except WebPipeError Value → Except WebPipeError Object
  | .ok (.object members) => .ok members
  | .ok v => .error (.plain .internalError s!"Loader pipeline {name} must return an object/map, got: {debugText v}")
  | .error e => .error e

/-- Run the pipeline of a group on all its keys. -/
def runGroup (name : String) (g : LoadGroup) : Exec σ (Except WebPipeError Object) :=
  match loaderPipeline env g.first.moduleId name with
  | none => pure (.error (.plain .pipelineNotFound name))
  | some pipeline => do
    let result ← runResolver run (.loader name) pipeline g.input
    pure (loaderMembers debugText name result)

/-- `load`: one run for each group, in the order in which the map of the groups yields them; an error ends the batch. -/
def load : List (String × LoadGroup) → LoadedValues → Exec σ (Except WebPipeError LoadedValues)
  | [], loaded => pure (.ok loaded)
  | (name, g) :: groups, loaded => do
    match ← runGroup env debugText run name g with
    | .ok members => load groups (loaded.insertAll members g.entries)
    | .error e => pure (.error e)

/-! ## Batches in a query -/

/-- A run of a group whose pipeline is there. -/
theorem runGroup_of_some {name : String} {g : LoadGroup} {pipeline : Pipeline}
    (h : loaderPipeline env g.first.moduleId name = some pipeline) : runGroup env debugText run name g =
      runResolver run (.loader name) pipeline g.input >>= fun result => pure (loaderMembers debugText name result) := by
  unfold runGroup
  rw [h]

/-- A run of a group whose pipeline is missing. -/
theorem runGroup_of_none {name : String} {g : LoadGroup} (h : loaderPipeline env g.first.moduleId name = none) :
    runGroup env debugText run name g = pure (.error (.plain .pipelineNotFound name)) := by
  unfold runGroup
  rw [h]

/-- The pipelines that loaders find are among the named ones. -/
theorem mem_of_loaderPipeline {resolvers : List Pipeline}
    (hresolvers : ∀ moduleId name pipeline, env.namedPipelines moduleId name = some pipeline → pipeline ∈ resolvers)
    {moduleId : Option ModuleId} {name : String} {pipeline : Pipeline} (h : loaderPipeline env moduleId name = some pipeline) :
    pipeline ∈ resolvers := by
  rcases Option.or_eq_some_iff.mp h with hfound | ⟨-, hglobal⟩
  · exact hresolvers _ _ _ hfound
  · split_ifs at hglobal
    exact hresolvers _ _ _ hglobal

variable {resolvers : List Pipeline}
  (hresolvers : ∀ moduleId name pipeline, env.namedPipelines moduleId name = some pipeline → pipeline ∈ resolvers)

/-- A batch as a part of what a schema does for a query. -/
def loadResolution : List (String × LoadGroup) → LoadedValues → (Except WebPipeError LoadedValues → Resolution resolvers) →
    Resolution resolvers
  | [], loaded, next => next (.ok loaded)
  | (name, g) :: groups, loaded, next =>
    match h : loaderPipeline env g.first.moduleId name with
    | none => next (.error (.plain .pipelineNotFound name))
    | some pipeline => .resolve (.loader name) pipeline (mem_of_loaderPipeline env hresolvers h) g.input fun result =>
      match loaderMembers debugText name result with
      | .ok members => loadResolution groups (loaded.insertAll members g.entries) next
      | .error e => next (.error e)

/-- A query that comes to a batch runs it, and goes on with its results. -/
theorem perform_loadResolution (groups : List (String × LoadGroup)) (loaded : LoadedValues)
    (next : Except WebPipeError LoadedValues → Resolution resolvers) :
    (loadResolution env debugText hresolvers groups loaded next).perform run =
      load env debugText run groups loaded >>= fun result => (next result).perform run := by
  induction groups generalizing loaded with
  | nil => rw [loadResolution, load, pure_bind]
  | cons p groups ih =>
    obtain ⟨name, g⟩ := p
    rw [loadResolution, load]
    split
    · next h => simp only [runGroup_of_none env debugText run h, pure_bind]
    · next pipeline h =>
      simp only [Resolution.perform, runGroup_of_some env debugText run h, bind_assoc, pure_bind]
      refine congrArg _ (funext fun result => ?_)
      cases loaderMembers debugText name result with
      | ok members => exact ih _
      | error e => simp only [pure_bind]

end Load

/-- What a resolver receives of the results of its batch: the value of its key, or the error of the batch. -/
def receivedOf (result : Except WebPipeError LoadedValues) (k : LoaderKey) : Except WebPipeError Value :=
  result.map fun loaded => (loaded k).getD .null

/-! ## Windows -/

/-- `HashSet::insert`: a key that is there stays. -/
def addKey (keys : List LoaderKey) (k : LoaderKey) : List LoaderKey := if keys.any (·.same k) then keys else keys ++ [k]

/-- The keys of a batch for the loads of a window: those of the loads in the order in which they come, each once, in the order in which the
set yields them. -/
def Batch (loads keys : List LoaderKey) : Prop := ∃ arrivals : List LoaderKey, arrivals.Perm loads ∧ keys.Perm (arrivals.foldl addKey [])

end WebPipe

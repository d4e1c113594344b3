import WebPipe.Error
import WebPipe.Executor.Context
import WebPipe.Lib.Text

/-!
# The execution environment

`ExecutionEnv` of `executor/env.rs`: what a run reads and no run changes. Everything outside the executor is a value of a type
`σ` that middleware and debugger pass on. The cache middleware is modelled; every other middleware is a function from what it
is given to what it returns. So are the two crates the executor calls: the jq interpreter and the JSON parser. The `graphql`
middleware runs pipelines itself, those of its resolvers, in the request of its caller: it is a function to what it does next.
-/

namespace WebPipe

/-- A global variable; its type and its module are part of the key it is registered under. -/
structure Variable where
  name : String
  value : String
deriving DecidableEq, Repr

/-- Metadata about a loaded module: alias to imported module. -/
structure ModuleMetadata where
  importMap : String → Option ModuleId

/-- How a middleware's result enters the state. -/
inductive StateBehavior where
  | merge
  | transform
  | render
  | readOnly
deriving DecidableEq, Repr

/-- What a middleware returns beside the state. -/
structure MiddlewareOutput where
  contentType : Option String := none
deriving DecidableEq, Repr

/-- What a middleware is given. -/
structure MiddlewareCall where
  args : List String
  config : String
  state : Value
  targetName : Option String

/-- What the run of a resolver leaves in the request: that of a field a call and a sample under its key, the steps around a loader
nothing, and the pipeline of a loader a sample under its name. -/
inductive ResolverRecord where
  | field (key : String)
  | part
  | loader (name : String)
deriving DecidableEq, Repr

/-- What a schema does next for a query: it has a result, or it runs a pipeline of a resolver, one at a time, and goes on with what
that returned. A mocked field is recorded and runs nothing. In which order the fields are resolved is up to the schema. -/
inductive Resolution (resolvers : List Pipeline) where
  | done (result : Except Failure (MiddlewareOutput × Value))
  | mocked (key : String) (input : Value) (next : Resolution resolvers)
  | resolve (record : ResolverRecord) (pipeline : Pipeline) (h : pipeline ∈ resolvers) (input : Value)
      (next : Except WebPipeError Value → Resolution resolvers)

/-- A registered middleware. -/
inductive Middleware (σ : Type) where
  | cache
  | graphql (resolvers : List Pipeline) (execute : MiddlewareCall → Resolution resolvers)
  | other (behavior : StateBehavior)
      (execute : MiddlewareCall → RequestContext → σ → Except Failure (MiddlewareOutput × Value) × RequestContext × σ)

/-- `behavior`; the cache middleware has the default one. -/
def Middleware.behavior {σ : Type} : Middleware σ → StateBehavior
  | cache => .merge
  | graphql _ _ => .transform
  | other behavior _ => behavior

/-- A middleware that reads and changes nothing but the state of its pipeline. -/
def Middleware.stateless {σ : Type} (behavior : StateBehavior)
    (execute : MiddlewareCall → Except Failure (MiddlewareOutput × Value)) : Middleware σ :=
  .other behavior fun call ctx ext => (execute call, ctx, ext)

/-- What a debugger does before a step: how stepping goes on, and the state it leaves. -/
structure DebuggerHook (σ : Type) where
  allocateThreadId : σ → Nat × σ
  beforeStep : Nat → String → SourceLocation → Value → List String → σ →
    Except String (Option StepMode × Value) × σ

/-- Global execution environment. -/
structure ExecutionEnv (σ : Type) where
  /-- Keyed by module, type and name. -/
  variableMap : Option ModuleId → String → String → Option Variable := fun _ _ _ => none
  namedPipelines : Option ModuleId → String → Option Pipeline := fun _ _ => none
  moduleRegistry : ModuleId → Option ModuleMetadata := fun _ => none
  registry : String → Option (Middleware σ)
  environment : Option String := none
  debugger : Option (DebuggerHook σ) := none
  /-- The `cache` section of the configuration. -/
  cacheConfig : Value := .object []
  /-- Compile and run a trimmed jq filter; a failure is its message. -/
  jq : String → Value → Except String Value := fun _ _ => .ok .null
  /-- Read a JSON array of strings. -/
  parseStringArray : String → Option (List String) := fun _ => none
  /-- What the runtime says of a task that panicked. -/
  joinErrorText : String := ""
  /-- The standard hash of a sequence of texts. -/
  defaultHasher : List String → Nat := fun _ => 0

namespace ExecutionEnv

variable {σ : Type}

/-- `MiddlewareRegistry::get_behavior`. -/
def getBehavior (env : ExecutionEnv σ) (name : String) : Option StateBehavior :=
  (env.registry name).map Middleware.behavior

/-- `jq::evaluate`: every failure of a filter is a middleware failure. -/
def evaluate (env : ExecutionEnv σ) (expr : String) (input : Value) : Except WebPipeError Value :=
  match env.jq (Text.trim expr) input with
  | .ok v => .ok v
  | .error message => .error (.plain .middlewareExecutionError message)

/-- `eval_bool`: the truth value jq gives a result. -/
def evalBool (env : ExecutionEnv σ) (filter : String) (input : Value) : Except WebPipeError Bool :=
  (env.evaluate filter input).map fun
    | .bool b => b
    | .null => false
    | _ => true

end ExecutionEnv

end WebPipe

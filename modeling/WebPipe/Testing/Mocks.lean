import WebPipe.Lib.HashTable
import WebPipe.Executor.Step

/-!
# Mocks

`MockResolver` of `test_runner.rs`: the values that stand in for middlewares, variables and pipelines
while a test runs. A lookup returns a reference into one of the tables; in the model it says which.
-/

namespace WebPipe

/-- `with mock <target> returning <value>`. -/
structure Mock where
  target : String
  returnValue : String

/-- The tables of a test: the mocks of middlewares, of the variables of a middleware, and of pipelines. -/
structure MockResolver where
  middlewareMocks : HashTable String Value
  variableMocks : HashTable (String × String) Value
  pipelineMocks : HashTable String Value

/-- The mock a lookup refers to. -/
inductive MockTarget where
  | middleware (name : String)
  | variable (middleware name : String)
deriving DecidableEq, Repr

namespace MockResolver

/-- `MockResolver::empty`. -/
def empty : MockResolver := { middlewareMocks := .empty, variableMocks := .empty, pipelineMocks := .empty }

/-- Enter a mock under its target. -/
def insertMock (resolver : MockResolver) (target : String) (value : Value) : MockResolver :=
  match Text.splitOnce "." target with
  | some (left, right) =>
    if left = "pipeline" then { resolver with pipelineMocks := resolver.pipelineMocks.insert right value }
    else { resolver with variableMocks := resolver.variableMocks.insert (left, right) value }
  | none => { resolver with middlewareMocks := resolver.middlewareMocks.insert target value }

/-- `MockResolver::from_mocks`; `evaluateJqInput` is the jq evaluator, on the variables of the test. -/
def fromMocks (evaluateJqInput : String → Object → Except WebPipeError Value) (mocks : List Mock) (variablesCtx : Object) :
    Except WebPipeError MockResolver :=
  mocks.foldlM (fun resolver m => do
    let value ← evaluateJqInput m.returnValue variablesCtx
    pure (resolver.insertMock m.target value)) empty

/-- `overlay`: the other's mocks take precedence. -/
def overlay (resolver other : MockResolver) : MockResolver where
  middlewareMocks := resolver.middlewareMocks.extend other.middlewareMocks
  variableMocks := resolver.variableMocks.extend other.variableMocks
  pipelineMocks := resolver.pipelineMocks.extend other.pipelineMocks

/-- Split a mocked name at its last `::`. -/
def scopeOf (mockVarName : String) : Option (String × String) :=
  (Text.splitOnceChars [':', ':'] mockVarName.toList.reverse).map fun p =>
    (String.ofList p.2.reverse, String.ofList p.1.reverse)

/-- The mock of a variable: its own, or the first of the table whose scoped name ends in the variable's. -/
def variableMock (resolver : MockResolver) (middleware varName : String) : Option (MockTarget × Value) :=
  match resolver.variableMocks.get (middleware, varName) with
  | some v => some (.variable middleware varName, v)
  | none =>
    (resolver.variableMocks.entries.find? fun e =>
      decide (e.1.1 = middleware) && decide ((scopeOf e.1.2).map Prod.snd = some varName)).map fun e =>
        (.variable e.1.1 e.1.2, e.2)

/-- `get_middleware_mock`. -/
def getMiddlewareMock (resolver : MockResolver) (middleware : String) (input : Value) : Option (MockTarget × Value) :=
  (((input.get "resultName").bind Value.asStr).bind (resolver.variableMock middleware)).or
    ((resolver.middlewareMocks.get middleware).map fun v => (.middleware middleware, v))

end MockResolver

/-- The mocks of a test: those of its `describe` block, overlaid with its own. -/
def testMocks (evaluateJqInput : String → Object → Except WebPipeError Value) (describe : List Mock) (describeCtx : Object)
    (test : List Mock) (variablesCtx : Object) : Except WebPipeError MockResolver := do
  let describeMocks ← MockResolver.fromMocks evaluateJqInput describe describeCtx
  let ownMocks ← MockResolver.fromMocks evaluateJqInput test variablesCtx
  pure (describeMocks.overlay ownMocks)

section Steps

variable {σ : Type}

/-- A step calls its middleware, now or in a task; pipelines and joins call none. -/
def callsMiddleware (env : ExecutionEnv σ) (s : RegularStep) : Bool :=
  decide (effectiveName env s ≠ "pipeline") &&
    decide (detectExecutionMode (effectiveName env s) s.condition ≠ .join)

/-- The mock that answers a step: that of its call, on the state with its variable resolved. -/
def MockResolver.answer (mocks : MockResolver) (env : ExecutionEnv σ) (s : RegularStep) (state : Value) :
    Option (MockTarget × Value) :=
  if callsMiddleware env s then
    mocks.getMiddlewareMock (effectiveName env s)
      (resolveConfigAndAutoname env s.location (effectiveName env s) (rawConfig env s) state).2.1
  else none

end Steps

end WebPipe

import WebPipe.Lib.Prog
import WebPipe.Runtime.PipelineContext
import WebPipe.Executor.Env

/-!
# Runs and their log

A computation of the executor reads and writes the request context, the shared cache store, the clock and everything outside.
Other callers use the store too: `others` is what they do between one access of this request and the next. The log records
what a run does; a run inside a run is one event of it that holds its own log.
-/

namespace WebPipe

/-- What another caller of the store does, or time passing. A lookup may have read the clock `lag` nanoseconds ago. -/
inductive OtherAction where
  | tick (nanos : Nat)
  | call (lag : Nat) (call : CacheCall)

/-- What a computation of the executor reads and writes. -/
structure World (σ : Type) where
  reqCtx : RequestContext
  cache : CacheStore
  clock : Nat
  /-- What others do between two accesses of this request to the store. -/
  others : List (List OtherAction)
  ext : σ

/-- The body, content type and status a pipeline returns, or a step so far. -/
structure PipelineOutput where
  state : Value
  contentType : String
  statusCode : Option Nat

/-- What a call on the store answered. -/
inductive CacheAnswer where
  | looked (lookup : CacheLookup)
  | put (outcome : PutOutcome)
  | cleared

/-- Where a run inside a run was started from. -/
inductive Entry where
  | condition
  | thenBranch
  | elseBranch
  | dispatchCase
  | foreachItem
  | resultBranch
  | named
  | resolver (record : ResolverRecord)
deriving DecidableEq, Repr

/-- The run was started for a field or a loader of a query. -/
def Entry.isResolver : Entry → Bool
  | .resolver _ => true
  | _ => false

/-- What a run does. -/
inductive Event where
  /-- A step was passed over because the state carries an error that is not handled. -/
  | skipped (step : PipelineStep) (state : Value)
  /-- A step was executed. -/
  | entered (step : PipelineStep) (state : Value)
  /-- A step ended: the state it worked on, the failure it raised, and what became of it. -/
  | settled (step : PipelineStep) (before : Value) (raised : Option Failure) (after : Except Failure Value)
  | invoked (name : String) (call : MiddlewareCall)
  | spawned (name : String) (task : AsyncTask)
  /-- A join ended: the tasks it named, and what was delivered under each name. -/
  | joined (names : List String) (results : Object)
  /-- A call on the store, by this request or by another caller. -/
  | cache (own : Bool) (now : Nat) (call : CacheCall) (answer : CacheAnswer)
  | run (entry : Entry) (pipeline : Pipeline) (input : Value) (handled : Option String) (inner : List Event)
      (result : Except Failure PipelineOutput)
  | task (name : String) (inner : List Event)

/-- A computation of the executor. -/
abbrev Exec (σ : Type) := Prog (World σ) Event Failure

/-- How a pipeline is run: the pipeline, its input, and the error type its steps handle. -/
abbrev RunFn (σ : Type) := Pipeline → Value → Option String → Exec σ PipelineOutput

namespace CacheStore

/-- A call on the store with its answer. -/
def serve (s : CacheStore) (now : Nat) : CacheCall → CacheAnswer × CacheStore
  | .put key response ttlSecs => ((s.putResponse now key response ttlSecs).map .put id)
  | .lookup key => (s.lookup now key).map .looked id
  | .clearRefresh key => (.cleared, s.clearRefresh key)

theorem serve_snd (s : CacheStore) (now : Nat) (c : CacheCall) : (s.serve now c).2 = s.call now c := by
  cases c <;> rfl

end CacheStore

namespace World

variable {σ : Type}

/-- A request that starts alone on a store. -/
def start (cache : CacheStore) (ext : σ) : World σ := { reqCtx := {}, cache := cache, clock := 0, others := [], ext := ext }

/-- One action of another caller. -/
def other (w : World σ) : OtherAction → List Event × World σ
  | .tick nanos => ([], { w with clock := w.clock + nanos })
  | .call lag c =>
    ([.cache false (w.clock - lag) c (w.cache.serve (w.clock - lag) c).1],
      { w with cache := (w.cache.serve (w.clock - lag) c).2 })

/-- Actions of other callers, in order. -/
def otherAll (w : World σ) : List OtherAction → List Event × World σ
  | [] => ([], w)
  | a :: rest =>
    let (l₁, w₁) := w.other a
    let (l₂, w₂) := w₁.otherAll rest
    (l₁ ++ l₂, w₂)

/-- What the other callers do before the next access of this request. -/
def interfere (w : World σ) : List Event × World σ :=
  { w with others := w.others.tail }.otherAll (w.others.headD [])

end World

namespace Exec

variable {σ : Type}

/-- Fail with an error. -/
def throwErr {α : Type} (e : WebPipeError) : Exec σ α := Prog.fail (.err e)

/-- Read from the request context. -/
def req {α : Type} (f : RequestContext → α) : Exec σ α := Prog.gets (fun w => f w.reqCtx)

/-- Change the request context. -/
def modifyReq (f : RequestContext → RequestContext) : Exec σ Unit :=
  Prog.modify (fun w => { w with reqCtx := f w.reqCtx })

/-- Let the other callers of the store go first. -/
def interfere : Exec σ Unit := do
  Prog.emitAll (← Prog.update World.interfere)

/-- A call of this request on the store. -/
def serve (now : Nat) (c : CacheCall) : Exec σ CacheAnswer := do
  let answer ← Prog.update (fun w => ((w.cache.serve now c).1, { w with cache := (w.cache.serve now c).2 }))
  Prog.emit (.cache true now c answer)
  pure answer

/-- Look a key up; the clock is read before the lock is taken. -/
def lookupKey (key : String) : Exec σ CacheLookup := do
  let now ← Prog.gets World.clock
  interfere
  match ← serve now (.lookup key) with
  | .looked l => pure l
  | _ => pure .miss

/-- Put a response; the clock is read under the lock. -/
def putKey (key : String) (response : CachedResponse) (ttlSecs : Option Nat) : Exec σ Unit := do
  interfere
  let now ← Prog.gets World.clock
  match ← serve now (.put key response ttlSecs) with
  | .put .panicked => Prog.fail .panic
  | _ => pure ()

/-- Release the refresh slot of a key. -/
def clearKey (key : String) : Exec σ Unit := do
  interfere
  let now ← Prog.gets World.clock
  let _ ← serve now (.clearRefresh key)

/-- A run inside a run is one event of the log. -/
def nested (entry : Entry) (run : RunFn σ) (pipeline : Pipeline) (input : Value) (handled : Option String) :
    Exec σ PipelineOutput :=
  Prog.enclose (.run entry pipeline input handled) (run pipeline input handled)

end Exec

end WebPipe

import WebPipe.Executor.Env
import WebPipe.Lib.Memo

/-!
# Compiled jq filters

`runtime/jq.rs`: a filter is compiled once per thread and kept in the thread's own cache; a failed compilation is not kept. The
jq crates are what loads, compiles and runs.
-/

namespace WebPipe

/-- The jq crates: `μ` is what a filter's text loads as, `φ` a compiled filter. A run has a first result or none. -/
structure JqEngine (μ φ : Type) where
  load : String → Except String μ
  compile : μ → Except String φ
  run : φ → Value → Option (Except String Value)

namespace JqEngine

variable {μ φ : Type} (engine : JqEngine μ φ)

/-- `compile_filter`. -/
def compileFilter (expr : String) : Except String φ :=
  match engine.load expr with
  | .error e => .error ("JQ parsing error: " ++ e)
  | .ok modules =>
    match engine.compile modules with
    | .error e => .error ("JQ compilation error: " ++ e)
    | .ok filter => .ok filter

/-- The first result of a compiled filter; a run without results has the result null. -/
def firstResult (filter : φ) (input : Value) : Except String Value :=
  match (engine.run filter input).getD (.ok .null) with
  | .ok v => .ok v
  | .error e => .error ("JQ execution error: " ++ e)

/-- Compile a filter and run it, without a cache. -/
def answer (expr : String) (input : Value) : Except String Value :=
  match engine.compileFilter expr with
  | .ok filter => engine.firstResult filter input
  | .error message => .error message

end JqEngine

/-- The compiled filters of a thread. -/
abbrev FilterCache (φ : Type) := Lru.LruCache String φ

theorem filterCapacity_pos : 0 < 4096 := by decide

/-- `THREAD_JQ_CACHE` of a thread that has compiled nothing. -/
def FilterCache.empty (φ : Type) : FilterCache φ := Lru.LruCache.new 4096 filterCapacity_pos

/-- An evaluation: the thread it runs on, the filter and the input. -/
structure JqCall where
  thread : Nat
  expr : String
  input : Value

namespace JqEngine

variable {μ φ : Type} (engine : JqEngine μ φ)

/-- `get_or_compile` on a thread. -/
def getOrCompile (caches : Nat → FilterCache φ) (thread : Nat) (expr : String) : Except String φ × (Nat → FilterCache φ) :=
  Memo.lookupAt engine.compileFilter caches thread expr

/-- `evaluate` on a thread. -/
def evaluate (caches : Nat → FilterCache φ) (call : JqCall) : Except WebPipeError Value × (Nat → FilterCache φ) :=
  match engine.getOrCompile caches call.thread (Text.trim call.expr) with
  | (.error message, caches) => (.error (.plain .middlewareExecutionError message), caches)
  | (.ok filter, caches) =>
    match engine.firstResult filter call.input with
    | .ok v => (.ok v, caches)
    | .error message => (.error (.plain .middlewareExecutionError message), caches)

/-- The evaluations of all threads, one after the other. -/
def evaluateAll (caches : Nat → FilterCache φ) : List JqCall → List (Except WebPipeError Value) × (Nat → FilterCache φ)
  | [] => ([], caches)
  | call :: calls =>
    let (result, caches) := engine.evaluate caches call
    let (results, caches) := evaluateAll caches calls
    (result :: results, caches)

/-- The filters that a thread compiles in a run, in order. -/
def compilationsOn (thread : Nat) (caches : Nat → FilterCache φ) : List JqCall → List String
  | [] => []
  | call :: calls =>
    let rest := compilationsOn thread (engine.evaluate caches call).2 calls
    if call.thread = thread ∧ ((caches thread).peek (Text.trim call.expr)).isNone then Text.trim call.expr :: rest else rest

end JqEngine

end WebPipe

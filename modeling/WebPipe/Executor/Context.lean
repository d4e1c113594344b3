import WebPipe.Ast
import WebPipe.Json

/-!
# The request context

`RequestContext` of `executor/context.rs`, as far as the executor and the cache middleware read and write it. The profiler's
samples are kept without their durations.
-/

namespace WebPipe

/-- The call stack of a request, and a sample of it for every step that ended. -/
structure Profiler where
  stack : List String := []
  samples : List String := []

namespace Profiler

def push (p : Profiler) (name : String) : Profiler := { p with stack := p.stack ++ [name] }

def pop (p : Profiler) : Profiler := { p with stack := p.stack.dropLast }

def recordSample (p : Profiler) : Profiler :=
  if p.stack.isEmpty then p else { p with samples := p.samples ++ [";".intercalate p.stack] }

end Profiler

/-- Debug stepping modes. -/
inductive StepMode where
  | stepOver
  | stepIn
  | stepOut
deriving DecidableEq, Repr

/-- Cache policy configuration for middleware communication. -/
structure CachePolicy where
  enabled : Bool
  ttl : Nat
  keyTemplate : Option String
deriving DecidableEq, Repr

/-- What an `@async` step hands to the task it spawns. -/
structure AsyncTask where
  name : String
  args : List String
  config : String
  location : SourceLocation
  input : Value

/-- Per-request mutable context. -/
structure RequestContext where
  featureFlags : String → Option Bool := fun _ => none
  conditions : String → Option Bool := fun _ => none
  /-- The tasks spawned and not yet joined. -/
  asyncRegistry : String → Option AsyncTask := fun _ => none
  cachePolicy : Option CachePolicy := none
  callLog : String → List Value := fun _ => []
  profiler : Profiler := {}
  request : Value := .null
  debugThreadId : Option Nat := none
  debugStepMode : Option StepMode := none

namespace RequestContext

/-- `AsyncTaskRegistry::register`. -/
def register (c : RequestContext) (name : String) (task : AsyncTask) : RequestContext :=
  { c with asyncRegistry := fun n => if n = name then some task else c.asyncRegistry n }

/-- `AsyncTaskRegistry::take`. -/
def takeTask (c : RequestContext) (name : String) : Option AsyncTask × RequestContext :=
  (c.asyncRegistry name, { c with asyncRegistry := fun n => if n = name then none else c.asyncRegistry n })

/-- Append to the call log. -/
def logCall (c : RequestContext) (key : String) (v : Value) : RequestContext :=
  { c with callLog := fun k => if k = key then c.callLog k ++ [v] else c.callLog k }

end RequestContext

end WebPipe

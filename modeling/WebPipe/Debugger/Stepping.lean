import WebPipe.Debugger.Hook
import WebPipe.Executor.Trace
import WebPipe.Lib.Brackets

/-!
# Stepping

When a thread that was paused pauses next. The hook of the debug server keeps a list of its calls; the log of a run says when steps start
and finish. `NextPause` is what the client is promised: in terms of the steps under way, where the server compares lengths of stacks.
-/

namespace WebPipe

open Brackets

/-! ## Calls of the hook -/

/-- A call of `before_step`: where it found the thread, and what the pause was answered with if it paused. -/
structure HookEntry where
  threadId : Nat
  stepName : String
  location : SourceLocation
  depth : Nat
  atBreakpoint : Bool
  action : Option StepAction

/-- `DapDebuggerHook`, with its calls recorded. -/
def recordingHook {τ : Type} : DebuggerHook ((τ × List HookEntry) × DapClient) where
  allocateThreadId := dapDebuggerHook.allocateThreadId
  beforeStep threadId name location state stack ext :=
    let server := ext.2.server
    let entry : HookEntry :=
      { threadId := threadId, stepName := name, location := location, depth := stack.length,
        atBreakpoint := server.atBreakpoint location,
        action := if server.pauses threadId location stack then some (ext.2.answers 0) else none }
    let out := dapDebuggerHook.beforeStep threadId name location state stack ext
    (out.1, (out.2.1.1, out.2.1.2 ++ [entry]), out.2.2)

/-- The calls for a thread. -/
def entriesOf (threadId : Nat) (entries : List HookEntry) : List HookEntry := entries.filter fun e => e.threadId = threadId

/-! ## Steps under way -/

mutual

/-- The steps of the request that start and finish in an event, in order; a task is a request of its own. -/
def Event.marks : Event → List (Mark PipelineStep)
  | .entered step _ => [.start step]
  | .settled _ _ _ _ => [.finish]
  | .run _ _ _ _ inner _ => marks inner
  | _ => []

/-- The steps of the request that start and finish in a log, in order. -/
def marks : List Event → List (Mark PipelineStep)
  | [] => []
  | e :: l => e.marks ++ marks l

end

mutual

/-- The middleware called in an event, at any depth. -/
def Event.invokedNames : Event → List String
  | .invoked name _ => [name]
  | .run _ _ _ _ inner _ => invokedNames inner
  | .task _ inner => invokedNames inner
  | _ => []

/-- The middleware called in a log, at any depth. -/
def invokedNames : List Event → List String
  | [] => []
  | e :: l => e.invokedNames ++ invokedNames l

end

/-- No `graphql` step was executed. -/
def NoGraphql (l : List Event) : Prop := "graphql" ∉ invokedNames l

instance (l : List Event) : Decidable (NoGraphql l) := inferInstanceAs (Decidable ("graphql" ∉ invokedNames l))

/-- How many steps start. -/
def starts (l : List (Mark PipelineStep)) : Nat := (openings 0 l).length

/-! ## The next pause -/

/-- No call pauses. -/
def NoPause (calls : List HookEntry) : Prop := ∀ e ∈ calls, e.action = none

/-- The first call pauses, if there is one. -/
def PausesFirst : List HookEntry → Prop
  | [] => True
  | e :: _ => e.action ≠ none

/-- Where a thread pauses next that was paused at the start of a step: `rest` is what starts and finishes after that start, and `later` are
the calls for the steps that start in it.
* After `stepIn`, at the next step that starts.
* After `next`, at the first step that starts when the step has finished, and no step before it.
* After `stepOut`, at the first step that starts when the step around it has finished, and no step before it; nowhere if no step is around
  it. -/
def NextPause (rest : List (Mark PipelineStep)) (later : List HookEntry) : StepAction → Prop
  | .continue => NoPause later
  | .stepIn => PausesFirst later
  | .stepOver => ∃ inner after, rest = inner ++ .finish :: after ∧ Balanced inner ∧
      NoPause (later.take (starts inner)) ∧ PausesFirst (later.drop (starts inner))
  | .stepOut =>
    (∃ inner mid after, rest = inner ++ .finish :: (mid ++ .finish :: after) ∧ Balanced inner ∧ Balanced mid ∧
      NoPause (later.take (starts inner + starts mid)) ∧ PausesFirst (later.drop (starts inner + starts mid))) ∨
    ∃ inner after, rest = inner ++ .finish :: after ∧ Balanced inner ∧ Balanced after ∧ NoPause later

end WebPipe

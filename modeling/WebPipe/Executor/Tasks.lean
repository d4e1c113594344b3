import Mathlib.Logic.Function.Basic
import WebPipe.Json
import WebPipe.Lib.Mailbox

/-!
# Tasks of concurrent requests

`AsyncTaskRegistry` of `executor/tasks.rs` and the loop of `handle_join`, as the steps of all requests and all tasks at once. A
request spawns tasks and joins them; a task ends whenever it does, and a join waits for the task that it has taken. The steps of
different requests and the ends of tasks come in any order; what a request does while it does not join is left open.
-/

namespace WebPipe

/-- A `join` under way: the names it has yet to take, the task it waits for, and the results so far. -/
structure JoinProgress where
  rest : List String
  awaited : Option (String × Nat)
  results : Object

/-- The tasks of all requests; a task is known by its number. -/
structure TaskSystem where
  /-- The registry of each request: the handles of its tasks. -/
  registry : Nat → String → Option Nat
  /-- The join that each request is in. -/
  joining : Nat → Option JoinProgress
  /-- The outcomes of the tasks that have ended. -/
  outcomes : Nat → Option Value
  spawned : Nat

/-- Before any request. -/
def TaskSystem.start : TaskSystem :=
  { registry := fun _ _ => none, joining := fun _ => none, outcomes := fun _ => none, spawned := 0 }

/-- What happens to the tasks. -/
inductive TaskEvent where
  /-- A request spawned a task under a name. -/
  | spawned (request : Nat) (name : String) (task : Nat)
  /-- A task ended, with a value or the text of its error or panic. -/
  | completed (task : Nat) (outcome : Value)
  /-- A request began to join names. -/
  | joins (request : Nat) (names : List String)
  /-- A join found no task under a name. -/
  | passed (request : Nat) (name : String)
  /-- A join took a task out of the registry and waits for it. -/
  | took (request : Nat) (name : String) (task : Nat)
  | delivered (request : Nat) (name : String) (task : Nat)
  /-- A join ended with its results. -/
  | joined (request : Nat) (results : Object)

/-- One step of the requests and their tasks. -/
inductive TaskStep : TaskSystem → TaskEvent → TaskSystem → Prop
  | spawn {s : TaskSystem} {request : Nat} {name : String} (h : s.joining request = none) :
      TaskStep s (.spawned request name s.spawned)
        { s with
          registry := Function.update s.registry request (Function.update (s.registry request) name (some s.spawned))
          spawned := s.spawned + 1 }
  | complete {s : TaskSystem} {task : Nat} (outcome : Value) (h : task < s.spawned) (hrun : s.outcomes task = none) :
      TaskStep s (.completed task outcome) { s with outcomes := Function.update s.outcomes task (some outcome) }
  | join {s : TaskSystem} {request : Nat} (names : List String) (h : s.joining request = none) :
      TaskStep s (.joins request names)
        { s with joining := Function.update s.joining request (some { rest := names, awaited := none, results := [] }) }
  | pass {s : TaskSystem} {request : Nat} {name : String} {rest : List String} {results : Object}
      (h : s.joining request = some { rest := name :: rest, awaited := none, results := results })
      (hno : s.registry request name = none) :
      TaskStep s (.passed request name)
        { s with joining := Function.update s.joining request (some { rest := rest, awaited := none, results := results }) }
  | take {s : TaskSystem} {request : Nat} {name : String} {rest : List String} {results : Object} {task : Nat}
      (h : s.joining request = some { rest := name :: rest, awaited := none, results := results })
      (hsome : s.registry request name = some task) :
      TaskStep s (.took request name task)
        { s with
          registry := Function.update s.registry request (Function.update (s.registry request) name none)
          joining := Function.update s.joining request (some { rest := rest, awaited := some (name, task), results := results }) }
  | deliver {s : TaskSystem} {request : Nat} {name : String} {rest : List String} {results : Object} {task : Nat} {outcome : Value}
      (h : s.joining request = some { rest := rest, awaited := some (name, task), results := results })
      (hdone : s.outcomes task = some outcome) :
      TaskStep s (.delivered request name task)
        { s with
          joining := Function.update s.joining request
            (some { rest := rest, awaited := none, results := IndexMap.insert results name outcome }) }
  | endJoin {s : TaskSystem} {request : Nat} {results : Object}
      (h : s.joining request = some { rest := [], awaited := none, results := results }) :
      TaskStep s (.joined request results) { s with joining := Function.update s.joining request none }

/-- What has happened since the start, in order, and where it led. -/
inductive TaskHistory : List TaskEvent → TaskSystem → Prop
  | start : TaskHistory [] .start
  | step {l : List TaskEvent} {s s' : TaskSystem} {e : TaskEvent} (h : TaskHistory l s) (hstep : TaskStep s e s') :
      TaskHistory (l ++ [e]) s'

namespace TaskEvent

/-- What an event does to the registry of a request: a join empties the names that it was begun with. -/
def registryOp (request : Nat) : TaskEvent → Option (Mailbox.Op String Nat)
  | .spawned r name task => if r = request then some (.put name task) else none
  | .joins r names => if r = request then some (.take names) else none
  | _ => none

/-- The event begins or ends a join of the request. -/
def Bounds (request : Nat) : TaskEvent → Prop
  | .joins r _ => r = request
  | .joined r _ => r = request
  | _ => False

end TaskEvent

/-- What a history did to the registry of a request. -/
def registryOps (request : Nat) (l : List TaskEvent) : List (Mailbox.Op String Nat) := l.filterMap (TaskEvent.registryOp request)

/-- No task is spawned under a name that the request has a task under. -/
def NoTaskLost (l : List TaskEvent) : Prop :=
  ∀ a request name task b, l = a ++ .spawned request name task :: b → Mailbox.held (registryOps request a) name = none

end WebPipe

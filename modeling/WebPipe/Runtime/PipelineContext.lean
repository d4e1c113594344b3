import WebPipe.Lib.Text
import WebPipe.Runtime.CacheStore

/-!
# The state of a pipeline

`PipelineContext` of `runtime/pipeline_context.rs`, how a step's result enters the state, and the paths of `json_path.rs` that
`foreach` reads and writes the state through.
-/

namespace WebPipe

/-- A cache write registered by the cache middleware, performed with the final state of the run it was registered in. The
store it goes to is the one store of the environment. -/
structure PendingCacheSave where
  key : String
  ttl : Nat
  /-- The caller was elected to refresh a stale entry. -/
  refreshing : Bool
deriving DecidableEq, Repr

/-- `RUNTIME_KEYS`: the keys a Transform step keeps. -/
def runtimeKeys : List String :=
  ["async", "data", "originalRequest", "query", "params", "body", "headers", "cookies", "method", "path", "ip",
    "content_type"]

/-- The mutable state of one pipeline run. -/
structure PipelineContext where
  state : Value
  pendingCacheSaves : List PendingCacheSave
  /-- Set by the cache middleware on a hit, taken by the executor. -/
  cacheHit : Option CachedResponse
  currentStepId : Option String

namespace PipelineContext

/-- A context with an initial state. -/
def new (state : Value) : PipelineContext :=
  { state := state, pendingCacheSaves := [], cacheHit := none, currentStepId := none }

/-- `replace_state`. -/
def replaceState (c : PipelineContext) (state : Value) : PipelineContext := { c with state := state }

/-- `merge_state`: the members of one object over those of another; anything else replaces the state. -/
def mergeState (c : PipelineContext) (incoming : Value) : PipelineContext :=
  match c.state, incoming with
  | .object current, .object new => { c with state := .object (IndexMap.insertAll current new) }
  | _, _ => { c with state := incoming }

/-- `backup_system_keys`. -/
def backupSystemKeys (c : PipelineContext) : List (String × Value) :=
  runtimeKeys.filterMap (fun key => (c.state.get key).map (fun v => (key, v)))

/-- `restore_system_keys`: only keys that the new state does not have. -/
def restoreSystemKeys (c : PipelineContext) (backups : List (String × Value)) : PipelineContext :=
  match c.state with
  | .object members =>
    let restored := backups.foldl
      (fun m kv => if (IndexMap.get m kv.1).isSome then m else IndexMap.insert m kv.1 kv.2) members
    { c with state := .object restored }
  | _ => c

end PipelineContext

/-! ## Paths -/

namespace JsonPath

/-- `parse_path`: the segments of a path; leading dots and empty segments do not count. -/
def parsePath (path : String) : List String :=
  (Text.split '.' (String.ofList (path.toList.dropWhile (· = '.')))).filter (fun s => !s.isEmpty)

/-- The value at a path; a segment of an array is an index. -/
def getAt : List String → Value → Option Value
  | [], v => some v
  | part :: parts, .object members => (IndexMap.get members part).bind (getAt parts)
  | part :: parts, .array items => (Text.parseUnsigned 64 part).bind (fun i => items[i]?.bind (getAt parts))
  | _ :: _, _ => none

/-- Change the value at a path, where there is one. -/
def modifyAt (f : Value → Value) : List String → Value → Value
  | [], v => f v
  | part :: parts, .object members => .object (IndexMap.modify members part (modifyAt f parts))
  | part :: parts, .array items =>
    match Text.parseUnsigned 64 part with
    | some i => .array (items.modify i (modifyAt f parts))
    | none => .array items
  | _ :: _, v => v

/-- What `get_value_mut` points to. -/
def getValue (root : Value) (path : String) : Option Value := getAt (parsePath path) root

/-- Write through what `get_value_mut` points to. -/
def setValue (root : Value) (path : String) (v : Value) : Value := modifyAt (fun _ => v) (parsePath path) root

end JsonPath

end WebPipe

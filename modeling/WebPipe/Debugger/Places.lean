import WebPipe.Debugger.Variables

/-!
# Places of variables

Where in the state of a paused thread a listed value lies, as a path, and what it is to replace just that. A session keeps beside the
tables from where the client came to each reference: from a scope or from the result of an expression, and which parts it expanded since.
The handlers read nothing of it.
-/

namespace WebPipe

/-! ## Paths -/

/-- A step from a value to a part of it. -/
inductive PathStep where
  | member (key : String)
  | item (index : Nat)
deriving DecidableEq, Repr

namespace Value

/-- The value in a place. -/
def getAt : List PathStep → Value → Option Value
  | [], v => some v
  | .member key :: path, .object members => (IndexMap.get members key).bind (getAt path)
  | .item i :: path, .array items => items[i]?.bind (getAt path)
  | _ :: _, _ => none

/-- The value with a place in it replaced, and nothing else. -/
def putAt (new : Value) : List PathStep → Value → Option Value
  | [], _ => some new
  | .member key :: path, .object members =>
    (IndexMap.get members key).bind fun v => (putAt new path v).map fun v' => .object (IndexMap.insert members key v')
  | .item i :: path, .array items => items[i]?.bind fun v => (putAt new path v).map fun v' => .array (items.set i v')
  | _ :: _, _ => none

end Value

/-- The paths to the parts that are listed for a value, in the order of `children`; a value that has no parts is listed itself. -/
def childPaths : Value → List (List PathStep)
  | .object members => members.map fun p => [.member p.1]
  | .array items => items.zipIdx.map fun p => [.item p.2]
  | _ => [[]]

/-! ## Origins -/

/-- From where the client came to a reference: the place in the state from where it began, if it began at a place, whether it began with
the result of an expression, and the path it took since. -/
structure Origin where
  start : Option (List PathStep)
  evaluated : Bool
  path : List PathStep
deriving DecidableEq, Repr

namespace Origin

/-- The state itself. -/
def scope : Origin := { start := some [], evaluated := false, path := [] }

/-- A part is expanded. -/
def extend (o : Origin) (path : List PathStep) : Origin := { o with path := o.path ++ path }

end Origin

/-- The value whose parts are listed for a reference. -/
def VarServer.shownValue (server : VarServer) (varRef : Nat) : Option Value :=
  if varRef % varRefStride = 1 then (server.pausedThreads (varRef / varRefStride)).map PausedVars.state
  else server.variableCache varRef

/-- A session that keeps the origin of every reference. -/
structure PlacedSession extends VarSession where
  origins : Nat → Option Origin := fun _ => none

section Steps

variable (parseJson : String → Option Value) (evaluate : String → Value → Except String Value)
variable (selects : String → Value → Option (List PathStep))

/-- The origins after a listing: a part is listed under its path. -/
def originsListed (vars : List DapVariable) (paths : List (List PathStep)) (o : Option Origin) (origins : Nat → Option Origin) :
    Nat → Option Origin := fun varRef =>
  match (vars.zip paths).find? fun q => isComplex q.1.shown && q.1.variablesReference == varRef with
  | some q => o.map fun o => o.extend q.2
  | none => origins varRef

/-- The origin of the new value that is set through a reference: it lies in the state, where the pointer led. -/
def originSet (server : VarServer) (varRef : Nat) (name : String) (o : Option Origin) : Option Origin :=
  (server.pausedThreads (varRef / varRefStride)).bind fun paused => o.bind fun o =>
    match paused.state.getAt o.path with
    | some (.object _) => some (Origin.scope.extend (o.path ++ [.member name]))
    | _ => none

/-- The origins after a request; `selects` is the place in the state that an expression of jq selects, if it selects one. -/
def VarRequest.origins (server : VarServer) (r : VarRequest) (response : VarResponse) (origins : Nat → Option Origin) :
    Nat → Option Origin :=
  match r, response with
  | .scopes _, .scopes rootRef => Function.update origins rootRef (some .scope)
  | .listVariables varRef, .listed vars =>
    match server.shownValue varRef with
    | some v => originsListed vars (childPaths v) (origins varRef) origins
    | none => origins
  | .setVariable varRef name _, .value v refId =>
    if isComplex v then Function.update origins refId (originSet server varRef name (origins varRef)) else origins
  | .evaluate frameId expression, .value v refId =>
    if isComplex v then
      let start := (server.pausedThreads (VarServer.frameThread frameId)).bind fun paused =>
        selects (VarServer.jqExpression expression) paused.state
      Function.update origins refId (some { start := start, evaluated := true, path := [] })
    else origins
  | .resume threadId, _ => fun k =>
    if k < threadId * varRefStride ∨ threadId * varRefStride + varRefStride - 1 < k then origins k else none
  | _, _ => origins

/-- A step of a session. -/
def PlacedSession.step (s : PlacedSession) (move : VarMove) : PlacedSession :=
  { toVarSession := s.toVarSession.step parseJson evaluate move
    origins :=
      match move with
      | .pause _ _ => s.origins
      | .request r => r.origins selects s.server (s.server.handle parseJson evaluate r).1 s.origins }

end Steps

end WebPipe

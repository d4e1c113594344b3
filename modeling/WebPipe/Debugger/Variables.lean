import Mathlib.Logic.Function.Basic
import WebPipe.Json
import WebPipe.Lib.Text

/-!
# Variables of paused threads

The tables of `DapServer` in `debugger/dap_server.rs` through which the client sees the state of a paused thread and changes a part of it.
A concurrent map is the function it stands for. References, which are `i64` in the source, are not bounded here: thread ids count the
requests from 1. A text that the client sends as JSON is read by `serde_json`, and expressions are evaluated by jq.
-/

namespace WebPipe

/-! ## JSON pointers -/

/-- Replace every occurrence of a text, from the left; a number of characters is skipped first. -/
def replaceFrom (pat new : List Char) : Nat → List Char → List Char
  | _, [] => []
  | n + 1, _ :: l => replaceFrom pat new n l
  | 0, c :: l =>
    if pat.isPrefixOf (c :: l) then new ++ replaceFrom pat new (pat.length - 1) l else c :: replaceFrom pat new 0 l

/-- `str::replace` of a character by a text. -/
def replaceCharBy (c : Char) (new l : List Char) : List Char := l.flatMap fun d => if d = c then new else [d]

/-- `escape_json_pointer`. -/
def escapeJsonPointer (key : String) : List Char := replaceCharBy '/' ['~', '1'] (replaceCharBy '~' ['~', '0'] key.toList)

/-- A token of a pointer, as `serde_json` reads it. -/
def unescapeToken (token : List Char) : String :=
  String.ofList (replaceFrom ['~', '0'] ['~'] 0 (replaceFrom ['~', '1'] ['/'] 0 token))

/-- An index in a pointer: no sign, and no zero before another digit. -/
def parseIndex (s : String) : Option Nat :=
  if s.toList.head? = some '+' ∨ (s.toList.head? = some '0' ∧ s.utf8ByteSize ≠ 1) then none else Text.parseUnsigned 64 s

/-- The tokens of a pointer. -/
def pointerTokens (pointer : List Char) : Option (List String) :=
  if pointer = [] then some []
  else if pointer.head? = some '/' then some (((pointer.splitOn '/').drop 1).map unescapeToken)
  else none

namespace Value

/-- Put a value in the place that tokens lead to. -/
def setTokens (new : Value) : List String → Value → Option Value
  | [], _ => some new
  | token :: tokens, .object members =>
    (IndexMap.get members token).bind fun v =>
      (setTokens new tokens v).map fun v' => .object (IndexMap.insert members token v')
  | token :: tokens, .array items =>
    (parseIndex token).bind fun i => items[i]?.bind fun v =>
      (setTokens new tokens v).map fun v' => .array (items.set i v')
  | _ :: _, _ => none

/-- Assign to `pointer_mut`; nothing where the pointer leads nowhere. -/
def pointerSet (v : Value) (pointer : List Char) (new : Value) : Option Value :=
  (pointerTokens pointer).bind fun tokens => setTokens new tokens v

end Value

/-! ## Listings -/

/-- `is_complex`. -/
def isComplex : Value → Bool
  | .object _ | .array _ => true
  | _ => false

/-- `format_preview`. -/
def formatPreview : Value → String
  | .object _ => "\x7b...\x7d"
  | .array items => s!"[{items.length} items]"
  | .string s => s!"\"{s}\""
  | v => v.toJson

/-- `Variable`: a name, the value it shows, and a reference to what is inside. -/
structure DapVariable where
  name : String
  shown : Value
  variablesReference : Nat

namespace DapVariable

/-- `type_name`. -/
def typeName : Value → String
  | .null => "null"
  | .bool _ => "boolean"
  | .number _ => "number"
  | .string _ => "string"
  | .array _ => "array"
  | .object _ => "object"

/-- The text of the value. -/
def value (x : DapVariable) : String := formatPreview x.shown

/-- The type of the value. -/
def typeText (x : DapVariable) : String := typeName x.shown

/-- The number of members of an object that has any. -/
def namedVariables (x : DapVariable) : Option Nat :=
  match x.shown with
  | .object (p :: members) => some (p :: members).length
  | _ => none

/-- The number of items of an array that has any. -/
def indexedVariables (x : DapVariable) : Option Nat :=
  match x.shown with
  | .array (v :: items) => some (v :: items).length
  | _ => none

end DapVariable

/-- A part of a value: the name it is listed under, the token for it in a pointer, and the part. -/
structure Child where
  name : String
  token : List Char
  value : Value

/-- What is listed for a value; a value that has no parts is listed itself. -/
def children : Value → List Child
  | .object members => members.map fun p => { name := p.1, token := escapeJsonPointer p.1, value := p.2 }
  | .array items => items.zipIdx.map fun p => { name := s!"[{p.2}]", token := (toString p.2).toList, value := p.1 }
  | v => [{ name := "value", token := [], value := v }]

/-! ## The tables -/

/-- `VAR_REF_STRIDE`. -/
def varRefStride : Nat := 100000

/-- The state of a paused thread and the counter of its references. -/
structure PausedVars where
  state : Value
  varRefIndex : Nat := 1

/-- The tables of `DapServer` for variables. -/
structure VarServer where
  pausedThreads : Nat → Option PausedVars := fun _ => none
  variableCache : Nat → Option Value := fun _ => none
  variablePointers : Nat → Option (List Char) := fun _ => none

namespace VarServer

/-- A new reference of a paused thread for a value, with the pointer to it if there is one. -/
def allocate (server : VarServer) (threadId : Nat) (v : Value) (pointer : Option (List Char)) : Nat × VarServer :=
  match server.pausedThreads threadId with
  | none => (0, server)
  | some paused =>
    let index := paused.varRefIndex + 1
    let refId := threadId * varRefStride + index
    (refId,
      { pausedThreads := Function.update server.pausedThreads threadId (some { paused with varRefIndex := index })
        variableCache := Function.update server.variableCache refId (some v)
        variablePointers :=
          match pointer with
          | some p => Function.update server.variablePointers refId (some p)
          | none => server.variablePointers })

/-- `json_to_variables_cached`. -/
def jsonToVariablesCached (threadId : Nat) (parentPtr : List Char) : List Child → VarServer → List DapVariable × VarServer
  | [], server => ([], server)
  | child :: rest, server =>
    let (varRef, server) :=
      if isComplex child.value then server.allocate threadId child.value (some (parentPtr ++ '/' :: child.token)) else (0, server)
    let (vars, server) := jsonToVariablesCached threadId parentPtr rest server
    ({ name := child.name, shown := child.value, variablesReference := varRef } :: vars, server)

/-- `handle_scopes`: the reference of the root. -/
def handleScopes (server : VarServer) (frameId : Nat) : Nat × VarServer :=
  let rootRef := frameId / 10000 * varRefStride + 1
  (rootRef, { server with variablePointers := Function.update server.variablePointers rootRef (some []) })

/-- `handle_variables`. -/
def handleVariables (server : VarServer) (varRef : Nat) : List DapVariable × VarServer :=
  let threadId := varRef / varRefStride
  let parentPtr := (server.variablePointers varRef).getD []
  if varRef % varRefStride = 1 then
    match server.pausedThreads threadId with
    | some paused => jsonToVariablesCached threadId parentPtr (children paused.state) server
    | none => ([], server)
  else
    match server.variableCache varRef with
    | some cachedValue =>
      match server.pausedThreads threadId with
      | some _ => jsonToVariablesCached threadId parentPtr (children cachedValue) server
      | none => ([], server)
    | none => ([], server)

/-- What a change does to the value that a reference was made for. -/
def updateContainer (name : String) (new : Value) : Value → Value
  | .object members => .object (IndexMap.insert members name new)
  | .array items =>
    -- an index, in brackets or not
    let isBracket : Char → Bool := fun c => c = '[' || c = ']'
    let digits := ((name.toList.dropWhile isBracket).reverse.dropWhile isBracket).reverse
    match Text.parseUnsigned 64 (String.ofList digits) with
    | some idx => if idx < items.length then .array (items.set idx new) else .array items
    | none => .array items
  | v => v

/-- What a text of the client stands for: JSON, or else a string. -/
def newValue (parseJson : String → Option Value) (text : String) : Value := (parseJson text).getD (.string text)

/-- The pointer to a part of what a reference was made for. -/
def targetPtr (server : VarServer) (varRef : Nat) (name : String) : Option (List Char) :=
  (server.variablePointers varRef).map fun parentPtr => parentPtr ++ '/' :: escapeJsonPointer name

/-- The state of the thread with a part of what a reference was made for changed; nothing if there is no such part. -/
def changedState (server : VarServer) (varRef : Nat) (name : String) (new : Value) : Option (PausedVars × Value) :=
  (server.targetPtr varRef name).bind fun pointer => (server.pausedThreads (varRef / varRefStride)).bind fun paused =>
    (paused.state.pointerSet pointer new).map fun state => (paused, state)

/-- `handle_set_variable`: the value set and a reference to what is inside, or nothing where the update fails. -/
def handleSetVariable (server : VarServer) (varRef : Nat) (name : String) (new : Value) : Option (Value × Nat) × VarServer :=
  match server.changedState varRef name new with
  | none => (none, server)
  | some (paused, state) =>
    let threadId := varRef / varRefStride
    let server' : VarServer := { server with
      pausedThreads := Function.update server.pausedThreads threadId (some { paused with state := state })
      variableCache := Function.update server.variableCache varRef ((server.variableCache varRef).map (updateContainer name new)) }
    if isComplex new then
      let (refId, server'') := server'.allocate threadId new (server.targetPtr varRef name)
      (some (new, refId), server'')
    else (some (new, 0), server')

/-- The thread that a frame belongs to. -/
def frameThread (frameId : Option Nat) : Nat := (frameId.map (· / 10000)).getD 0

/-- What the client asks to evaluate, as an expression of jq. -/
def jqExpression (expression : String) : String :=
  if ".".toList.isPrefixOf expression.toList then expression else "." ++ expression

/-- `handle_evaluate`; `evaluate` is the jq evaluator. -/
def handleEvaluate (evaluate : String → Value → Except String Value) (server : VarServer) (frameId : Option Nat) (expression : String) :
    Except String (Value × Nat) × VarServer :=
  match server.pausedThreads (frameThread frameId) with
  | none => (.error "Thread not paused", server)
  | some paused =>
    match evaluate (jqExpression expression) paused.state with
    | .error e => (.error s!"Evaluation failed: {e}", server)
    | .ok v =>
      if isComplex v then
        let (refId, server) := server.allocate (frameThread frameId) v none
        (.ok (v, refId), server)
      else (.ok (v, 0), server)

/-- `clear_thread_variables`. -/
def clearThreadVariables (server : VarServer) (threadId : Nat) : VarServer :=
  let start := threadId * varRefStride
  let stop := start + varRefStride - 1
  { server with
    variableCache := fun k => if k < start ∨ stop < k then server.variableCache k else none
    variablePointers := fun k => if k < start ∨ stop < k then server.variablePointers k else none }

/-- `handle_continue`, `handle_next`, `handle_step_in` and `handle_step_out`: the state that a thread goes on with. -/
def resume (server : VarServer) (threadId : Nat) : Option Value × VarServer :=
  let server := server.clearThreadVariables threadId
  ((server.pausedThreads threadId).map PausedVars.state,
    { server with pausedThreads := Function.update server.pausedThreads threadId none })

/-- `before_step` of a thread that pauses. -/
def pause (server : VarServer) (threadId : Nat) (state : Value) : VarServer :=
  { server with pausedThreads := Function.update server.pausedThreads threadId (some { state := state }) }

end VarServer

/-! ## Requests -/

/-- A request of the client about variables, or to resume a thread. -/
inductive VarRequest where
  | scopes (frameId : Nat)
  | listVariables (varRef : Nat)
  | setVariable (varRef : Nat) (name value : String)
  | evaluate (frameId : Option Nat) (expression : String)
  | resume (threadId : Nat)
deriving DecidableEq, Repr

/-- What is answered to a request; a resumed thread goes on with a state. -/
inductive VarResponse where
  | scopes (variablesReference : Nat)
  | listed (vars : List DapVariable)
  | value (v : Value) (variablesReference : Nat)
  | resumed (state : Option Value)
  | failed (message : String)

section Requests

variable (parseJson : String → Option Value) (evaluate : String → Value → Except String Value)

/-- The thread that a request is about. -/
def VarRequest.thread : VarRequest → Nat
  | .scopes frameId => frameId / 10000
  | .listVariables varRef | .setVariable varRef _ _ => varRef / varRefStride
  | .evaluate frameId _ => VarServer.frameThread frameId
  | .resume threadId => threadId

/-- Answer a request. -/
def VarServer.handle (server : VarServer) : VarRequest → VarResponse × VarServer
  | .scopes frameId =>
    let (rootRef, server) := server.handleScopes frameId
    (.scopes rootRef, server)
  | .listVariables varRef =>
    let (vars, server) := server.handleVariables varRef
    (.listed vars, server)
  | .setVariable varRef name value =>
    match server.handleSetVariable varRef name (newValue parseJson value) with
    | (some (v, refId), server) => (.value v refId, server)
    | (none, server) => (.failed "Failed to update variable", server)
  | .evaluate frameId expression =>
    match server.handleEvaluate evaluate frameId expression with
    | (.ok (v, refId), server) => (.value v refId, server)
    | (.error e, server) => (.failed e, server)
  | .resume threadId =>
    let (state, server) := server.resume threadId
    (.resumed state, server)

/-- The references that an answer hands out for nested values. -/
def VarResponse.handedOut : VarResponse → List (Nat × Value)
  | .listed vars => (vars.filter fun x => isComplex x.shown).map fun x => (x.variablesReference, x.shown)
  | .value v refId => if isComplex v then [(refId, v)] else []
  | _ => []

/-- The tables, and the references handed out in the present pause of each thread with the values they were made for. A change through
a reference is a change of its value. -/
structure VarSession where
  server : VarServer := {}
  handed : Nat → List (Nat × Value) := fun _ => []

/-- What a session does next. A thread pauses, with an id that no paused thread has, or the client sends a request. -/
inductive VarMove where
  | pause (threadId : Nat) (state : Value)
  | request (r : VarRequest)

/-- The references handed out before, after a request and its answer. -/
def VarRequest.kept (r : VarRequest) (response : VarResponse) (handed : List (Nat × Value)) : List (Nat × Value) :=
  match r, response with
  | .setVariable varRef name _, .value v _ =>
    handed.map fun e => if e.1 = varRef then (e.1, VarServer.updateContainer name v e.2) else e
  | .resume _, _ => []
  | _, _ => handed

/-- A step of a session. -/
def VarSession.step (s : VarSession) : VarMove → VarSession
  | .pause threadId state =>
    match s.server.pausedThreads threadId with
    | some _ => s
    | none => { server := s.server.pause threadId state, handed := Function.update s.handed threadId [] }
  | .request r =>
    let (response, server) := s.server.handle parseJson evaluate r
    { server := server
      handed := Function.update s.handed r.thread (r.kept response (s.handed r.thread) ++ response.handedOut) }

end Requests

end WebPipe

import WebPipe.Debugger.Dap

/-!
# Debug sessions

The debug server handles one message after another, and any number of pipeline threads enter `before_step` meanwhile. Each access to a
table and each write to the client is a step of its own, and the steps of the server and of the threads interleave in any order. A table
of threads is kept in shards; iteration over it looks at one shard after another.
-/

namespace WebPipe

/-- How the table of paused threads is split. -/
structure Sharding where
  count : Nat
  shardOf : Nat → Nat
  shardOf_lt : ∀ threadId, shardOf threadId < count

/-- A message of the client. -/
inductive Message where
  | setBreakpoints (path : Option String) (lines : List Nat)
  | continue (threadId : Nat)
  | next (threadId : Nat)
  | stepIn (threadId : Nat)
  | stepOut (threadId : Nat)
  | pause
  | disconnect
deriving DecidableEq, Repr

/-- A step of a handler. -/
inductive ServerOp where
  | setLines (filePath : String) (lines : List Nat)
  | leaveStepping (threadId : Nat)
  | setStepping (threadId : Nat) (mode : SteppingMode)
  /-- Read the depth of the stack for a stepping mode. -/
  | measure (threadId : Nat) (mode : Nat → SteppingMode)
  /-- Take a thread from the table and send it a command. -/
  | resume (threadId : Nat) (command : Option Value → StepCommand)
  /-- Read the threads of a shard. -/
  | collect (shard : Nat)
  /-- Resume the next of the threads read. -/
  | resumeCollected
  | clearAnnounced
  | respond
  /-- Respond, and leave the loop. -/
  | leave

/-- What the handler of a message does. -/
def Message.ops (sharding : Sharding) (server : DapServer) : Message → List ServerOp
  | .setBreakpoints path lines => [.setLines (path.getD server.filePath) lines, .respond]
  | .continue t => [.leaveStepping t, .resume t .continue, .respond]
  | .next t => [.measure t .stepOver, .resume t .stepOver, .respond]
  | .stepIn t => [.setStepping t .stepInto, .resume t .stepIn, .respond]
  | .stepOut t => [.measure t .stepOut, .resume t .stepOut, .respond]
  | .pause => [.respond]
  | .disconnect => (List.range sharding.count).map .collect ++ [.resumeCollected, .clearAnnounced, .leave]

/-- Where a call of `before_step` stands. -/
inductive Phase where
  /-- About to look for a breakpoint. -/
  | entered
  /-- About to look at the stepping mode. -/
  | looked (atBreakpoint : Bool)
  /-- It pauses, and is about to look whether the thread is announced. -/
  | announcing
  | announced
  /-- The thread event is being written. -/
  | starting
  /-- About to leave the stepping mode. -/
  | unstepping
  /-- About to enter the table of paused threads. -/
  | parking
  /-- The stopped event is being written. -/
  | stopping
  /-- Waits for the channel. -/
  | awaiting
  | done (result : Except String (StepAction × Value))

/-- The channel of a call of `before_step`. -/
inductive Channel where
  | open
  | sent (command : StepCommand)
  | closed

/-- A call of `before_step`. -/
structure HookCall where
  threadId : Nat
  location : SourceLocation
  state : Value
  stack : List String
  phase : Phase := .entered
  channel : Channel := .open

/-- The call waits for a client. -/
def HookCall.waits (v : HookCall) : Bool :=
  match v.phase, v.channel with
  | .awaiting, .open => true
  | _, _ => false

/-- The server, the calls of `before_step` so far, and where the task that handles messages stands. -/
structure Session where
  server : DapServer
  calls : List HookCall := []
  /-- What is left of the handler at work. -/
  todo : List ServerOp := []
  /-- The threads that `handle_disconnect` has read. -/
  threadIds : List Nat := []
  /-- The loop over messages has ended. -/
  ended : Bool := false
  /-- A `disconnect` has been taken up. -/
  disconnecting : Bool := false

/-- A step of a session. A write succeeds, or fails with a message. -/
inductive Move where
  | enter (threadId : Nat) (location : SourceLocation) (state : Value) (stack : List String)
  | advance (call : Nat) (written : Except String Unit)
  | receive (message : Message)
  | serve (written : Except String Unit)

namespace Session

/-- The server has processed `disconnect`. -/
def disconnected (s : Session) : Bool := s.disconnecting && s.ended

/-- Give a call of `before_step` a new phase. -/
def setPhase (s : Session) (i : Nat) (v : HookCall) (phase : Phase) : Session :=
  { s with calls := s.calls.set i { v with phase := phase } }

/-- Put something into the channel of a call of `before_step`. -/
def setChannel (s : Session) (i : Nat) (channel : Channel) : Session :=
  { s with calls := s.calls.modify i fun v => { v with channel := channel } }

/-- Take a thread from the table and send it a command with the state it had. -/
def resume (s : Session) (threadId : Nat) (command : Option Value → StepCommand) : Session :=
  match s.server.pausedThreads.lookup threadId with
  | none => s
  | some paused =>
    let server := { s.server with pausedThreads := s.server.pausedThreads.erase threadId }
    { s with server := server }.setChannel paused.resumeTx (.sent (command (some paused.state)))

/-- Close the channel of the entry of a thread, as when the entry is dropped. -/
def closeEntry (s : Session) (threadId : Nat) : Session :=
  match s.server.pausedThreads.lookup threadId with
  | none => s
  | some paused => s.setChannel paused.resumeTx .closed

/-- Enter the table of paused threads, in place of an entry that is there already. -/
def park (s : Session) (i : Nat) (v : HookCall) : Session :=
  let entry : PausedState := { resumeTx := i, state := v.state, stack := v.stack }
  let server := { s.server with pausedThreads := s.server.pausedThreads.insert v.threadId entry }
  { s.closeEntry v.threadId with server := server }.setPhase i v .stopping

/-- The next step of a call of `before_step`. -/
def advance (s : Session) (i : Nat) (written : Except String Unit) : Session :=
  match s.calls[i]? with
  | none => s
  | some v =>
    match v.phase with
    | .entered => s.setPhase i v (.looked (s.server.atBreakpoint v.location))
    | .looked atBreakpoint =>
      if atBreakpoint || s.server.shouldPauseStep v.threadId v.stack.length then s.setPhase i v .announcing
      else s.setPhase i v (.done (.ok (.continue, v.state)))
    | .announcing => s.setPhase i v (if v.threadId ∈ s.server.announcedThreads then .unstepping else .announced)
    | .announced =>
      let server := { s.server with announcedThreads := insert v.threadId s.server.announcedThreads }
      { s with server := server }.setPhase i v .starting
    | .starting =>
      match written with
      | .ok _ => s.setPhase i v .unstepping
      | .error message => s.setPhase i v (.done (.error message))
    | .unstepping =>
      let server := { s.server with steppingThreads := s.server.steppingThreads.erase v.threadId }
      { s with server := server }.setPhase i v .parking
    | .parking => s.park i v
    | .stopping =>
      match written with
      | .ok _ => s.setPhase i v .awaiting
      | .error message => s.setPhase i v (.done (.error message))
    | .awaiting =>
      match v.channel with
      | .open => s
      | .sent command => s.setPhase i v (.done (.ok (command.action, command.state.getD v.state)))
      | .closed => s.setPhase i v (.done (.error "Resume channel closed"))
    | .done _ => s

/-- The next step of the handler at work. -/
def serve (sharding : Sharding) (s : Session) (written : Except String Unit) : Session :=
  match s.todo with
  | [] => s
  | op :: todo =>
    let s' := { s with todo := todo }
    match op with
    | .setLines filePath lines => { s' with server := s.server.setLines filePath lines }
    | .leaveStepping t => { s' with server := { s.server with steppingThreads := s.server.steppingThreads.erase t } }
    | .setStepping t mode => { s' with server := { s.server with steppingThreads := s.server.steppingThreads.insert t mode } }
    | .measure t mode => { s with todo := .setStepping t (mode (s.server.currentDepth t)) :: todo }
    | .resume t command => s'.resume t command
    | .collect shard =>
      { s' with threadIds := s.threadIds ++ s.server.pausedThreads.keys.filter (sharding.shardOf · = shard) }
    | .resumeCollected =>
      match s.threadIds with
      | [] => s'
      | t :: rest => { s with threadIds := rest }.resume t .continue
    | .clearAnnounced => { s' with server := { s.server with announcedThreads := ∅ } }
    | .respond =>
      match written with
      | .ok _ => s'
      | .error _ => { s' with todo := [], ended := true }
    | .leave => { s' with ended := true }

/-- The next message is taken when the handler before it is done and the loop has not ended. -/
def receive (sharding : Sharding) (s : Session) (message : Message) : Session :=
  if s.ended = false ∧ s.todo.isEmpty then
    { s with todo := message.ops sharding s.server, disconnecting := s.disconnecting || decide (message = .disconnect) }
  else s

/-- A step of the session; one that is not possible changes nothing. -/
def step (sharding : Sharding) (s : Session) : Move → Session
  | .enter threadId location state stack =>
    { s with calls := s.calls ++ [{ threadId := threadId, location := location, state := state, stack := stack }] }
  | .advance i written => s.advance i written
  | .receive message => s.receive sharding message
  | .serve written => s.serve sharding written

end Session

end WebPipe

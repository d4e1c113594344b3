import WebPipe.Debugger.Session
import WebPipe.Executor.Env
import WebPipe.Lib.Runs

/-!
# The debug server as a debugger

`DapDebuggerHook`, for a client whose writes succeed and who answers every pause with `continue`, `next`, `stepIn` or `stepOut`.
`beforeStep_session` connects it to the interleaved session: it is what a session does with one thread.
-/

namespace WebPipe

/-- The mode that `handle_debugger_before` records for an action. -/
def StepAction.stepMode : StepAction → Option StepMode
  | .continue => none
  | .stepOver => some .stepOver
  | .stepIn => some .stepIn
  | .stepOut => some .stepOut

/-- The message of the client that asks for an action. -/
def StepAction.message (threadId : Nat) : StepAction → Message
  | .continue => .continue threadId
  | .stepOver => .next threadId
  | .stepIn => .stepIn threadId
  | .stepOut => .stepOut threadId

namespace DapServer

/-- The server with a thread paused: announced, out of its stepping mode, and in the table. -/
def paused (server : DapServer) (threadId : Nat) (state : Value) (stack : List String) : DapServer :=
  { server with
    announcedThreads := insert threadId server.announcedThreads
    steppingThreads := server.steppingThreads.erase threadId
    pausedThreads := server.pausedThreads.insert threadId { resumeTx := 0, state := state, stack := stack } }

/-- Take a thread from the table, with the command for it. -/
def resume (server : DapServer) (threadId : Nat) (command : Option Value → StepCommand) : StepCommand × DapServer :=
  (command ((server.pausedThreads.lookup threadId).map PausedState.state),
    { server with pausedThreads := server.pausedThreads.erase threadId })

/-- Give a thread a stepping mode. -/
def setStepping (server : DapServer) (threadId : Nat) (mode : SteppingMode) : DapServer :=
  { server with steppingThreads := server.steppingThreads.insert threadId mode }

/-- `handle_continue`, `handle_next`, `handle_step_in` and `handle_step_out` for a paused thread. -/
def answer (server : DapServer) (threadId : Nat) : StepAction → StepCommand × DapServer
  | .continue => { server with steppingThreads := server.steppingThreads.erase threadId }.resume threadId .continue
  | .stepOver => (server.setStepping threadId (.stepOver (server.currentDepth threadId))).resume threadId .stepOver
  | .stepIn => (server.setStepping threadId .stepInto).resume threadId .stepIn
  | .stepOut => (server.setStepping threadId (.stepOut (server.currentDepth threadId))).resume threadId .stepOut

/-- `before_step` of a thread that pauses: the command that resumes it, and the server then. -/
def pause (server : DapServer) (threadId : Nat) (state : Value) (stack : List String) (action : StepAction) :
    StepCommand × DapServer :=
  (server.paused threadId state stack).answer threadId action

/-- The thread pauses at a step. -/
def pauses (server : DapServer) (threadId : Nat) (location : SourceLocation) (stack : List String) : Bool :=
  server.atBreakpoint location || server.shouldPauseStep threadId stack.length

end DapServer

/-- The debug server, and how the client answers the pauses to come. -/
structure DapClient where
  server : DapServer
  answers : Nat → StepAction

/-- `DapDebuggerHook`. -/
def dapDebuggerHook {τ : Type} : DebuggerHook (τ × DapClient) where
  allocateThreadId := fun (x, dap) =>
    (dap.server.nextThreadId, x, { dap with server := { dap.server with nextThreadId := dap.server.nextThreadId + 1 } })
  beforeStep threadId _ location state stack := fun (x, dap) =>
    if dap.server.pauses threadId location stack then
      let (command, server) := dap.server.pause threadId state stack (dap.answers 0)
      (.ok (command.action.stepMode, command.state.getD state), x,
        { server := server, answers := fun n => dap.answers (n + 1) })
    else (.ok (none, state), x, dap)

/-! ## Pauses -/

/-- A pause returns the action it was answered with and the state it was entered with. -/
theorem DapServer.pause_fst (server : DapServer) (threadId : Nat) (state : Value) (stack : List String) (action : StepAction) :
    (server.pause threadId state stack action).1.action = action ∧
      (server.pause threadId state stack action).1.state = some state := by
  cases action <;>
    simp [pause, answer, resume, setStepping, paused, StepCommand.action, StepCommand.state, AList.lookup_insert]

/-- The hook leaves the state of the step, and of what lies outside the executor it changes the debug server only. -/
theorem beforeStep_transparent {τ : Type} (threadId : Nat) (name : String) (location : SourceLocation) (state : Value)
    (stack : List String) (ext : τ × DapClient) :
    ∃ mode dap, dapDebuggerHook.beforeStep threadId name location state stack ext = (.ok (mode, state), ext.1, dap) := by
  obtain ⟨x, dap⟩ := ext
  obtain ⟨-, hstate⟩ := dap.server.pause_fst threadId state stack (dap.answers 0)
  simp only [dapDebuggerHook]
  split_ifs with hpause
  · exact ⟨_, _, by rw [hstate, Option.getD_some]⟩
  · exact ⟨_, _, rfl⟩

/-- The moves of a session in which one thread enters `before_step` and pauses, and the client answers. -/
def pauseMoves (threadId : Nat) (location : SourceLocation) (state : Value) (stack : List String) (action : StepAction) : List Move :=
  .enter threadId location state stack :: List.replicate 8 (.advance 0 (.ok ())) ++ [.receive (action.message threadId)] ++
    List.replicate 4 (.serve (.ok ())) ++ [.advance 0 (.ok ())]

/-- The hook does with a thread that pauses what a session does with it. -/
theorem beforeStep_session {τ : Type} (sharding : Sharding) (server : DapServer) (x : τ) (answers : Nat → StepAction) (threadId : Nat)
    (name : String) (location : SourceLocation) (state : Value) (stack : List String)
    (hfree : server.pausedThreads.lookup threadId = none) (hpause : server.pauses threadId location stack = true) :
    let s := Runs.after (Session.step sharding) { server := server } (pauseMoves threadId location state stack (answers 0))
    s.calls.map HookCall.phase = [.done (.ok (answers 0, state))] ∧
      (dapDebuggerHook.beforeStep threadId name location state stack (x, ⟨server, answers⟩)).2.2.server = s.server := by
  have hlooks : (server.atBreakpoint location || server.shouldPauseStep threadId stack.length) = true := hpause
  simp only [dapDebuggerHook, hpause, if_true]
  -- the moves are evaluated one after another; an announced thread is awaiting two moves earlier
  cases answers 0 <;> by_cases hannounced : threadId ∈ server.announcedThreads <;>
    simp [pauseMoves, Runs.after, List.replicate, Session.step, Session.advance, Session.setPhase, Session.park, Session.closeEntry,
      Session.receive, Session.serve, Session.resume, Session.setChannel, StepAction.message, Message.ops, hlooks, hannounced, hfree,
      DapServer.pause, DapServer.paused, DapServer.answer, DapServer.resume, DapServer.setStepping, DapServer.currentDepth,
      StepCommand.action, StepCommand.state, AList.lookup_insert]

end WebPipe

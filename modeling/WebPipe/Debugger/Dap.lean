import Mathlib.Data.List.AList
import Mathlib.Data.Finset.Insert
import WebPipe.Ast
import WebPipe.Json

/-!
# The debug server

The tables of `DapServer` in `debugger/dap_server.rs`, and what `before_step` reads of them. What is written to the client is left out;
that a write may fail is not.
-/

namespace WebPipe

/-- Action to take after `before_step`. -/
inductive StepAction where
  | continue
  | stepOver
  | stepIn
  | stepOut
deriving DecidableEq, Repr

/-- What resumes a paused thread, with the state it goes on with. -/
inductive StepCommand where
  | continue (state : Option Value)
  | stepOver (state : Option Value)
  | stepIn (state : Option Value)
  | stepOut (state : Option Value)

/-- The action of a command. -/
def StepCommand.action : StepCommand → StepAction
  | .continue _ => .continue
  | .stepOver _ => .stepOver
  | .stepIn _ => .stepIn
  | .stepOut _ => .stepOut

/-- The state of a command. -/
def StepCommand.state : StepCommand → Option Value
  | .continue s | .stepOver s | .stepIn s | .stepOut s => s

/-- Stepping mode for a running thread. -/
inductive SteppingMode where
  | stepInto
  | stepOver (targetDepth : Nat)
  | stepOut (targetDepth : Nat)
deriving DecidableEq, Repr

/-- The mode asks for a pause at a depth of the stack. -/
def SteppingMode.pausesAt (stackDepth : Nat) : SteppingMode → Bool
  | .stepInto => true
  | .stepOver targetDepth => decide (stackDepth ≤ targetDepth)
  | .stepOut targetDepth => decide (stackDepth < targetDepth)

/-- State of a paused thread, as far as it is read to resume it. -/
structure PausedState where
  /-- The call of `before_step` that the channel resumes. -/
  resumeTx : Nat
  state : Value
  stack : List String

/-- `DapServer`: the tables. -/
structure DapServer where
  breakpoints : AList fun _ : String => List Nat := ∅
  pausedThreads : AList fun _ : Nat => PausedState := ∅
  steppingThreads : AList fun _ : Nat => SteppingMode := ∅
  announcedThreads : Finset Nat := ∅
  nextThreadId : Nat := 1
  filePath : String

namespace DapServer

/-- `has_breakpoint`. -/
def hasBreakpoint (server : DapServer) (filePath : String) (line : Nat) : Bool :=
  match server.breakpoints.lookup filePath with
  | some lines => lines.contains line
  | none => false

/-- The file a step is in. -/
def sourceFile (server : DapServer) (location : SourceLocation) : String := location.filePath.getD server.filePath

/-- There is a breakpoint at a step. -/
def atBreakpoint (server : DapServer) (location : SourceLocation) : Bool :=
  server.hasBreakpoint (server.sourceFile location) location.line

/-- The stepping mode of a thread asks for a pause. -/
def shouldPauseStep (server : DapServer) (threadId stackDepth : Nat) : Bool :=
  match server.steppingThreads.lookup threadId with
  | some mode => mode.pausesAt stackDepth
  | none => false

/-- Set the breakpoints of a file. -/
def setLines (server : DapServer) (filePath : String) (lines : List Nat) : DapServer :=
  { server with
    breakpoints := if lines.isEmpty then server.breakpoints.erase filePath else server.breakpoints.insert filePath lines }

/-- The depth of the stack of a paused thread, and one for a thread that is not paused. -/
def currentDepth (server : DapServer) (threadId : Nat) : Nat :=
  match server.pausedThreads.lookup threadId with
  | some paused => paused.stack.length
  | none => 1

end DapServer

end WebPipe

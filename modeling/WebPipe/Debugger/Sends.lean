import WebPipe.Debugger.Wire

/-!
# Concurrent sends

`send_response`, `send_error_response` and `send_event` of `debugger/dap_server.rs`: a message takes its number before it waits
for the lock of the client's writer, and its header and its body are written under the lock. Between these steps other requests
and the hooks of other threads send messages of their own. The client stays connected.
-/

namespace WebPipe
namespace Wire

/-- Where a message that is sent stands; each phase but the first knows the message's number. -/
inductive SendPhase where
  | ready
  | numbered (seq : Nat)
  | headed (seq : Nat)
  | bodied (seq : Nat)
  | sent (seq : Nat)
deriving DecidableEq, Repr

/-- The counter of numbers, who holds the writer's lock, what was written, and every message. -/
structure Sends where
  seq : Nat
  lock : Option Nat
  written : List UInt8
  phase : Nat → SendPhase

def Sends.setPhase (s : Sends) (i : Nat) (phase : SendPhase) : Sends :=
  { s with phase := fun j => if j = i then phase else s.phase j }

/-- What one message does next; `text` is its JSON under a number. A message waits while another holds the lock. -/
def sendStep (text : Nat → Nat → String) (s : Sends) (i : Nat) : Sends :=
  match s.phase i with
  | .ready => { s with seq := s.seq + 1 }.setPhase i (.numbered s.seq)
  | .numbered n =>
    match s.lock with
    | none =>
      { s with
        lock := some i
        written := s.written ++ Framing.utf8Bytes s!"Content-Length: {(text i n).utf8ByteSize}\r\n\r\n" }.setPhase i (.headed n)
    | some _ => s
  | .headed n => { s with written := s.written ++ Framing.utf8Bytes (text i n) }.setPhase i (.bodied n)
  | .bodied n => { s with lock := none }.setPhase i (.sent n)
  | .sent _ => s

end Wire
end WebPipe

import WebPipe.Error
import WebPipe.Slices
import WebPipe.Lib.Framing
import WebPipe.Lib.Segments

/-!
# Messages on the wire

`read_message` and `send_message` of `debugger/dap_server.rs`. The bytes of the client arrive in segments; the only failure of a read is
the end of the stream.
-/

namespace WebPipe
namespace Wire

/-- An error of the debugger. -/
def debuggerError (message : String) : WebPipeError := .plain .debuggerError message

/-- A byte as a character (`buf[0] as char`). -/
def byteChar (b : UInt8) : Char := Char.ofNat b.toNat

/-- The end of the headers. -/
def headersEnd : List Char := ['\r', '\n', '\r', '\n']

/-- The loop of `read_message` over the headers, with one unit of fuel for each byte. -/
def readHeaders : Nat → List Char → List (List UInt8) → Except WebPipeError (List Char × List (List UInt8))
  | 0, _, _ => .error (debuggerError "Failed to read: early eof")
  | n + 1, headers, reader =>
    match Segments.readExact 1 reader with
    | none => .error (debuggerError "Failed to read: early eof")
    | some (buf, reader) =>
      let headers := headers ++ buf.map byteChar
      if headersEnd.isSuffixOf headers then .ok (headers, reader) else readHeaders n headers reader

/-- The length that the headers give. -/
def contentLength (headers : List Char) : Option Nat := do
  let line ← (lines headers).find? fun line => "Content-Length:".toList.isPrefixOf line
  let value ← (line.splitOn ':')[1]?
  Text.parseUnsigned 64 (String.ofList (Text.trimChars value))

/-- `read_message`. Every turn of the loop over the headers takes a byte; what `from_utf8` adds to the text of its error is left out. -/
def readMessage (reader : List (List UInt8)) : Except WebPipeError (String × List (List UInt8)) := do
  let (headers, reader) ← readHeaders (reader.flatten.length + 1) [] reader
  match contentLength headers with
  | none => .error (debuggerError "Missing Content-Length header")
  | some contentLength =>
    match Segments.readExact contentLength reader with
    | none => .error (debuggerError "Failed to read body: early eof")
    | some (body, reader) =>
      match String.fromUTF8? body.toByteArray with
      | none => .error (debuggerError "Invalid UTF-8")
      | some message => .ok (message, reader)

/-- `send_message`: what was written to the client, and the message after it. Without a client there is an error. -/
def sendMessage (client : Option (List UInt8)) (msg : String) : Except WebPipeError (List UInt8) :=
  match client with
  | none => .error (debuggerError "No client connected")
  | some written =>
    let header := s!"Content-Length: {msg.utf8ByteSize}\r\n\r\n"
    .ok (written ++ Framing.utf8Bytes header ++ Framing.utf8Bytes msg)

/-- Messages sent one after another. -/
def sendMessages (written : List UInt8) (msgs : List String) : Except WebPipeError (List UInt8) :=
  msgs.foldlM (fun written msg => sendMessage (some written) msg) written

/-- A number of messages read one after another. -/
def readMessages : Nat → List (List UInt8) → Except WebPipeError (List String × List (List UInt8))
  | 0, reader => .ok ([], reader)
  | n + 1, reader => do
    let (msg, reader) ← readMessage reader
    let (msgs, reader) ← readMessages n reader
    pure (msg :: msgs, reader)

end Wire
end WebPipe

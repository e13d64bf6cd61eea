import ScriptEngine.Native.Control

/-!
# Natives of byte streams

A stream receives chunks of bytes and sends bytes until it is closed. It is read either by `read`, or
once by `listen`, which emits every chunk that arrives and then the end.
-/

namespace ScriptEngine.Native

/-- Receives at most `limit` bytes of the next chunk; the rest of the chunk stays. -/
def receive (limit : Int) : Eval (List Nat) := do
  let s := (← get).stream
  if s.closed then Eval.crash .os "socket closed"
  else match s.incoming with
    | [] => return []
    | chunk :: others =>
      let n := limit.toNat
      let left := if n < chunk.length then chunk.drop n :: others else others
      modify fun m => { m with stream := { s with incoming := left } }
      return chunk.take n

/-- Reads the next bytes. -/
def readStream (span : Option Span) (size : Option Value) : Eval Value := do
  let limit ← match size with
    | some v => streamRead.whole 1 span v
    | none => pure 4096
  bufferValue (← receive limit)

/-- Sends a text or a buffer and tells how many bytes were sent. -/
def writeStream (span : Option Span) (v : Value) : Eval Value := do
  let bytes ← match v.payload with
    | .string t => encodedText t
    | _ => streamWrite.bytes 1 span v
  let s := (← get).stream
  if s.closed then Eval.crash .os "socket closed"
  else
    modify fun m => { m with stream := { s with sent := bytes :: s.sent } }
    return .number bytes.length

/-- Closes the stream. -/
def closeStream : Eval Value := do
  modify fun m => { m with stream := { m.stream with closed := true } }
  return .null

/-- Emits chunks until the stream ends, at most `rounds` of them, and then the end. -/
def pump (I : Interp) (emitter : Nat) : Nat → Eval Unit
  | 0 => return ()
  | rounds + 1 => do
    match ← Eval.attempt (receive 4096) with
    | .ok (b :: bytes) =>
      let _ ← emit I emitter "receive" [← bufferValue (b :: bytes)]
      pump I emitter rounds
    | _ =>
      let _ ← emit I emitter "close" []
      return ()

/-- The number of rounds that reading a stream to its end takes at most. -/
def pumpRounds (s : Stream) : Nat := s.incoming.foldr (fun chunk rounds => chunk.length + 1 + rounds) 1

/-- Reads the whole stream as a thread that emits what it receives. -/
def listenStream (I : Interp) (span : Option Span) : Eval Value := do
  let s := (← get).stream
  if s.listening then
    streamListen.reject span .value ": stream is already being read in the background"
  else
    modify fun m => { m with stream := { s with listening := true } }
    asThread fun _ => pump I s.emitter (pumpRounds s)
    return .null

/-- Opens a connection. No host can be reached. -/
def connect (span : Option Span) (host port : Value) : Eval Value := do
  let _ ← createStream.text 1 span host
  let _ ← createStream.whole 2 span port
  createStream.reject span .native ": [Errno 111] Connection refused"

end ScriptEngine.Native

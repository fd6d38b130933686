/-
`WebSocketSession`: the handshake, the read loop and the write queue as one
machine.  Its steps are the calls of `send` and the completions of the
operations it has outstanding on its stream; a handler runs to its end before
the next one starts.
-/
import VoiceServer.ReceivePath

namespace VoiceServer

/-- The bytes of a string literal of the source. -/
def ascii (text : String) : List UInt8 :=
  text.toList.map fun c => UInt8.ofNat c.toNat

/-- `std::string::find`. -/
def find (text pattern : List UInt8) (pos : Nat) : Option Nat :=
  ((text.drop pos).tails.findIdx? pattern.isPrefixOf).map (pos + ·)

def extractWebsocketKey (request : List UInt8) : List UInt8 :=
  let keyHeader := ascii "Sec-WebSocket-Key: "
  match find request keyHeader 0 with
  | none => []
  | some keyPos =>
      match find request (ascii "\r\n") keyPos with
      | none => []
      | some keyEnd =>
          (request.drop (keyPos + keyHeader.length)).take
            (keyEnd - (keyPos + keyHeader.length))

example : extractWebsocketKey
    (ascii "GET / HTTP/1.1\r\nSec-WebSocket-Key: dGhl\r\n\r\n") =
    ascii "dGhl" := by
  decide

def handshakeResponse (accept : List UInt8) : List UInt8 :=
  ascii "HTTP/1.1 101 Switching Protocols\r\n" ++
    ascii "Upgrade: websocket\r\n" ++
    ascii "Connection: Upgrade\r\n" ++
    ascii "Sec-WebSocket-Accept: " ++ accept ++ ascii "\r\n" ++
    ascii "\r\n"

/-- What can be outstanding on the reading side of the stream. -/
inductive ReadOp where
  | sslHandshake
  | request
  | frames
deriving DecidableEq, Repr

/-- A buffer handed to `async_write`. -/
inductive StreamWrite where
  | response (bytes : List UInt8)
  | frame (bytes : List UInt8)
deriving DecidableEq, Repr

def StreamWrite.bytes : StreamWrite → List UInt8
  | .response bytes => bytes
  | .frame bytes => bytes

/-- The branches that write a line to `std::cerr` and start nothing. -/
inductive SessionError where
  | sslHandshake
  | handshakeRead
  | invalidRequest
  | handshakeWrite
  | read
  | write
deriving DecidableEq, Repr

/-- The writes outstanding are kept apart by the handler they will call.  The
buffers written and the errors logged so far are observations. -/
structure WebSocketSession where
  uuid : String
  useSsl : Bool
  reading : List ReadOp
  responding : List (List UInt8)
  writing : List (List UInt8)
  writeQueue : List (List UInt8)
  written : List StreamWrite
  errors : List SessionError
deriving DecidableEq, Repr

/-- A completion, with what asio hands to its handler.  A write completes after
its whole buffer or with an error. -/
inductive Completion where
  | sslHandshake (ok : Bool)
  | request (bytes : Option (List UInt8))
  | frames (bytes : Option (List UInt8))
  | response (bytes : List UInt8) (ok : Bool)
  | frame (bytes : List UInt8) (ok : Bool)
deriving DecidableEq, Repr

/-- The completions whose handler only logs. -/
def Completion.failed : Completion → Bool
  | .sslHandshake ok => !ok
  | .request none => true
  | .request (some bytes) => (extractWebsocketKey bytes).isEmpty
  | .frames bytes => bytes.isNone
  | .response _ ok => !ok
  | .frame _ ok => !ok

inductive SessionEvent where
  | send (message : List UInt8) (opcode : WebSocketOpCode)
  | complete (completion : Completion)
deriving DecidableEq, Repr

namespace WebSocketSession

def log (session : WebSocketSession) (error : SessionError) :
    WebSocketSession :=
  { session with errors := session.errors ++ [error] }

def doSslHandshake (session : WebSocketSession) : WebSocketSession :=
  { session with reading := session.reading ++ [.sslHandshake] }

def doHandshake (session : WebSocketSession) : WebSocketSession :=
  { session with reading := session.reading ++ [.request] }

def doRead (session : WebSocketSession) : WebSocketSession :=
  { session with reading := session.reading ++ [.frames] }

def doWrite (session : WebSocketSession) : WebSocketSession :=
  match session.writeQueue with
  | [] => session
  | frame :: _ => { session with writing := session.writing ++ [frame] }

/-- The constructors. -/
def new (uuid : String) (useSsl : Bool) : WebSocketSession where
  uuid := uuid
  useSsl := useSsl
  reading := []
  responding := []
  writing := []
  writeQueue := []
  written := []
  errors := []

def start (session : WebSocketSession) : WebSocketSession :=
  if session.useSsl then session.doSslHandshake else session.doHandshake

def send (session : WebSocketSession) (message : List UInt8)
    (opcode : WebSocketOpCode) : WebSocketSession :=
  let frame := createWebsocketFrame message opcode
  let writeInProgress := !session.writeQueue.isEmpty
  let queued := { session with writeQueue := session.writeQueue ++ [frame] }
  if writeInProgress then queued else queued.doWrite

section Handlers

-- `generate_websocket_accept`: the SHA-1 of the key and a fixed text, in
-- base 64.  Which steps are taken does not depend on it.
variable (generateWebsocketAccept : List UInt8 → List UInt8)

def onSslHandshake (session : WebSocketSession) (ok : Bool) :
    WebSocketSession :=
  if ok then session.doHandshake else session.log .sslHandshake

def onRequest (session : WebSocketSession) :
    Option (List UInt8) → WebSocketSession
  | none => session.log .handshakeRead
  | some request =>
      let key := extractWebsocketKey request
      if key.isEmpty then session.log .invalidRequest
      else { session with
        responding := session.responding ++
          [handshakeResponse (generateWebsocketAccept key)] }

def onResponse (session : WebSocketSession) (bytes : List UInt8) (ok : Bool) :
    WebSocketSession :=
  if ok then
    let session :=
      { session with
        written := session.written ++ [StreamWrite.response bytes] }
    session.doRead
  else session.log .handshakeWrite

def onFrame (session : WebSocketSession) (bytes : List UInt8) (ok : Bool) :
    WebSocketSession :=
  if ok then
    let popped := { session with
      written := session.written ++ [StreamWrite.frame bytes]
      writeQueue := session.writeQueue.tail }
    if popped.writeQueue.isEmpty then popped else popped.doWrite
  else session.log .write

/-- The handler of `async_read_some`; no value where `handle_frame` leaves the
buffer. -/
def onFrames (session : WebSocketSession) :
    Option (List UInt8) → Option (WebSocketSession × List Message)
  | none => some (session.log .read, [])
  | some bytes => (readCalls bytes).map fun calls => (session.doRead, calls)

/-- Only an operation that is outstanding completes; the calls of `on_message_`
are the outputs. -/
def complete (session : WebSocketSession) :
    Completion → Option (WebSocketSession × List Message)
  | .sslHandshake ok =>
      if .sslHandshake ∈ session.reading then
        let session :=
          { session with reading := session.reading.erase .sslHandshake }
        some (session.onSslHandshake ok, [])
      else none
  | .request bytes =>
      if .request ∈ session.reading then
        let session :=
          { session with reading := session.reading.erase .request }
        some (session.onRequest generateWebsocketAccept bytes, [])
      else none
  | .frames bytes =>
      if .frames ∈ session.reading ∧
          ∀ read ∈ bytes, read ≠ [] ∧ read.length ≤ readBufferSize then
        let session :=
          { session with reading := session.reading.erase .frames }
        session.onFrames bytes
      else none
  | .response bytes ok =>
      if bytes ∈ session.responding then
        let session :=
          { session with responding := session.responding.erase bytes }
        some (session.onResponse bytes ok, [])
      else none
  | .frame bytes ok =>
      if bytes ∈ session.writing then
        let session :=
          { session with writing := session.writing.erase bytes }
        some (session.onFrame bytes ok, [])
      else none

def step (session : WebSocketSession) :
    SessionEvent → Option (WebSocketSession × List Message)
  | .send message opcode => some (session.send message opcode, [])
  | .complete completion => session.complete generateWebsocketAccept completion

end Handlers

/-- The step from a session, seen from its fields: one constructor for each
branch of a handler that starts something, and one for each list of outstanding
operations that a failure can shorten. -/
inductive Stepped (session : WebSocketSession) :
    SessionEvent → WebSocketSession → Prop
  | started (message : List UInt8) (opcode : WebSocketOpCode)
      (hidle : session.writeQueue = []) :
      Stepped session (.send message opcode) { session with
        writeQueue := [createWebsocketFrame message opcode]
        writing := session.writing ++ [createWebsocketFrame message opcode] }
  | queued (message : List UInt8) (opcode : WebSocketOpCode)
      (hbusy : session.writeQueue ≠ []) :
      Stepped session (.send message opcode) { session with
        writeQueue :=
          session.writeQueue ++ [createWebsocketFrame message opcode] }
  | secured (hop : .sslHandshake ∈ session.reading) :
      Stepped session (.complete (.sslHandshake true)) { session with
        reading := session.reading.erase .sslHandshake ++ [.request] }
  | answered (request response : List UInt8)
      (hop : .request ∈ session.reading)
      (hkey : extractWebsocketKey request ≠ []) :
      Stepped session (.complete (.request (some request))) { session with
        reading := session.reading.erase .request
        responding := session.responding ++ [response] }
  | upgraded (bytes : List UInt8) (hop : bytes ∈ session.responding) :
      Stepped session (.complete (.response bytes true)) { session with
        responding := session.responding.erase bytes
        written := session.written ++ [.response bytes]
        reading := session.reading ++ [.frames] }
  | received (bytes : List UInt8) (hop : .frames ∈ session.reading) :
      Stepped session (.complete (.frames (some bytes))) { session with
        reading := session.reading.erase .frames ++ [.frames] }
  | drained (bytes : List UInt8) (hop : bytes ∈ session.writing)
      (hlast : session.writeQueue.tail = []) :
      Stepped session (.complete (.frame bytes true)) { session with
        writing := session.writing.erase bytes
        written := session.written ++ [.frame bytes]
        writeQueue := [] }
  | continued (bytes front : List UInt8) (rest : List (List UInt8))
      (hop : bytes ∈ session.writing)
      (hmore : session.writeQueue.tail = front :: rest) :
      Stepped session (.complete (.frame bytes true)) { session with
        writing := session.writing.erase bytes ++ [front]
        written := session.written ++ [.frame bytes]
        writeQueue := front :: rest }
  | readFailed (op : ReadOp) (completion : Completion) (error : SessionError)
      (hop : op ∈ session.reading) (hfailed : completion.failed = true)
      (hread : ∀ bytes ok, completion ≠ .frame bytes ok) :
      Stepped session (.complete completion) { session with
        reading := session.reading.erase op
        errors := session.errors ++ [error] }
  | responseFailed (bytes : List UInt8) (hop : bytes ∈ session.responding) :
      Stepped session (.complete (.response bytes false)) { session with
        responding := session.responding.erase bytes
        errors := session.errors ++ [.handshakeWrite] }
  | frameFailed (bytes : List UInt8) (hop : bytes ∈ session.writing) :
      Stepped session (.complete (.frame bytes false)) { session with
        writing := session.writing.erase bytes
        errors := session.errors ++ [.write] }

theorem stepped_send (session : WebSocketSession) (message : List UInt8)
    (opcode : WebSocketOpCode) :
    Stepped session (.send message opcode) (session.send message opcode) := by
  unfold send
  cases hqueue : session.writeQueue with
  | nil =>
      have hstarted := Stepped.started message opcode hqueue
      simpa [doWrite] using hstarted
  | cons front rest =>
      have hqueued := @Stepped.queued session message opcode (by simp [hqueue])
      simpa [hqueue] using hqueued

/-- What `send` leaves alone, and that it starts a write on an idle queue. -/
theorem send_frame (session : WebSocketSession) (message : List UInt8)
    (opcode : WebSocketOpCode) :
    (session.send message opcode).written = session.written ∧
      (session.send message opcode).errors = session.errors ∧
      (session.writing ≠ [] →
        (session.send message opcode).writing ≠ []) ∧
      (session.writeQueue = [] →
        (session.send message opcode).writing ≠ []) := by
  have hstepped := stepped_send session message opcode
  generalize session.send message opcode = next at hstepped
  cases hstepped with
  | started _ _ hidle => simp
  | queued _ _ hbusy => exact ⟨rfl, rfl, id, fun hidle => absurd hidle hbusy⟩

section Inversion

variable {generateWebsocketAccept : List UInt8 → List UInt8}
  {session next : WebSocketSession} {calls : List Message}

theorem stepped_frame {bytes : List UInt8} {ok : Bool}
    (hop : bytes ∈ session.writing) :
    Stepped session (.complete (.frame bytes ok))
      ({ session with writing := session.writing.erase bytes }.onFrame
        bytes ok) := by
  cases ok with
  | false => exact .frameFailed bytes hop
  | true =>
      cases hqueue : session.writeQueue.tail with
      | nil =>
          have hdrained := Stepped.drained bytes hop hqueue
          simpa [onFrame, hqueue] using hdrained
      | cons front rest =>
          have hcontinued := Stepped.continued bytes front rest hop hqueue
          simpa [onFrame, doWrite, hqueue] using hcontinued

/-- Every step is one of the constructors. -/
theorem stepped_of_step {event : SessionEvent}
    (hstep : session.step generateWebsocketAccept event =
      some (next, calls)) :
    Stepped session event next := by
  cases event with
  | send message opcode =>
      obtain ⟨rfl, -⟩ : session.send message opcode = next ∧ [] = calls := by
        simpa [step] using hstep
      exact stepped_send session message opcode
  | complete completion =>
      simp only [step] at hstep
      cases completion with
      | sslHandshake ok =>
          simp only [complete, Option.ite_none_right_eq_some, Option.some.injEq,
            Prod.mk.injEq] at hstep
          obtain ⟨hop, rfl, -⟩ := hstep
          cases ok with
          | false => exact .readFailed _ _ .sslHandshake hop rfl (by simp)
          | true => exact .secured hop
      | request bytes =>
          simp only [complete, Option.ite_none_right_eq_some, Option.some.injEq,
            Prod.mk.injEq] at hstep
          obtain ⟨hop, rfl, -⟩ := hstep
          cases bytes with
          | none => exact .readFailed _ _ .handshakeRead hop rfl (by simp)
          | some request =>
              simp only [onRequest]
              split
              · next hkey =>
                exact .readFailed _ _ .invalidRequest hop hkey (by simp)
              · next hkey =>
                exact .answered request _ hop (by simpa using hkey)
      | frames bytes =>
          simp only [complete, Option.ite_none_right_eq_some] at hstep
          obtain ⟨⟨hop, -⟩, hstep⟩ := hstep
          cases bytes with
          | none =>
              simp only [onFrames, Option.some.injEq, Prod.mk.injEq] at hstep
              obtain ⟨rfl, -⟩ := hstep
              exact .readFailed _ _ .read hop rfl (by simp)
          | some bytes =>
              simp only [onFrames, Option.map_eq_some_iff, Prod.mk.injEq]
                at hstep
              obtain ⟨-, -, rfl, -⟩ := hstep
              exact .received bytes hop
      | response bytes ok =>
          simp only [complete, Option.ite_none_right_eq_some, Option.some.injEq,
            Prod.mk.injEq] at hstep
          obtain ⟨hop, rfl, -⟩ := hstep
          cases ok with
          | false => exact .responseFailed bytes hop
          | true => exact .upgraded bytes hop
      | frame bytes ok =>
          simp only [complete, Option.ite_none_right_eq_some, Option.some.injEq,
            Prod.mk.injEq] at hstep
          obtain ⟨hop, rfl, -⟩ := hstep
          exact stepped_frame hop

end Inversion

end WebSocketSession

end VoiceServer

/-
The voice server: one thread runs the handlers of the WebSocket acceptor, of
its sessions, of the UDP socket and of the mixing timer, which share the room.
-/
import VoiceServer.RoomDelivery
import VoiceServer.WriteQueue

namespace VoiceServer

/-- An IPv4 `udp::endpoint`. -/
structure Endpoint where
  a : UInt8
  b : UInt8
  c : UInt8
  d : UInt8
  port : UInt16
deriving DecidableEq, Repr

/-- The address in dotted decimal, a colon and the port. -/
def Endpoint.clientKey (endpoint : Endpoint) : String :=
  endpoint.a.toNat.repr ++ "." ++ endpoint.b.toNat.repr ++ "." ++
    endpoint.c.toNat.repr ++ "." ++ endpoint.d.toNat.repr ++ ":" ++
    endpoint.port.toNat.repr

/-- A `WebSocketClient`, known by the position of its session in `sessions_`,
or a `UDPClient`. -/
inductive Client where
  | webSocket (session : Nat)
  | udp (endpoint : Endpoint)
deriving DecidableEq, Repr

/-- `recv_buffer_`. -/
def recvBufferSize : Nat := 16384

/-- `mixing` says that the mixing timer has been started. -/
structure VoiceChatServer where
  room : RoomManager String Client
  mixing : Bool
  useSsl : Bool
  sessions : List WebSocketSession

/-- A packet handed to `Connection::send`.  `async_send_to` gets the memory of a
packet that is local to the caller; that its bytes outlive the call is assumed. -/
structure Datagram where
  endpoint : Endpoint
  packet : AudioPacket
deriving DecidableEq, Repr

/-- The completions the server waits for.  `generateUuid` has drawn the uuid of
an accepted connection. -/
inductive ServerEvent where
  | accepted (uuid : String)
  | acceptFailed
  | completed (session : Nat) (now : Int) (completion : Completion)
  | received (now : Int) (endpoint : Endpoint) (bytes : List UInt8)
  | receiveFailed
  | mixed (now : Int) (walk : Walk String)
deriving DecidableEq, Repr

namespace VoiceChatServer

def new (useSsl : Bool) : VoiceChatServer :=
  ⟨RoomManager.new, false, useSsl, []⟩

def addClient (server : VoiceChatServer) (id : String) (client : Client) :
    VoiceChatServer :=
  let (room, starts) := server.room.addClient id client
  { server with room := room, mixing := server.mixing || starts }

def addWebsocketUser (server : VoiceChatServer) (uuid : String)
    (session : Nat) : VoiceChatServer :=
  server.addClient uuid (.webSocket session)

/-- The handler of `do_accept`: the room knows the session before it starts. -/
def doAccept (server : VoiceChatServer) (uuid : String) : VoiceChatServer :=
  let session := WebSocketSession.new uuid server.useSsl
  let server := server.addWebsocketUser session.uuid server.sessions.length
  { server with sessions := server.sessions ++ [session.start] }

def handleReceiveWebsocket (now : Int) (clientKey : String)
    (room : RoomManager String Client) (bytes : List UInt8) :
    RoomManager String Client :=
  room.processAudio now clientKey ⟨bytes⟩

/-- The message handler of `main`. -/
def onMessage (now : Int) (uuid : String) (room : RoomManager String Client)
    (message : Message) : RoomManager String Client :=
  if message.1 = .binary then handleReceiveWebsocket now uuid room message.2
  else room

def handleReceive (server : VoiceChatServer) (now : Int) (endpoint : Endpoint)
    (bytes : List UInt8) : VoiceChatServer :=
  let clientKey := endpoint.clientKey
  let known :=
    match server.room.getClient clientKey with
    | none => server.addClient clientKey (.udp endpoint)
    | some _ => server
  { known with room := known.room.processAudio now clientKey ⟨bytes⟩ }

/-- `Client::send`, for the sessions. -/
def sendToSession (sessions : List WebSocketSession)
    (delivery : Delivery String Client) : List WebSocketSession :=
  match delivery.client with
  | .webSocket session =>
      sessions.modify session
        (·.send delivery.mixedPacket.data WebSocketOpCode.binary)
  | .udp _ => sessions

/-- `Client::send`, for the UDP socket. -/
def datagramOf (delivery : Delivery String Client) : Option Datagram :=
  match delivery.client with
  | .webSocket _ => none
  | .udp endpoint => some ⟨endpoint, delivery.mixedPacket⟩

section Step

variable (generateWebsocketAccept : List UInt8 → List UInt8)

/-- One handler; the outputs are the datagrams sent. -/
def step (server : VoiceChatServer) :
    ServerEvent → Option (VoiceChatServer × List Datagram)
  | .accepted uuid => some (server.doAccept uuid, [])
  | .acceptFailed => some (server, [])
  | .completed index now completion =>
      match server.sessions[index]? with
      | none => none
      | some session =>
          (session.complete generateWebsocketAccept completion).map fun done =>
            ({ server with
              room := done.2.foldl (onMessage now session.uuid) server.room
              sessions := server.sessions.set index done.1 }, [])
  | .received now endpoint bytes =>
      let stored := bytes.take recvBufferSize
      if 0 < stored.length then
        some (server.handleReceive now endpoint stored, [])
      else some (server, [])
  | .receiveFailed => some (server, [])
  | .mixed now walk =>
      if server.mixing then
        (server.room.step (.tick now walk)).map fun ticked =>
          ({ server with
            room := ticked.1
            sessions := ticked.2.foldl sendToSession server.sessions },
            ticked.2.filterMap datagramOf)
      else none

end Step

/-- Some history of room calls led to the room as it is. -/
def RoomTracked (server : VoiceChatServer) : Prop :=
  ∃ history, RoomManager.Tracks server.room history

theorem roomTracked_new (useSsl : Bool) : (new useSsl).RoomTracked :=
  ⟨[], RoomManager.tracks_new⟩

section Handlers

variable {server : VoiceChatServer}

theorem tracks_onMessage (now : Int) (uuid : String) (calls : List Message)
    {room : RoomManager String Client}
    {history : RoomManager.History String Client}
    (htracks : RoomManager.Tracks room history) :
    ∃ later, RoomManager.Tracks (calls.foldl (onMessage now uuid) room)
      later := by
  induction calls generalizing room history with
  | nil => exact ⟨history, htracks⟩
  | cons message rest ih =>
      rw [List.foldl_cons, onMessage]
      by_cases hbinary : message.1 = .binary
      · rw [if_pos hbinary]
        exact ih (htracks.processAudio now uuid ⟨message.2⟩)
      · rw [if_neg hbinary]
        exact ih htracks

theorem clients_onMessage (now : Int) (uuid : String) (calls : List Message)
    (room : RoomManager String Client) :
    (calls.foldl (onMessage now uuid) room).clients = room.clients := by
  induction calls generalizing room with
  | nil => rfl
  | cons message rest ih =>
      rw [List.foldl_cons, ih, onMessage]
      by_cases hbinary : message.1 = .binary
      · rw [if_pos hbinary]
        rfl
      · rw [if_neg hbinary]

theorem sessions_handleReceive (now : Int) (endpoint : Endpoint)
    (bytes : List UInt8) :
    (server.handleReceive now endpoint bytes).sessions = server.sessions := by
  cases hclient : server.room.getClient endpoint.clientKey <;>
    simp only [handleReceive, hclient, addClient]

theorem roomTracked_handleReceive (htracked : server.RoomTracked) (now : Int)
    (endpoint : Endpoint) (bytes : List UInt8) :
    (server.handleReceive now endpoint bytes).RoomTracked := by
  obtain ⟨history, htracks⟩ := htracked
  cases hclient : server.room.getClient endpoint.clientKey with
  | none =>
      simp only [handleReceive, hclient]
      exact ⟨_, (htracks.addClient _ (.udp endpoint)).processAudio now _ _⟩
  | some client =>
      simp only [handleReceive, hclient]
      exact ⟨_, htracks.processAudio now _ _⟩

theorem getElem?_sendToSession (sessions : List WebSocketSession)
    (delivery : Delivery String Client) (index : Nat) :
    (sendToSession sessions delivery)[index]? =
      if delivery.client = .webSocket index then
        sessions[index]?.map
          (·.send delivery.mixedPacket.data WebSocketOpCode.binary)
      else sessions[index]? := by
  unfold sendToSession
  cases hclient : delivery.client with
  | webSocket session =>
      simp only [List.getElem?_modify, Client.webSocket.injEq]
      by_cases hindex : session = index
      · simp [hindex]
      · simp [hindex]
  | udp endpoint => simp

end Handlers

variable {generateWebsocketAccept : List UInt8 → List UInt8}
  {server next : VoiceChatServer} {out : List Datagram}

/-- What one handler does to the server; a failed accept and a failed or empty
receive are only logged. -/
inductive Stepped (server : VoiceChatServer) :
    ServerEvent → VoiceChatServer → Prop
  | accepted (uuid : String) :
      Stepped server (.accepted uuid) (server.doAccept uuid)
  | acceptFailed : Stepped server .acceptFailed server
  | completed (index : Nat) (now : Int) (completion : Completion)
      (session after : WebSocketSession) (calls : List Message)
      (hsession : server.sessions[index]? = some session)
      (hstepped : session.Stepped (.complete completion) after) :
      Stepped server (.completed index now completion) { server with
        room := calls.foldl (onMessage now session.uuid) server.room
        sessions := server.sessions.set index after }
  | received (now : Int) (endpoint : Endpoint) (bytes : List UInt8)
      (hne : bytes ≠ []) :
      Stepped server (.received now endpoint bytes)
        (server.handleReceive now endpoint (bytes.take recvBufferSize))
  | receivedEmpty (now : Int) (endpoint : Endpoint) :
      Stepped server (.received now endpoint []) server
  | receiveFailed : Stepped server .receiveFailed server
  | mixed (now : Int) (walk : Walk String) (room : RoomManager String Client)
      (deliveries : List (Delivery String Client))
      (htick : server.room.step (.tick now walk) = some (room, deliveries)) :
      Stepped server (.mixed now walk) { server with
        room := room
        sessions := deliveries.foldl sendToSession server.sessions }

/-- Every step is one of the constructors. -/
theorem stepped_of_step {event : ServerEvent}
    (hstep : server.step generateWebsocketAccept event = some (next, out)) :
    Stepped server event next := by
  cases event with
  | accepted uuid =>
      obtain ⟨rfl, -⟩ : server.doAccept uuid = next ∧ _ := by
        simpa [step] using hstep
      exact .accepted uuid
  | acceptFailed =>
      obtain ⟨rfl, -⟩ : server = next ∧ _ := by simpa [step] using hstep
      exact .acceptFailed
  | completed index now completion =>
      simp only [step] at hstep
      cases hsession : server.sessions[index]? with
      | none => simp [hsession] at hstep
      | some session =>
          simp only [hsession, Option.map_eq_some_iff, Prod.exists,
            Prod.mk.injEq] at hstep
          obtain ⟨after, calls, hcomplete, rfl, -⟩ := hstep
          exact .completed index now completion session after calls hsession
            (WebSocketSession.stepped_of_step hcomplete)
  | received now endpoint bytes =>
      simp only [step] at hstep
      by_cases hbytes : 0 < (bytes.take recvBufferSize).length
      · rw [if_pos hbytes, Option.some.injEq, Prod.mk.injEq] at hstep
        obtain ⟨rfl, -⟩ := hstep
        refine .received now endpoint bytes ?_
        rintro rfl
        simp at hbytes
      · rw [if_neg hbytes, Option.some.injEq, Prod.mk.injEq] at hstep
        obtain ⟨rfl, -⟩ := hstep
        obtain rfl : bytes = [] := by simpa [recvBufferSize] using hbytes
        exact .receivedEmpty now endpoint
  | receiveFailed =>
      obtain ⟨rfl, -⟩ : server = next ∧ _ := by simpa [step] using hstep
      exact .receiveFailed
  | mixed now walk =>
      simp only [step, Option.ite_none_right_eq_some, Option.map_eq_some_iff,
        Prod.exists, Prod.mk.injEq] at hstep
      obtain ⟨-, room, deliveries, htick, rfl, -⟩ := hstep
      exact .mixed now walk room deliveries htick

/-- The maps of the server's room stay those of some history. -/
theorem RoomTracked.step (htracked : server.RoomTracked) {event : ServerEvent}
    (hstepped : Stepped server event next) : next.RoomTracked := by
  obtain ⟨history, htracks⟩ := htracked
  cases hstepped with
  | accepted uuid =>
      exact ⟨_, htracks.addClient uuid (.webSocket server.sessions.length)⟩
  | completed index now completion session after calls hsession hcomplete =>
      exact tracks_onMessage now session.uuid calls htracks
  | received now endpoint bytes hne =>
      exact roomTracked_handleReceive ⟨history, htracks⟩ now endpoint _
  | mixed now walk room deliveries htick => exact ⟨_, htracks.step htick⟩
  | _ => exact ⟨history, htracks⟩

end VoiceChatServer

end VoiceServer

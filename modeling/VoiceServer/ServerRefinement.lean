/-
The server as its parts.  A run of the server is a run of a room on its own and,
for each session, a run of that session on its own: the datagrams and the sends
are the deliveries of the room.
-/
import VoiceServer.Projection
import VoiceServer.VoiceChatServer

namespace VoiceServer

def SessionEvent.sent : SessionEvent → Option Message
  | .send message opcode => some (opcode, message)
  | .complete _ => none

def SessionEvent.completion : SessionEvent → Option Completion
  | .send _ _ => none
  | .complete completion => some completion

namespace WebSocketSession

/-- The frame in a buffer written. -/
def frameIn : StreamWrite → Option (List UInt8)
  | .response _ => none
  | .frame bytes => some bytes

/-- The frames written, and those queued, are those of the messages sent; a
write in flight is that of the front of the queue. -/
structure FramesKept (messages : List Message) (session : WebSocketSession) :
    Prop where
  frames : session.written.filterMap frameIn ++ session.writeQueue =
    messages.map frameOf
  inFlight : session.writing = [] ∨
    session.writing = session.writeQueue.take 1

theorem framesKept_new (uuid : String) (useSsl : Bool) :
    FramesKept [] (new uuid useSsl).start := by
  cases useSsl <;> exact ⟨rfl, Or.inl rfl⟩

section Step

variable {session next : WebSocketSession} {messages : List Message}

theorem FramesKept.front (hkept : FramesKept messages session)
    {bytes : List UInt8} (hop : bytes ∈ session.writing) :
    session.writing = [bytes] ∧
      session.writeQueue = bytes :: session.writeQueue.tail := by
  rcases hkept.inFlight with hnone | hfront
  · rw [hnone] at hop
    simp at hop
  · cases hqueue : session.writeQueue with
    | nil =>
        rw [hfront, hqueue] at hop
        simp at hop
    | cons front rest =>
        rw [hfront, hqueue, List.take_succ_cons, List.take_zero,
          List.mem_singleton] at hop
        rw [hfront, hqueue, hop]
        exact ⟨rfl, rfl⟩

/-- Writing the front of the queue moves it behind the frames written. -/
theorem FramesKept.pop (hkept : FramesKept messages session)
    {bytes : List UInt8} (hop : bytes ∈ session.writing) :
    (session.written ++ [StreamWrite.frame bytes]).filterMap frameIn ++
      session.writeQueue.tail = messages.map frameOf := by
  have hframes := hkept.frames
  rw [(hkept.front hop).2] at hframes
  rw [List.filterMap_append, List.append_assoc]
  exact hframes

theorem FramesKept.step (hkept : FramesKept messages session)
    {event : SessionEvent} (hstepped : Stepped session event next) :
    FramesKept (messages ++ event.sent.toList) next := by
  have hpush : ∀ message opcode, session.written.filterMap frameIn ++
      (session.writeQueue ++ [createWebsocketFrame message opcode]) =
      (messages ++ [(opcode, message)]).map frameOf := by
    intro message opcode
    rw [← List.append_assoc, hkept.frames, List.map_append]
    rfl
  have hsame : messages ++ none.toList = messages := List.append_nil messages
  cases hstepped with
  | started message opcode hidle =>
      have hframes := hpush message opcode
      have hwriting : session.writing = [] := by
        rcases hkept.inFlight with hnone | hfront
        · exact hnone
        · rw [hfront, hidle]
          rfl
      rw [hidle] at hframes
      refine ⟨hframes, Or.inr ?_⟩
      simp [hwriting]
  | queued message opcode hbusy =>
      refine ⟨hpush message opcode, hkept.inFlight.imp id fun hfront => ?_⟩
      change session.writing = _
      rw [hfront, List.take_append_of_le_length (List.length_pos_iff.2 hbusy)]
  | drained bytes hop hlast =>
      have hpop := hkept.pop hop
      have hwriting := (hkept.front hop).1
      rw [hlast] at hpop
      refine ⟨?_, Or.inl ?_⟩
      · exact hpop.trans (congrArg _ hsame.symm)
      · simp [hwriting]
  | continued bytes front rest hop hmore =>
      have hpop := hkept.pop hop
      have hwriting := (hkept.front hop).1
      rw [hmore] at hpop
      refine ⟨?_, Or.inr ?_⟩
      · exact hpop.trans (congrArg _ hsame.symm)
      · simp [hwriting]
  | upgraded bytes hop =>
      have hnone : [StreamWrite.response bytes].filterMap frameIn = [] := rfl
      refine ⟨?_, hkept.inFlight⟩
      rw [List.filterMap_append, hnone, List.append_nil]
      exact hkept.frames.trans (congrArg _ hsame.symm)
  | frameFailed bytes hop =>
      have hwriting := (hkept.front hop).1
      refine ⟨?_, Or.inl ?_⟩
      · exact hkept.frames.trans (congrArg _ hsame.symm)
      · simp [hwriting]
  | _ => exact ⟨hkept.frames.trans (congrArg _ hsame.symm), hkept.inFlight⟩

/-- Over any run, also one with failures: the frames that left and those that
still wait are the frames of the messages sent, in order. -/
theorem framesKept_of_run {generateWebsocketAccept : List UInt8 → List UInt8}
    {uuid : String} {useSsl : Bool} {events : List SessionEvent}
    {final : WebSocketSession} {calls : List Message}
    (hrun : run (step generateWebsocketAccept) (new uuid useSsl).start events =
      some (final, calls)) :
    FramesKept (events.filterMap SessionEvent.sent) final := by
  refine run_induction _ (motive := fun past state _ =>
    FramesKept (past.filterMap SessionEvent.sent) state)
    (framesKept_new uuid useSsl) ?_ hrun
  intro past state outs event next new _ hkept hstep
  have hnext := hkept.step (stepped_of_step hstep)
  rw [List.filterMap_append]
  cases event <;> exact hnext

end Step

end WebSocketSession

namespace VoiceChatServer

/-- What a step leaves of a session besides its state. -/
theorem uuid_of_stepped {session next : WebSocketSession} {event : SessionEvent}
    (hstepped : session.Stepped event next) : next.uuid = session.uuid := by
  cases hstepped <;> rfl

/-- The calls that a handler makes on the room. -/
def roomEvents (generateWebsocketAccept : List UInt8 → List UInt8)
    (server : VoiceChatServer) : ServerEvent → List (RoomEvent String Client)
  | .accepted uuid => [.addClient uuid (.webSocket server.sessions.length)]
  | .acceptFailed => []
  | .completed index now completion =>
      (server.sessions[index]?).elim [] fun session =>
        (session.complete generateWebsocketAccept completion).elim []
          fun done =>
            (done.2.filter fun message => message.1 = .binary).map
              fun message => .processAudio now session.uuid ⟨message.2⟩
  | .received now endpoint bytes =>
      let stored := bytes.take recvBufferSize
      if 0 < stored.length then
        (if (server.room.getClient endpoint.clientKey).isSome then []
          else [.addClient endpoint.clientKey (.udp endpoint)]) ++
          [.processAudio now endpoint.clientKey ⟨stored⟩]
      else []
  | .receiveFailed => []
  | .mixed now walk => [.tick now walk]

/-- The completions of the operations of one session. -/
def completionAt (index : Nat) : ServerEvent → Option Completion
  | .completed session _ completion =>
      if session = index then some completion else none
  | _ => none

/-- The deliveries to one session. -/
def deliveriesTo (index : Nat) (deliveries : List (Delivery String Client)) :
    List (Delivery String Client) :=
  deliveries.filter fun delivery => delivery.client = .webSocket index

def messageOf (delivery : Delivery String Client) : Message :=
  (.binary, delivery.mixedPacket.data)

theorem run_onMessage (now : Int) (uuid : String) (calls : List Message)
    (room : RoomManager String Client) :
    run RoomManager.step room
        ((calls.filter fun message => message.1 = .binary).map
          fun message => .processAudio now uuid ⟨message.2⟩) =
      some (calls.foldl (onMessage now uuid) room, []) := by
  induction calls generalizing room with
  | nil => rfl
  | cons message rest ih =>
      by_cases hbinary : message.1 = .binary
      · have hone : onMessage now uuid room message =
            room.processAudio now uuid ⟨message.2⟩ := by
          rw [onMessage, if_pos hbinary]
          rfl
        rw [List.filter_cons_of_pos (by simpa using hbinary), List.map_cons,
          run_cons_eq_some]
        refine ⟨_, [], [], rfl, ?_, rfl⟩
        rw [ih, List.foldl_cons, hone]
      · have hone : onMessage now uuid room message = room := by
          rw [onMessage, if_neg hbinary]
        rw [List.filter_cons_of_neg (by simpa using hbinary), ih,
          List.foldl_cons, hone]

section Step

variable {generateWebsocketAccept : List UInt8 → List UInt8}
  {server next : VoiceChatServer} {out : List Datagram}

theorem room_handleReceive (now : Int) (endpoint : Endpoint)
    (bytes : List UInt8) :
    run RoomManager.step server.room
        ((if (server.room.getClient endpoint.clientKey).isSome then []
          else [.addClient endpoint.clientKey (.udp endpoint)]) ++
          [.processAudio now endpoint.clientKey ⟨bytes⟩]) =
      some ((server.handleReceive now endpoint bytes).room, []) := by
  cases hclient : server.room.getClient endpoint.clientKey with
  | none =>
      simp [handleReceive, hclient, addClient, run, RoomManager.step]
  | some client =>
      simp [handleReceive, hclient, run, RoomManager.step]

/-- A new UDP client is no session. -/
theorem lookup_handleReceive {now : Int} {endpoint : Endpoint}
    {bytes : List UInt8} {id : String} {index : Nat}
    (hlookup : (server.handleReceive now endpoint bytes).room.clients.lookup id =
      some (.webSocket index)) :
    server.room.clients.lookup id = some (.webSocket index) := by
  cases hclient : server.room.getClient endpoint.clientKey with
  | some client =>
      simpa [handleReceive, hclient, RoomManager.processAudio] using hlookup
  | none =>
      have hinsert : (server.room.clients.insert endpoint.clientKey
          (.udp endpoint)).lookup id = some (.webSocket index) := by
        simpa [handleReceive, hclient, addClient, RoomManager.addClient,
          RoomManager.processAudio] using hlookup
      by_cases hid : id = endpoint.clientKey
      · rw [hid, AList.lookup_insert, Option.some.injEq] at hinsert
        exact absurd hinsert (by simp)
      · rwa [AList.lookup_insert_ne hid] at hinsert

/-- A session has taken the completions of its own operations and been sent the
deliveries to it, and nothing else. -/
def Fed (generateWebsocketAccept : List UInt8 → List UInt8) (useSsl : Bool)
    (completions : List Completion) (messages : List Message)
    (session : WebSocketSession) : Prop :=
  ∃ own calls, run (WebSocketSession.step generateWebsocketAccept)
      (WebSocketSession.new session.uuid useSsl).start own =
      some (session, calls) ∧
    own.filterMap SessionEvent.completion = completions ∧
    own.filterMap SessionEvent.sent = messages

theorem fed_new (generateWebsocketAccept : List UInt8 → List UInt8)
    (useSsl : Bool) (uuid : String) :
    Fed generateWebsocketAccept useSsl [] []
      (WebSocketSession.new uuid useSsl).start := by
  have huuid : (WebSocketSession.new uuid useSsl).start.uuid = uuid := by
    cases useSsl <;> rfl
  refine ⟨[], [], ?_, rfl, rfl⟩
  rw [huuid]
  rfl

theorem Fed.step {useSsl : Bool} {completions : List Completion}
    {messages : List Message} {session after : WebSocketSession}
    {calls : List Message}
    (hfed : Fed generateWebsocketAccept useSsl completions messages session)
    {event : SessionEvent}
    (hstep : session.step generateWebsocketAccept event = some (after, calls)) :
    Fed generateWebsocketAccept useSsl
      (completions ++ event.completion.toList) (messages ++ event.sent.toList)
      after := by
  obtain ⟨own, earlier, hrun, rfl, rfl⟩ := hfed
  have huuid := uuid_of_stepped (WebSocketSession.stepped_of_step hstep)
  refine ⟨own ++ [event], earlier ++ calls, ?_, ?_, ?_⟩
  · rw [huuid, run_concat_eq_some]
    exact ⟨session, earlier, calls, hrun, hstep, rfl⟩
  · rw [List.filterMap_append]
    cases event <;> rfl
  · rw [List.filterMap_append]
    cases event <;> rfl

/-- The deliveries of a tick to one session. -/
theorem fed_foldl_send {useSsl : Bool} {index : Nat}
    {completions : List Completion} {messages : List Message}
    {deliveries : List (Delivery String Client)}
    {sessions : List WebSocketSession} {session : WebSocketSession}
    (hfed : ∀ session, sessions[index]? = some session →
      Fed generateWebsocketAccept useSsl completions messages session)
    (hsession : (deliveries.foldl sendToSession sessions)[index]? =
      some session) :
    Fed generateWebsocketAccept useSsl completions
      (messages ++ (deliveriesTo index deliveries).map messageOf) session := by
  induction deliveries generalizing sessions messages with
  | nil =>
      rw [deliveriesTo, List.filter_nil, List.map_nil, List.append_nil]
      exact hfed session hsession
  | cons delivery rest ih =>
      rw [List.foldl_cons] at hsession
      by_cases hclient : delivery.client = .webSocket index
      · have hnext : ∀ session,
            (sendToSession sessions delivery)[index]? = some session →
            Fed generateWebsocketAccept useSsl completions
              (messages ++ [messageOf delivery]) session := by
          intro after hafter
          rw [getElem?_sendToSession, if_pos hclient,
            Option.map_eq_some_iff] at hafter
          obtain ⟨before, hbefore, rfl⟩ := hafter
          have hsend : before.step generateWebsocketAccept
              (.send delivery.mixedPacket.data .binary) =
              some (before.send delivery.mixedPacket.data .binary, []) := rfl
          have hsent := (hfed before hbefore).step hsend
          rwa [SessionEvent.completion, Option.toList_none,
            List.append_nil] at hsent
        have hrest := ih hnext hsession
        rw [deliveriesTo, List.filter_cons_of_pos (by simpa using hclient),
          ← deliveriesTo, List.map_cons]
        rwa [List.append_assoc, List.singleton_append] at hrest
      · have hnext : ∀ session,
            (sendToSession sessions delivery)[index]? = some session →
            Fed generateWebsocketAccept useSsl completions messages
              session := by
          intro after hafter
          rw [getElem?_sendToSession, if_neg hclient] at hafter
          exact hfed after hafter
        have hrest := ih hnext hsession
        rwa [deliveriesTo, List.filter_cons_of_neg (by simpa using hclient),
          ← deliveriesTo]

theorem length_foldl_send (deliveries : List (Delivery String Client))
    (sessions : List WebSocketSession) :
    (deliveries.foldl sendToSession sessions).length = sessions.length := by
  induction deliveries generalizing sessions with
  | nil => rfl
  | cons delivery rest ih =>
      rw [List.foldl_cons, ih, sendToSession]
      cases delivery.client with
      | webSocket session => exact List.length_modify ..
      | udp endpoint => rfl

/-- The sessions after the events of `past`, with the deliveries of the room in
these; a session that does not exist yet has no events. -/
structure Served (generateWebsocketAccept : List UInt8 → List UInt8)
    (useSsl : Bool) (past : List ServerEvent)
    (deliveries : List (Delivery String Client)) (server : VoiceChatServer) :
    Prop where
  useSsl_eq : server.useSsl = useSsl
  tracked : server.RoomTracked
  known : ∀ id index, server.room.clients.lookup id = some (.webSocket index) →
    index < server.sessions.length
  future : ∀ index, server.sessions.length ≤ index →
    past.filterMap (completionAt index) = [] ∧
      deliveriesTo index deliveries = []
  fed : ∀ index session, server.sessions[index]? = some session →
    Fed generateWebsocketAccept useSsl (past.filterMap (completionAt index))
      ((deliveriesTo index deliveries).map messageOf) session

theorem served_new (useSsl : Bool) :
    Served generateWebsocketAccept useSsl [] [] (new useSsl) where
  useSsl_eq := rfl
  tracked := roomTracked_new useSsl
  known := by
    intro id index hlookup
    simp [new, RoomManager.new] at hlookup
  future := fun _ _ => ⟨rfl, rfl⟩
  fed := by
    intro index session hsession
    simp [new] at hsession

theorem filterMap_completionAt_concat (index : Nat) (past : List ServerEvent)
    (event : ServerEvent) :
    (past ++ [event]).filterMap (completionAt index) =
      past.filterMap (completionAt index) ++
        (completionAt index event).toList := by
  rw [List.filterMap_append]
  cases hevent : completionAt index event <;> simp [hevent]

variable {useSsl : Bool} {past : List ServerEvent}
  {deliveries : List (Delivery String Client)}

/-- A step that leaves the sessions as they are. -/
theorem Served.keep
    (hserved : Served generateWebsocketAccept useSsl past deliveries server)
    {event : ServerEvent}
    (hstep : server.step generateWebsocketAccept event = some (next, out))
    (hsessions : next.sessions = server.sessions)
    (huse : next.useSsl = server.useSsl)
    (hnone : ∀ index, completionAt index event = none)
    (hclients : ∀ id index,
      next.room.clients.lookup id = some (.webSocket index) →
      server.room.clients.lookup id = some (.webSocket index)) :
    Served generateWebsocketAccept useSsl (past ++ [event]) deliveries next := by
  have hpast : ∀ index, (past ++ [event]).filterMap (completionAt index) =
      past.filterMap (completionAt index) := by
    intro index
    rw [filterMap_completionAt_concat, hnone, Option.toList_none,
      List.append_nil]
  refine ⟨huse.trans hserved.useSsl_eq,
    hserved.tracked.step (stepped_of_step hstep), ?_, ?_, ?_⟩
  · intro id index hlookup
    rw [hsessions]
    exact hserved.known id index (hclients id index hlookup)
  · intro index hindex
    rw [hsessions] at hindex
    rw [hpast]
    exact hserved.future index hindex
  · intro index session hsession
    rw [hsessions] at hsession
    rw [hpast]
    exact hserved.fed index session hsession

theorem Served.accepted
    (hserved : Served generateWebsocketAccept useSsl past deliveries server)
    (uuid : String) :
    Served generateWebsocketAccept useSsl (past ++ [.accepted uuid]) deliveries
      (server.doAccept uuid) := by
  have hpast : ∀ index,
      (past ++ [ServerEvent.accepted uuid]).filterMap (completionAt index) =
        past.filterMap (completionAt index) := by
    intro index
    rw [filterMap_completionAt_concat]
    exact List.append_nil _
  have hlength : (server.doAccept uuid).sessions.length =
      server.sessions.length + 1 := by
    simp [doAccept, addWebsocketUser, addClient]
  refine ⟨hserved.useSsl_eq, hserved.tracked.step (.accepted uuid), ?_, ?_, ?_⟩
  · intro id index hlookup
    rw [hlength]
    by_cases hid : id = uuid
    · subst hid
      have hnew : (server.doAccept id).room.clients.lookup id =
          some (.webSocket server.sessions.length) :=
        AList.lookup_insert _
      rw [hnew, Option.some.injEq, Client.webSocket.injEq] at hlookup
      omega
    · have hold : (server.doAccept uuid).room.clients.lookup id =
          server.room.clients.lookup id := AList.lookup_insert_ne hid
      rw [hold] at hlookup
      exact (hserved.known id index hlookup).trans (Nat.lt_succ_self _)
  · intro index hindex
    rw [hlength] at hindex
    rw [hpast]
    exact hserved.future index (by omega)
  · intro index session hsession
    rw [hpast]
    have hsessions : (server.doAccept uuid).sessions =
        server.sessions ++ [(WebSocketSession.new uuid useSsl).start] := by
      rw [← hserved.useSsl_eq]
      rfl
    rw [hsessions] at hsession
    rcases Nat.lt_or_ge index server.sessions.length with hold | hnew
    · rw [List.getElem?_append_left hold] at hsession
      exact hserved.fed index session hsession
    · obtain ⟨hcompletions, hdeliveries⟩ := hserved.future index hnew
      rw [List.getElem?_append_right hnew] at hsession
      obtain rfl := List.mem_singleton.1 (List.mem_of_getElem? hsession)
      rw [hcompletions, hdeliveries]
      exact fed_new _ useSsl uuid

theorem Served.completed
    (hserved : Served generateWebsocketAccept useSsl past deliveries server)
    {index : Nat} {now : Int} {completion : Completion}
    {session after : WebSocketSession} {calls : List Message}
    (hsession : server.sessions[index]? = some session)
    (hcomplete : session.complete generateWebsocketAccept completion =
      some (after, calls)) :
    Served generateWebsocketAccept useSsl
      (past ++ [.completed index now completion]) deliveries
      { server with
        room := calls.foldl (onMessage now session.uuid) server.room
        sessions := server.sessions.set index after } := by
  have hstep : session.step generateWebsocketAccept (.complete completion) =
      some (after, calls) := hcomplete
  have hstepped := WebSocketSession.stepped_of_step hstep
  have hindex : index < server.sessions.length :=
    (List.getElem?_eq_some_iff.1 hsession).1
  refine ⟨hserved.useSsl_eq, hserved.tracked.step
    (.completed index now completion session after calls hsession hstepped),
    ?_, ?_, ?_⟩
  · intro id other hlookup
    have hlength : (server.sessions.set index after).length =
        server.sessions.length := List.length_set ..
    rw [clients_onMessage] at hlookup
    exact (hserved.known id other hlookup).trans_eq hlength.symm
  · intro other hother
    have hlength : server.sessions.length ≤ other := by
      simpa using hother
    have hnone : completionAt other
        (.completed index now completion) = none := by
      have hne : index ≠ other := by omega
      rw [completionAt, if_neg hne]
    rw [filterMap_completionAt_concat, hnone, Option.toList_none,
      List.append_nil]
    exact hserved.future other hlength
  · intro other reached hreached
    rw [filterMap_completionAt_concat]
    by_cases hsame : index = other
    · subst hsame
      have hafter : after = reached := by
        simpa [hindex] using hreached
      have hfed := (hserved.fed index session hsession).step hstep
      rw [SessionEvent.sent, Option.toList_none, List.append_nil] at hfed
      rw [completionAt, if_pos rfl, ← hafter]
      exact hfed
    · rw [List.getElem?_set_ne hsame] at hreached
      rw [completionAt, if_neg hsame, Option.toList_none, List.append_nil]
      exact hserved.fed other reached hreached

theorem Served.mixed
    (hserved : Served generateWebsocketAccept useSsl past deliveries server)
    {now : Int} {walk : Walk String} {room : RoomManager String Client}
    {new : List (Delivery String Client)}
    (htick : server.room.step (.tick now walk) = some (room, new)) :
    Served generateWebsocketAccept useSsl (past ++ [.mixed now walk])
      (deliveries ++ new)
      { server with
        room := room
        sessions := new.foldl sendToSession server.sessions } := by
  obtain ⟨history, htracks⟩ := hserved.tracked
  have hticked := RoomManager.ticked_of_step htracks.recorded htick
  have hpast : ∀ index,
      (past ++ [ServerEvent.mixed now walk]).filterMap (completionAt index) =
        past.filterMap (completionAt index) := by
    intro index
    rw [filterMap_completionAt_concat]
    exact List.append_nil _
  have hdeliveries : ∀ index, deliveriesTo index (deliveries ++ new) =
      deliveriesTo index deliveries ++ deliveriesTo index new :=
    fun index => List.filter_append ..
  refine ⟨hserved.useSsl_eq,
    hserved.tracked.step (.mixed now walk room new htick), ?_, ?_, ?_⟩
  · intro id index hlookup
    rw [hticked.clients_eq] at hlookup
    rw [length_foldl_send]
    exact hserved.known id index hlookup
  · intro index hindex
    rw [length_foldl_send] at hindex
    have hnone : deliveriesTo index new = [] := by
      rw [deliveriesTo, List.filter_eq_nil_iff]
      intro delivery hdelivery hclient
      have hlookup := (hticked.mem_deliveries_iff.1 hdelivery).1
      rw [of_decide_eq_true hclient] at hlookup
      exact absurd (hserved.known _ _ hlookup) (Nat.not_lt.2 hindex)
    rw [hpast, hdeliveries, hnone, List.append_nil]
    exact hserved.future index hindex
  · intro index session hsession
    rw [hpast, hdeliveries, List.map_append]
    exact fed_foldl_send (hserved.fed index) hsession

/-- Every handler of the server is a run of the room, and keeps the sessions
served; only a tick of the mixing timer makes deliveries. -/
theorem Served.step
    (hserved : Served generateWebsocketAccept useSsl past deliveries server)
    {event : ServerEvent}
    (hstep : server.step generateWebsocketAccept event = some (next, out)) :
    ∃ new, run RoomManager.step server.room
        (server.roomEvents generateWebsocketAccept event) =
        some (next.room, new) ∧
      out = new.filterMap datagramOf ∧
      Served generateWebsocketAccept useSsl (past ++ [event])
        (deliveries ++ new) next := by
  have hquiet : deliveries ++ [] = deliveries := List.append_nil deliveries
  have hsame := hstep
  cases event with
  | accepted uuid =>
      obtain ⟨rfl, rfl⟩ : server.doAccept uuid = next ∧ [] = out := by
        simpa [VoiceChatServer.step] using hstep
      exact ⟨[], rfl, rfl, hquiet.symm ▸ hserved.accepted uuid⟩
  | acceptFailed =>
      obtain ⟨rfl, rfl⟩ : server = next ∧ [] = out := by
        simpa [VoiceChatServer.step] using hstep
      exact ⟨[], rfl, rfl, hquiet.symm ▸ hserved.keep hsame rfl rfl
        (fun _ => rfl) fun _ _ hlookup => hlookup⟩
  | completed index now completion =>
      simp only [VoiceChatServer.step] at hstep
      cases hsession : server.sessions[index]? with
      | none => simp [hsession] at hstep
      | some session =>
          simp only [hsession, Option.map_eq_some_iff, Prod.mk.injEq] at hstep
          obtain ⟨⟨after, calls⟩, hdone, rfl, rfl⟩ := hstep
          refine ⟨[], ?_, rfl, hquiet.symm ▸ hserved.completed hsession hdone⟩
          simp only [roomEvents, hsession, hdone, Option.elim_some]
          exact run_onMessage now session.uuid calls server.room
  | received now endpoint bytes =>
      simp only [VoiceChatServer.step] at hstep
      by_cases hbytes : 0 < (bytes.take recvBufferSize).length
      · rw [if_pos hbytes, Option.some.injEq, Prod.mk.injEq] at hstep
        obtain ⟨rfl, rfl⟩ := hstep
        refine ⟨[], ?_, rfl, hquiet.symm ▸ hserved.keep hsame ?_ ?_
          (fun _ => rfl) fun _ _ => lookup_handleReceive⟩
        · simp only [roomEvents, if_pos hbytes]
          exact room_handleReceive now endpoint _
        · exact sessions_handleReceive now endpoint _
        · cases hclient : server.room.getClient endpoint.clientKey <;>
            simp [handleReceive, hclient, addClient]
      · rw [if_neg hbytes, Option.some.injEq, Prod.mk.injEq] at hstep
        obtain ⟨rfl, rfl⟩ := hstep
        refine ⟨[], ?_, rfl, hquiet.symm ▸ hserved.keep hsame rfl rfl
          (fun _ => rfl) fun _ _ hlookup => hlookup⟩
        simp only [roomEvents, if_neg hbytes]
        rfl
  | receiveFailed =>
      obtain ⟨rfl, rfl⟩ : server = next ∧ [] = out := by
        simpa [VoiceChatServer.step] using hstep
      exact ⟨[], rfl, rfl, hquiet.symm ▸ hserved.keep hsame rfl rfl
        (fun _ => rfl) fun _ _ hlookup => hlookup⟩
  | mixed now walk =>
      simp only [VoiceChatServer.step, Option.ite_none_right_eq_some,
        Option.map_eq_some_iff, Prod.mk.injEq] at hstep
      obtain ⟨-, ⟨room, new⟩, htick, rfl, rfl⟩ := hstep
      refine ⟨new, ?_, rfl, hserved.mixed htick⟩
      rw [roomEvents, run_cons_eq_some]
      exact ⟨room, new, [], htick, rfl, (List.append_nil _).symm⟩

/-- The room of a run of the server, and its sessions, fed by its deliveries. -/
theorem served_of_run {events : List ServerEvent} {final : VoiceChatServer}
    {datagrams : List Datagram}
    (hrun : run (VoiceChatServer.step generateWebsocketAccept) (new useSsl)
      events = some (final, datagrams)) :
    ∃ deliveries, run RoomManager.step RoomManager.new
        (partEvents (VoiceChatServer.step generateWebsocketAccept)
          (roomEvents generateWebsocketAccept) (new useSsl) events) =
        some (final.room, deliveries) ∧
      datagrams = deliveries.filterMap datagramOf ∧
      Served generateWebsocketAccept useSsl events deliveries final := by
  refine run_induction _ (motive := fun past state outs =>
    ∃ deliveries, run RoomManager.step RoomManager.new
        (partEvents (VoiceChatServer.step generateWebsocketAccept)
          (roomEvents generateWebsocketAccept) (new useSsl) past) =
        some (state.room, deliveries) ∧
      outs = deliveries.filterMap datagramOf ∧
      Served generateWebsocketAccept useSsl past deliveries state) ?_ ?_ hrun
  · exact ⟨[], rfl, rfl, served_new useSsl⟩
  · rintro past state outs event after more hpast
      ⟨deliveries, hroom, rfl, hserved⟩ hstep
    obtain ⟨new, hnext, rfl, hafter⟩ := hserved.step hstep
    exact ⟨deliveries ++ new, run_part_concat hpast hroom hnext,
      (List.filterMap_append ..).symm, hafter⟩

end Step

/-- The server refines its parts.  Its run is a run of a room over the calls that
the handlers make, the datagrams are the room's deliveries to UDP clients, and
each session is where a run of its own leads that takes the completions of the
session in order and sends the room's deliveries to it in order. -/
theorem server_refines {generateWebsocketAccept : List UInt8 → List UInt8}
    {useSsl : Bool} {events : List ServerEvent} {final : VoiceChatServer}
    {datagrams : List Datagram}
    (hrun : run (step generateWebsocketAccept) (new useSsl) events =
      some (final, datagrams)) :
    ∃ deliveries, run RoomManager.step RoomManager.new
        (partEvents (step generateWebsocketAccept)
          (roomEvents generateWebsocketAccept) (new useSsl) events) =
        some (final.room, deliveries) ∧
      datagrams = deliveries.filterMap datagramOf ∧
      ∀ index session, final.sessions[index]? = some session →
        ∃ own calls,
          run (WebSocketSession.step generateWebsocketAccept)
            (WebSocketSession.new session.uuid useSsl).start own =
            some (session, calls) ∧
          own.filterMap SessionEvent.completion =
            events.filterMap (completionAt index) ∧
          own.filterMap SessionEvent.sent =
            (deliveriesTo index deliveries).map messageOf := by
  obtain ⟨deliveries, hroom, hout, hserved⟩ := served_of_run hrun
  exact ⟨deliveries, hroom, hout, hserved.fed⟩

/-- A page and a native client speak twice, and two ticks mix them; the page has got
the first mix, and the second one waits. -/
def spokenTwice : List ServerEvent :=
  let order : List String := ["a", "10.0.0.7:50000"]
  [.accepted "a", .completed 0 0 (.request (some WebSocketSession.sampleRequest)),
    .completed 0 0 (.response
      (handshakeResponse (WebSocketSession.sampleAccept [])) true),
    .completed 0 0 (.frames (some [0x82, 2, 80, 0])),
    .received 0 ⟨10, 0, 0, 7, 50000⟩ [100, 0],
    .mixed 20000000 ⟨order, order, order⟩,
    .completed 0 20000000 (.frame [0x82, 2, 50, 0] true),
    .received 30000000 ⟨10, 0, 0, 7, 50000⟩ [60, 0],
    .mixed 40000000 ⟨order, order, order⟩]

theorem spokenTwice_run :
    ∃ final, run (step WebSocketSession.sampleAccept) (new false) spokenTwice =
        some (final, [⟨⟨10, 0, 0, 7, 50000⟩, ⟨[40, 0]⟩⟩]) ∧
      (final.sessions.map fun session =>
        (session.written.filterMap WebSocketSession.frameIn,
          session.writeQueue)) =
        [([[0x82, 2, 50, 0]], [[0x82, 2, 30, 0]])] := by
  have hsent : ((run (step WebSocketSession.sampleAccept) (new false)
      spokenTwice).map fun done => (done.2, done.1.sessions.map fun session =>
        (session.written.filterMap WebSocketSession.frameIn,
          session.writeQueue))) =
      some ([⟨⟨10, 0, 0, 7, 50000⟩, ⟨[40, 0]⟩⟩],
        [([[0x82, 2, 50, 0]], [[0x82, 2, 30, 0]])]) := by
    decide +kernel
  obtain ⟨⟨final, datagrams⟩, hrun, hdone⟩ := Option.map_eq_some_iff.1 hsent
  obtain ⟨rfl, hframes⟩ := Prod.mk.inj hdone
  exact ⟨final, hrun, hframes⟩

theorem server_refines_spoken :
    ∃ final, run (step WebSocketSession.sampleAccept) (new false) spokenTwice =
        some (final, [⟨⟨10, 0, 0, 7, 50000⟩, ⟨[40, 0]⟩⟩]) ∧
      ∃ deliveries, run RoomManager.step RoomManager.new
          (partEvents (step WebSocketSession.sampleAccept)
            (roomEvents WebSocketSession.sampleAccept) (new false) spokenTwice) =
          some (final.room, deliveries) ∧
        [⟨⟨10, 0, 0, 7, 50000⟩, ⟨[40, 0]⟩⟩] = deliveries.filterMap datagramOf ∧
        ∀ index session, final.sessions[index]? = some session →
          ∃ own calls,
            run (WebSocketSession.step WebSocketSession.sampleAccept)
              (WebSocketSession.new session.uuid false).start own =
              some (session, calls) ∧
            own.filterMap SessionEvent.completion =
              spokenTwice.filterMap (completionAt index) ∧
            own.filterMap SessionEvent.sent =
              (deliveriesTo index deliveries).map messageOf := by
  obtain ⟨final, hrun, -⟩ := spokenTwice_run
  exact ⟨final, hrun, server_refines hrun⟩

/-- The frames that have left for a WebSocket client, and those that wait in its
session, are the frames of the room's deliveries to it, in order, whatever fails
and however handshakes, reads, writes and ticks come in between. -/
theorem frames_of_run {generateWebsocketAccept : List UInt8 → List UInt8}
    {useSsl : Bool} {events : List ServerEvent} {final : VoiceChatServer}
    {datagrams : List Datagram}
    (hrun : run (step generateWebsocketAccept) (new useSsl) events =
      some (final, datagrams)) :
    ∃ deliveries, run RoomManager.step RoomManager.new
        (partEvents (step generateWebsocketAccept)
          (roomEvents generateWebsocketAccept) (new useSsl) events) =
        some (final.room, deliveries) ∧
      ∀ index session, final.sessions[index]? = some session →
        session.written.filterMap WebSocketSession.frameIn ++
          session.writeQueue =
        (deliveriesTo index deliveries).map fun delivery =>
          createWebsocketFrame delivery.mixedPacket.data .binary := by
  obtain ⟨deliveries, hroom, -, hserved⟩ := served_of_run hrun
  refine ⟨deliveries, hroom, ?_⟩
  intro index session hsession
  obtain ⟨own, calls, hown, -, hsent⟩ := hserved.fed index session hsession
  have hkept := WebSocketSession.framesKept_of_run hown
  rw [hkept.frames, hsent, List.map_map]
  rfl

theorem frames_of_run_spoken :
    ∃ final, run (step WebSocketSession.sampleAccept) (new false) spokenTwice =
        some (final, [⟨⟨10, 0, 0, 7, 50000⟩, ⟨[40, 0]⟩⟩]) ∧
      (final.sessions.map fun session =>
        (session.written.filterMap WebSocketSession.frameIn,
          session.writeQueue)) =
        [([[0x82, 2, 50, 0]], [[0x82, 2, 30, 0]])] ∧
      ∃ deliveries, run RoomManager.step RoomManager.new
          (partEvents (step WebSocketSession.sampleAccept)
            (roomEvents WebSocketSession.sampleAccept) (new false) spokenTwice) =
          some (final.room, deliveries) ∧
        ∀ index session, final.sessions[index]? = some session →
          session.written.filterMap WebSocketSession.frameIn ++
            session.writeQueue =
          (deliveriesTo index deliveries).map fun delivery =>
            createWebsocketFrame delivery.mixedPacket.data .binary := by
  obtain ⟨final, hrun, hframes⟩ := spokenTwice_run
  exact ⟨final, hrun, hframes, frames_of_run hrun⟩

end VoiceChatServer

end VoiceServer

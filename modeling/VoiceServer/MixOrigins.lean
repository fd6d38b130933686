/-
Where the audio that the server sends comes from: a tick mixes packets that the
room was given before, and the handlers give it what datagrams and messages of
other clients hold.
-/
import VoiceServer.RoomMembership
import VoiceServer.ServerRefinement

namespace VoiceServer

universe u v

namespace RoomManager

variable {Id : Type u} [DecidableEq Id] {Client : Type v}

theorem processed_of_pending {history : History Id Client} {id : Id}
    {entry : Nat × AudioPacket} (hentry : entry ∈ pending id history) :
    ∃ now, .processAudio now id entry.2 ∈ history := by
  induction history with
  | nil => simp [pending] at hentry
  | cons event older ih =>
      have hlater : entry ∈ pending id older →
          ∃ now, .processAudio now id entry.2 ∈ event :: older := by
        intro hold
        obtain ⟨now, hnow⟩ := ih hold
        exact ⟨now, List.mem_cons_of_mem _ hnow⟩
      cases event with
      | addClient added client => exact hlater hentry
      | removeClient removed =>
          by_cases hid : removed = id
          · simp [pending, hid] at hentry
          · simp only [pending, if_neg hid] at hentry
            exact hlater hentry
      | processAudio now sender packet =>
          by_cases hid : sender = id
          · simp only [pending, if_pos hid, List.mem_append,
              List.mem_singleton] at hentry
            rcases hentry with hold | rfl
            · exact hlater hold
            · exact ⟨now, by rw [hid]; exact List.mem_cons_self⟩
          · simp only [pending, if_neg hid] at hentry
            exact hlater hentry
      | tick now walk => simp [pending] at hentry

theorem added_of_registered {history : History Id Client} {id : Id}
    {client : Client} (hclient : registered id history = some client) :
    .addClient id client ∈ history := by
  induction history with
  | nil => simp [registered] at hclient
  | cons event older ih =>
      cases event with
      | addClient added new =>
          by_cases hid : added = id
          · rw [registered, if_pos hid, Option.some.injEq] at hclient
            rw [hid, hclient]
            exact List.mem_cons_self
          · rw [registered, if_neg hid] at hclient
            exact List.mem_cons_of_mem _ (ih hclient)
      | removeClient removed =>
          by_cases hid : removed = id
          · simp [registered, hid] at hclient
          · rw [registered, if_neg hid] at hclient
            exact List.mem_cons_of_mem _ (ih hclient)
      | processAudio now sender packet =>
          exact List.mem_cons_of_mem _ (ih hclient)
      | tick now walk => exact List.mem_cons_of_mem _ (ih hclient)

/-- A delivery goes to a client that was added, and is made of packets that came
from others. -/
structure Justified (events : List (RoomEvent Id Client))
    (delivery : Delivery Id Client) : Prop where
  added : .addClient delivery.listener delivery.client ∈ events
  nonempty : delivery.packetsToMix ≠ []
  others : ∀ entry ∈ delivery.packetsToMix, entry.1 ≠ delivery.listener ∧
    ∃ now, .processAudio now entry.1 entry.2 ∈ events

theorem justified_of_run {events : List (RoomEvent Id Client)}
    {room : RoomManager Id Client} {sent : List (Delivery Id Client)}
    (hrun : run RoomManager.step new events = some (room, sent)) :
    ∀ delivery ∈ sent, Justified events delivery := by
  have hgrow : ∀ past event, ∀ delivery : Delivery Id Client,
      Justified past delivery → Justified (past ++ [event]) delivery := by
    rintro past event delivery ⟨hadded, hne, hothers⟩
    refine ⟨List.mem_append_left _ hadded, hne, fun entry hentry => ?_⟩
    obtain ⟨hother, now, hnow⟩ := hothers entry hentry
    exact ⟨hother, now, List.mem_append_left _ hnow⟩
  apply run_induction _ (motive := fun past _ sent =>
    ∀ delivery ∈ sent, Justified past delivery) (by simp) _ hrun
  intro past room sent event next made hpast hall hstep delivery hdelivery
  rcases List.mem_append.1 hdelivery with hold | hnew
  · exact hgrow past event delivery (hall delivery hold)
  apply hgrow
  have htracks := tracks_of_run hpast
  cases event with
  | tick now walk =>
      have hticked := ticked_of_step htracks.recorded hstep
      obtain ⟨hclient, hne, hpackets⟩ := hticked.mem_deliveries_iff.1 hnew
      refine ⟨?_, hne, fun entry hentry => ?_⟩
      · rw [htracks.clients] at hclient
        exact List.mem_reverse.1 (added_of_registered hclient)
      · rw [hpackets, mem_heardBy_iff hticked.buffers_order] at hentry
        obtain ⟨hother, -, packets, hlookup, hpacket⟩ := hentry
        have hbuffer := htracks.buffers entry.1
        rw [hlookup, Option.getD_some] at hbuffer
        rw [hbuffer, List.mem_map] at hpacket
        obtain ⟨old, hold, hsame⟩ := hpacket
        obtain ⟨time, htime⟩ :=
          processed_of_pending (List.mem_of_mem_drop hold)
        rw [hsame] at htime
        exact ⟨hother, time, List.mem_reverse.1 htime⟩
  | addClient id client =>
      obtain ⟨-, rfl⟩ : _ ∧ [] = made := by
        simpa [RoomManager.step] using hstep
      simp at hnew
  | removeClient id =>
      obtain ⟨-, rfl⟩ : _ ∧ [] = made := by
        simpa [RoomManager.step] using hstep
      simp at hnew
  | processAudio now id packet =>
      obtain ⟨-, rfl⟩ : _ ∧ [] = made := by
        simpa [RoomManager.step] using hstep
      simp at hnew

end RoomManager

namespace VoiceChatServer

variable (generateWebsocketAccept : List UInt8 → List UInt8) (useSsl : Bool)

/-- A session with the uuid has handed a binary message to the server. -/
def Messaged (events : List ServerEvent) (uuid : String)
    (payload : List UInt8) : Prop :=
  ∃ past index now completion,
    past ++ [.completed index now completion] <+: events ∧
    ∃ server datagrams session after calls,
      run (step generateWebsocketAccept) (new useSsl) past =
        some (server, datagrams) ∧
      server.sessions[index]? = some session ∧ session.uuid = uuid ∧
      session.complete generateWebsocketAccept completion =
        some (after, calls) ∧ (WebSocketOpCode.binary, payload) ∈ calls

/-- A packet that the server has from a datagram of somebody who is not the
listener, or from the session of somebody who is not. -/
inductive FromOther (events : List ServerEvent) (listener : String) :
    AudioPacket → Prop
  | datagram (now : Int) (endpoint : Endpoint) (bytes : List UInt8)
      (hother : endpoint.clientKey ≠ listener)
      (hreceived : .received now endpoint bytes ∈ events) :
      FromOther events listener ⟨bytes.take recvBufferSize⟩
  | message (uuid : String) (payload : List UInt8) (hother : uuid ≠ listener)
      (hmessaged : Messaged generateWebsocketAccept useSsl events uuid payload) :
      FromOther events listener ⟨payload⟩

variable {generateWebsocketAccept useSsl} {events : List ServerEvent}
  {final : VoiceChatServer} {datagrams : List Datagram}

/-- The audio that the room gets comes in a datagram or in a message. -/
theorem processed_cases {now : Int} {id : String} {packet : AudioPacket}
    (hevent : .processAudio now id packet ∈
      partEvents (step generateWebsocketAccept)
        (roomEvents generateWebsocketAccept) (new useSsl) events) :
    (∃ endpoint bytes, .received now endpoint bytes ∈ events ∧
        id = endpoint.clientKey ∧ packet = ⟨bytes.take recvBufferSize⟩) ∨
      Messaged generateWebsocketAccept useSsl events id packet.data := by
  obtain ⟨past, event, hpast, server, sent, hrun, hmem⟩ := mem_partEvents hevent
  have hin : event ∈ events := hpast.subset (by simp)
  cases event with
  | received time endpoint bytes =>
      apply Or.inl
      simp only [roomEvents] at hmem
      split at hmem
      · rw [List.mem_append, List.mem_singleton] at hmem
        rcases hmem with hadd | hprocess
        · split at hadd <;> simp at hadd
        · obtain ⟨rfl, rfl, rfl⟩ := RoomEvent.processAudio.inj hprocess
          exact ⟨endpoint, bytes, hin, rfl, rfl⟩
      · simp at hmem
  | completed index time completion =>
      apply Or.inr
      simp only [roomEvents] at hmem
      cases hsession : server.sessions[index]? with
      | none => simp [hsession] at hmem
      | some session =>
          cases hdone : session.complete generateWebsocketAccept completion with
          | none => simp [hsession, hdone] at hmem
          | some done =>
              simp only [hsession, hdone, Option.elim_some, List.mem_map,
                List.mem_filter, decide_eq_true_eq] at hmem
              obtain ⟨⟨opcode, payload⟩, ⟨hcall, rfl⟩, heq⟩ := hmem
              obtain ⟨rfl, rfl, rfl⟩ := RoomEvent.processAudio.inj heq
              exact ⟨past, index, time, completion, hpast, server, sent, session,
                done.1, done.2, hrun, hsession, rfl, hdone, hcall⟩
  | accepted uuid => simp [roomEvents] at hmem
  | acceptFailed => simp [roomEvents] at hmem
  | receiveFailed => simp [roomEvents] at hmem
  | mixed time walk => simp [roomEvents] at hmem

/-- A UDP client is added under its key, by a datagram of its own. -/
theorem added_udp {id : String} {endpoint : Endpoint}
    (hevent : .addClient id (.udp endpoint) ∈
      partEvents (step generateWebsocketAccept)
        (roomEvents generateWebsocketAccept) (new useSsl) events) :
    id = endpoint.clientKey ∧ ∃ now bytes, .received now endpoint bytes ∈ events := by
  obtain ⟨past, event, hpast, server, sent, -, hmem⟩ := mem_partEvents hevent
  have hin : event ∈ events := hpast.subset (by simp)
  cases event with
  | received time source bytes =>
      simp only [roomEvents] at hmem
      split at hmem
      · rw [List.mem_append, List.mem_singleton] at hmem
        rcases hmem with hadd | hprocess
        · split at hadd
          · simp at hadd
          · obtain ⟨rfl, hclient⟩ :=
              RoomEvent.addClient.inj (List.mem_singleton.1 hadd)
            obtain rfl := Client.udp.inj hclient
            exact ⟨rfl, time, bytes, hin⟩
        · exact absurd hprocess (by simp)
      · simp at hmem
  | completed index time completion =>
      simp only [roomEvents] at hmem
      cases hsession : server.sessions[index]? with
      | none => simp [hsession] at hmem
      | some session =>
          cases hdone : session.complete generateWebsocketAccept completion with
          | none => simp [hsession, hdone] at hmem
          | some done => simp [hsession, hdone] at hmem
  | accepted uuid => simp [roomEvents] at hmem
  | acceptFailed => simp [roomEvents] at hmem
  | receiveFailed => simp [roomEvents] at hmem
  | mixed time walk => simp [roomEvents] at hmem

theorem uuids_foldl_send (sessions : List WebSocketSession)
    (deliveries : List (Delivery String Client)) :
    (deliveries.foldl sendToSession sessions).map (·.uuid) =
      sessions.map (·.uuid) := by
  induction deliveries generalizing sessions with
  | nil => rfl
  | cons delivery rest ih =>
      rw [List.foldl_cons, ih]
      apply List.ext_getElem?
      intro index
      rw [List.getElem?_map, List.getElem?_map, getElem?_sendToSession]
      by_cases hclient : delivery.client = .webSocket index
      · rw [if_pos hclient, Option.map_map]
        apply congrArg (Option.map · sessions[index]?)
        funext session
        exact uuid_of_stepped (WebSocketSession.stepped_send session _ _)
      · rw [if_neg hclient]

/-- The sessions have the uuids of the accepted connections. -/
theorem uuids_of_run
    (hrun : run (step generateWebsocketAccept) (new useSsl) events =
      some (final, datagrams)) :
    final.sessions.map (·.uuid) = acceptedUuids events := by
  apply run_induction _ (motive := fun past server _ =>
    server.sessions.map (·.uuid) = acceptedUuids past) rfl _ hrun
  intro past server outs event next more _ hpast hstep
  cases stepped_of_step hstep with
  | accepted uuid =>
      have huuid : (WebSocketSession.new uuid server.useSsl).start.uuid = uuid := by
        cases server.useSsl <;> rfl
      rw [acceptedUuids_concat, ← hpast]
      simp [doAccept, addWebsocketUser, addClient, huuid]
  | completed index now completion session after calls hsession hdone =>
      obtain ⟨hindex, hget⟩ := List.getElem?_eq_some_iff.1 hsession
      rw [acceptedUuids_concat_other (by simp), ← hpast]
      change (server.sessions.set index after).map (·.uuid) = _
      rw [List.map_set, uuid_of_stepped hdone]
      apply List.ext_getElem?
      intro other
      rw [List.getElem?_set]
      split
      · next hsame =>
        subst hsame
        simp [hindex, hget]
      · rfl
  | received now endpoint bytes hne =>
      rw [acceptedUuids_concat_other (by simp), sessions_handleReceive]
      exact hpast
  | mixed now walk room deliveries htick =>
      rw [acceptedUuids_concat_other (by simp), ← hpast]
      exact uuids_foldl_send server.sessions deliveries
  | _ =>
      rw [acceptedUuids_concat_other (by simp)]
      exact hpast

/-- A session is added under the uuid of its connection. -/
theorem added_session {id : String} {index : Nat}
    (hrun : run (step generateWebsocketAccept) (new useSsl) events =
      some (final, datagrams))
    (hevent : .addClient id (.webSocket index) ∈
      partEvents (step generateWebsocketAccept)
        (roomEvents generateWebsocketAccept) (new useSsl) events) :
    (acceptedUuids events)[index]? = some id := by
  obtain ⟨past, event, hpast, server, sent, hbefore, hmem⟩ :=
    mem_partEvents hevent
  cases event with
  | accepted uuid =>
      obtain ⟨rfl, hclient⟩ :=
        RoomEvent.addClient.inj (List.mem_singleton.1 hmem)
      obtain rfl := Client.webSocket.inj hclient
      have hlength := congrArg List.length (uuids_of_run hbefore)
      rw [List.length_map] at hlength
      obtain ⟨rest, rfl⟩ := hpast
      have hsplit : acceptedUuids (past ++ [.accepted id] ++ rest) =
          acceptedUuids (past ++ [.accepted id]) ++ acceptedUuids rest :=
        List.filterMap_append ..
      rw [hsplit, acceptedUuids_concat, hlength, List.append_assoc,
        List.getElem?_append_right (Nat.le_refl _), Nat.sub_self]
      rfl
  | received time source bytes =>
      simp only [roomEvents] at hmem
      split at hmem
      · rw [List.mem_append, List.mem_singleton] at hmem
        rcases hmem with hadd | hprocess
        · split at hadd <;> simp at hadd
        · exact absurd hprocess (by simp)
      · simp at hmem
  | completed index time completion =>
      simp only [roomEvents] at hmem
      cases hsession : server.sessions[index]? with
      | none => simp [hsession] at hmem
      | some session =>
          cases hdone : session.complete generateWebsocketAccept completion with
          | none => simp [hsession, hdone] at hmem
          | some done => simp [hsession, hdone] at hmem
  | acceptFailed => simp [roomEvents] at hmem
  | receiveFailed => simp [roomEvents] at hmem
  | mixed time walk => simp [roomEvents] at hmem

/-- The packets mixed for a listener came from others. -/
theorem fromOther_of_justified {delivery : Delivery String Client}
    (hjustified : RoomManager.Justified
      (partEvents (step generateWebsocketAccept)
        (roomEvents generateWebsocketAccept) (new useSsl) events) delivery) :
    delivery.packetsToMix.map Prod.snd ≠ [] ∧
      ∀ part ∈ delivery.packetsToMix.map Prod.snd,
        FromOther generateWebsocketAccept useSsl events delivery.listener part := by
  refine ⟨by simpa using hjustified.nonempty, fun part hpart => ?_⟩
  obtain ⟨entry, hentry, rfl⟩ := List.mem_map.1 hpart
  obtain ⟨hother, now, hevent⟩ := hjustified.others entry hentry
  rcases processed_cases hevent with
    ⟨source, bytes, hreceived, hid, hpacket⟩ | hmessaged
  · rw [hpacket]
    exact .datagram now source bytes (hid ▸ hother) hreceived
  · exact .message entry.1 entry.2.data hother hmessaged

/-- Every datagram is a mix of packets that came from others, and goes to somebody
who has sent one. -/
theorem datagram_parts
    (hrun : run (step generateWebsocketAccept) (new useSsl) events =
      some (final, datagrams)) :
    ∀ datagram ∈ datagrams,
      (∃ now bytes, .received now datagram.endpoint bytes ∈ events) ∧
      ∃ parts : List AudioPacket, parts ≠ [] ∧
        datagram.packet = AudioMixer.mix parts ∧
        ∀ part ∈ parts, FromOther generateWebsocketAccept useSsl events
          datagram.endpoint.clientKey part := by
  obtain ⟨deliveries, hroom, rfl, -⟩ := served_of_run hrun
  intro datagram hdatagram
  obtain ⟨delivery, hdelivery, hsent⟩ := List.mem_filterMap.1 hdatagram
  have hjustified := RoomManager.justified_of_run hroom delivery hdelivery
  cases hclient : delivery.client with
  | webSocket session => simp [datagramOf, hclient] at hsent
  | udp endpoint =>
      obtain rfl : ⟨endpoint, delivery.mixedPacket⟩ = datagram := by
        simpa [datagramOf, hclient] using hsent
      have hadded := hjustified.added
      rw [hclient] at hadded
      obtain ⟨hlistener, hjoined⟩ := added_udp hadded
      obtain ⟨hne, hparts⟩ := fromOther_of_justified hjustified
      rw [hlistener] at hparts
      exact ⟨hjoined, _, hne, rfl, hparts⟩

/-- The packets mixed for a session came from others. -/
theorem session_parts {deliveries : List (Delivery String Client)}
    {index : Nat} {session : WebSocketSession}
    {delivery : Delivery String Client}
    (hrun : run (step generateWebsocketAccept) (new useSsl) events =
      some (final, datagrams))
    (hroom : run RoomManager.step RoomManager.new
      (partEvents (step generateWebsocketAccept)
        (roomEvents generateWebsocketAccept) (new useSsl) events) =
      some (final.room, deliveries))
    (hsession : final.sessions[index]? = some session)
    (hdelivery : delivery ∈ deliveriesTo index deliveries) :
    delivery.packetsToMix.map Prod.snd ≠ [] ∧
      ∀ part ∈ delivery.packetsToMix.map Prod.snd,
        FromOther generateWebsocketAccept useSsl events session.uuid part := by
  obtain ⟨hmem, hclient⟩ := List.mem_filter.1 hdelivery
  have hjustified := RoomManager.justified_of_run hroom delivery hmem
  have hadded := hjustified.added
  rw [of_decide_eq_true hclient] at hadded
  have huuid : (final.sessions.map (·.uuid))[index]? = some session.uuid := by
    rw [List.getElem?_map, hsession]
    rfl
  rw [uuids_of_run hrun, added_session hrun hadded, Option.some.injEq] at huuid
  rw [← huuid]
  exact fromOther_of_justified hjustified

/-- Nobody is sent what they sent: in every run of the server, each datagram, and
each frame written to a WebSocket client or waiting for it, is a mix of packets
that came from others. -/
theorem nobody_hears_self
    (hrun : run (step generateWebsocketAccept) (new useSsl) events =
      some (final, datagrams)) :
    (∀ datagram ∈ datagrams, ∃ parts : List AudioPacket, parts ≠ [] ∧
      datagram.packet = AudioMixer.mix parts ∧
      ∀ part ∈ parts, FromOther generateWebsocketAccept useSsl events
        datagram.endpoint.clientKey part) ∧
    ∀ (index : Nat) (session : WebSocketSession),
      final.sessions[index]? = some session →
      ∀ frame ∈ session.written.filterMap WebSocketSession.frameIn ++
          session.writeQueue,
        ∃ parts : List AudioPacket, parts ≠ [] ∧
          frame = createWebsocketFrame (AudioMixer.mix parts).data .binary ∧
          ∀ part ∈ parts, FromOther generateWebsocketAccept useSsl events
            session.uuid part := by
  refine ⟨fun datagram hdatagram => (datagram_parts hrun datagram hdatagram).2, ?_⟩
  intro index session hsession frame hframe
  obtain ⟨deliveries, hroom, -, hserved⟩ := served_of_run hrun
  obtain ⟨own, calls, hown, -, hsent⟩ := hserved.fed index session hsession
  rw [(WebSocketSession.framesKept_of_run hown).frames, hsent, List.map_map,
    List.mem_map] at hframe
  obtain ⟨delivery, hdelivery, rfl⟩ := hframe
  obtain ⟨hne, hparts⟩ := session_parts hrun hroom hsession hdelivery
  exact ⟨_, hne, rfl, hparts⟩

/-- A connection is accepted, a datagram comes, and a tick mixes it. -/
def mixedRun : List ServerEvent :=
  [.accepted "a", .received 0 ⟨10, 0, 0, 7, 50000⟩ [1, 0],
    .mixed 20000000 ⟨["a", "10.0.0.7:50000"], ["10.0.0.7:50000"],
      ["10.0.0.7:50000"]⟩]

theorem nobody_hears_self_mixed :
    ∃ final datagrams, run (step WebSocketSession.sampleAccept) (new false)
        mixedRun = some (final, datagrams) ∧
      (∀ datagram ∈ datagrams, ∃ parts : List AudioPacket, parts ≠ [] ∧
        datagram.packet = AudioMixer.mix parts ∧
        ∀ part ∈ parts, FromOther WebSocketSession.sampleAccept false mixedRun
          datagram.endpoint.clientKey part) ∧
      ∀ (index : Nat) (session : WebSocketSession),
        final.sessions[index]? = some session →
        ∀ frame ∈ session.written.filterMap WebSocketSession.frameIn ++
            session.writeQueue,
          ∃ parts : List AudioPacket, parts ≠ [] ∧
            frame = createWebsocketFrame (AudioMixer.mix parts).data .binary ∧
            ∀ part ∈ parts, FromOther WebSocketSession.sampleAccept false
              mixedRun session.uuid part := by
  have hsome : (run (step WebSocketSession.sampleAccept) (new false)
      mixedRun).isSome = true := by
    decide +kernel
  obtain ⟨⟨final, datagrams⟩, hrun⟩ := Option.isSome_iff_exists.1 hsome
  exact ⟨final, datagrams, hrun, nobody_hears_self hrun⟩

end VoiceChatServer

end VoiceServer

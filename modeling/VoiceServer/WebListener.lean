/-
What a web page hears: the room delivers to a session, the session writes frames,
the browser hands the messages in them to the page, and the page posts them to its
worklet.
-/
import VoiceServer.DatagramSize
import VoiceServer.EchoServer
import VoiceServer.MixOrigins
import VoiceServer.VoicePage

namespace VoiceServer

namespace VoicePage

/-- The messages on one socket, each with whether it is binary. -/
def received (socket : Nat) (events : List PageEvent) :
    List (Bool × List UInt8) :=
  events.filterMap fun
    | .onmessage source binary data =>
        if source = socket then some (binary, data) else none
    | _ => none

theorem mem_received_of_pushed {events : List PageEvent} {data : List UInt8}
    (hdata : data ∈ DropOldest.pushes (bufferEvents events)) :
    ∃ socket, (true, data) ∈ received socket events := by
  obtain ⟨push, hpush, hsome⟩ := List.mem_filterMap.1 hdata
  obtain ⟨event, hevent, hbuffer⟩ := List.mem_filterMap.1 hpush
  cases event with
  | onmessage socket binary bytes =>
      rw [bufferEvent, Option.ite_none_right_eq_some] at hbuffer
      obtain ⟨⟨rfl, -⟩, hpushed⟩ := hbuffer
      obtain rfl := Option.some.inj hpushed
      obtain rfl := Option.some.inj hsome
      exact ⟨socket, List.mem_filterMap.2 ⟨_, hevent, if_pos rfl⟩⟩
  | interval timer =>
      obtain rfl := Option.some.inj hbuffer
      exact absurd hsome (by simp)
  | _ => exact absurd hbuffer (by simp [bufferEvent])

/-- What is posted has been pushed, in that order. -/
theorem posted_sublist {events : List PageEvent} {page : VoicePage}
    {calls : List PageCall} (hrun : run step new events = some (page, calls)) :
    (posted calls).Sublist (DropOldest.pushes (bufferEvents events)) := by
  obtain ⟨left, hqueue, hposted⟩ := queue_of_run hrun
  rw [hposted, ← DropOldest.left_append_queue hqueue]
  exact (List.filter_sublist.map _).trans (List.sublist_append_left _ _)

end VoicePage

namespace VoiceChatServer

variable {generateWebsocketAccept : List UInt8 → List UInt8} {useSsl : Bool}
  {events : List ServerEvent} {final : VoiceChatServer}
  {datagrams : List Datagram}

theorem FromOther.length_lt {listener : String} {part : AudioPacket}
    (hpart : FromOther generateWebsocketAccept useSsl events listener part) :
    part.data.length < 2 ^ 63 := by
  cases hpart with
  | datagram now endpoint bytes hother hreceived =>
      have hle : (bytes.take recvBufferSize).length ≤ recvBufferSize :=
        List.length_take_le ..
      exact hle.trans_lt (by decide)
  | message uuid payload hother hmessaged =>
      obtain ⟨past, index, now, completion, hpast, server, sent, session, after,
        calls, hbefore, hsession, huuid, hdone, hcall⟩ := hmessaged
      exact EchoServer.length_of_complete hdone _ hcall

/-- The deliveries to a session are short enough for the length in a frame. -/
theorem length_delivered_lt {deliveries : List (Delivery String Client)}
    {index : Nat} {session : WebSocketSession}
    (hrun : run (step generateWebsocketAccept) (new useSsl) events =
      some (final, datagrams))
    (hroom : run RoomManager.step RoomManager.new
      (partEvents (step generateWebsocketAccept)
        (roomEvents generateWebsocketAccept) (new useSsl) events) =
      some (final.room, deliveries))
    (hsession : final.sessions[index]? = some session) :
    ∀ delivery ∈ deliveriesTo index deliveries,
      delivery.mixedPacket.data.length < 2 ^ 63 := by
  intro delivery hdelivery
  have hparts := (session_parts hrun hroom hsession hdelivery).2
  have hle := (AudioMixer.length_mix_le_iff
    (delivery.packetsToMix.map Prod.snd) (2 ^ 62 - 1)).2 ?_
  · exact lt_of_le_of_lt hle (by decide)
  · intro part hpart
    have hlt := (hparts part hpart).length_lt
    omega

/-- The browser hands the page, on each socket, the first of the messages that the
server has written to the session behind it, in order. -/
def Hears (server : VoiceChatServer) (connection : Nat → Nat)
    (pageEvents : List PageEvent) : Prop :=
  ∀ socket, VoicePage.received socket pageEvents ≠ [] →
    ∃ session messages,
      server.sessions[connection socket]? = some session ∧
      Rfc6455.parseStream
        (session.written.filterMap WebSocketSession.frameIn).flatten =
        some messages ∧
      VoicePage.received socket pageEvents <+:
        messages.map fun message =>
          (decide (message.1 = WebSocketOpCode.binary.nibble), message.2)

/-- The frames written to a session parse to its first deliveries. -/
theorem written_parses {deliveries : List (Delivery String Client)}
    {index : Nat} {session : WebSocketSession}
    (hrun : run (step generateWebsocketAccept) (new useSsl) events =
      some (final, datagrams))
    (hroom : run RoomManager.step RoomManager.new
      (partEvents (step generateWebsocketAccept)
        (roomEvents generateWebsocketAccept) (new useSsl) events) =
      some (final.room, deliveries))
    (hsession : final.sessions[index]? = some session) :
    ∃ done, done <+: deliveriesTo index deliveries ∧
      Rfc6455.parseStream
        (session.written.filterMap WebSocketSession.frameIn).flatten =
        some (done.map fun delivery =>
          (WebSocketOpCode.binary.nibble, delivery.mixedPacket.data)) := by
  obtain ⟨sent, hsame, -, hserved⟩ := served_of_run hrun
  obtain rfl : sent = deliveries := by
    rw [hroom] at hsame
    exact (Prod.mk.inj (Option.some.inj hsame)).2.symm
  obtain ⟨own, calls, hown, -, hsends⟩ := hserved.fed index session hsession
  have hframes := (WebSocketSession.framesKept_of_run hown).frames
  rw [hsends, List.map_map] at hframes
  obtain ⟨done, waiting, hsplit, hdone, -⟩ :=
    List.map_eq_append_iff.1 hframes.symm
  refine ⟨done, ⟨waiting, hsplit.symm⟩, ?_⟩
  rw [← hdone, ← List.map_map, ← List.flatMap_def,
    WebSocketSession.parseStream_frames, List.map_map]
  · rfl
  · intro message hmessage
    obtain ⟨delivery, hdelivery, rfl⟩ := List.mem_map.1 hmessage
    apply length_delivered_lt hrun hroom hsession delivery
    rw [hsplit]
    exact List.mem_append_left _ hdelivery

/-- From the room to the worklet of a web page: what a socket receives is, in
order, what the room delivered to its session, and what the page posts is a
selection of what it received, in order.  Every packet posted is a mix of packets
that came from others than the session it was sent to. -/
theorem page_hears_others {connection : Nat → Nat}
    {pageEvents : List PageEvent} {page : VoicePage} {calls : List PageCall}
    (hrun : run (step generateWebsocketAccept) (new useSsl) events =
      some (final, datagrams))
    (hpage : run VoicePage.step VoicePage.new pageEvents = some (page, calls))
    (hhears : final.Hears connection pageEvents) :
    ∃ deliveries, run RoomManager.step RoomManager.new
        (partEvents (step generateWebsocketAccept)
          (roomEvents generateWebsocketAccept) (new useSsl) events) =
        some (final.room, deliveries) ∧
      (∀ socket, VoicePage.received socket pageEvents <+:
        (deliveriesTo (connection socket) deliveries).map fun delivery =>
          (true, delivery.mixedPacket.data)) ∧
      (VoicePage.posted calls).Sublist
        (DropOldest.pushes (VoicePage.bufferEvents pageEvents)) ∧
      ∀ packet ∈ VoicePage.posted calls, ∃ socket session,
        (true, packet) ∈ VoicePage.received socket pageEvents ∧
        final.sessions[connection socket]? = some session ∧
        ∃ parts : List AudioPacket, parts ≠ [] ∧
          packet = (AudioMixer.mix parts).data ∧
          ∀ part ∈ parts, FromOther generateWebsocketAccept useSsl events
            session.uuid part := by
  obtain ⟨deliveries, hroom, -⟩ := served_of_run hrun
  have hprefixes : ∀ socket, VoicePage.received socket pageEvents <+:
      (deliveriesTo (connection socket) deliveries).map fun delivery =>
        (true, delivery.mixedPacket.data) := by
    intro socket
    by_cases hnone : VoicePage.received socket pageEvents = []
    · rw [hnone]
      exact List.nil_prefix
    obtain ⟨session, messages, hsession, hparse, hreceived⟩ :=
      hhears socket hnone
    obtain ⟨done, hdone, hwritten⟩ := written_parses hrun hroom hsession
    obtain rfl := Option.some.inj (hparse.symm.trans hwritten)
    rw [List.map_map] at hreceived
    refine hreceived.trans ((hdone.map _).trans ?_)
    simp [Function.comp_def]
  refine ⟨deliveries, hroom, hprefixes, VoicePage.posted_sublist hpage, ?_⟩
  intro packet hpacket
  obtain ⟨socket, hreceived⟩ := VoicePage.mem_received_of_pushed
    ((VoicePage.posted_sublist hpage).subset hpacket)
  obtain ⟨session, messages, hsession, -⟩ :=
    hhears socket (List.ne_nil_of_mem hreceived)
  refine ⟨socket, session, hreceived, hsession, ?_⟩
  obtain ⟨delivery, hdelivery, hdata⟩ :=
    List.mem_map.1 ((hprefixes socket).subset hreceived)
  obtain ⟨hne, hparts⟩ := session_parts hrun hroom hsession hdelivery
  exact ⟨_, hne, (Prod.mk.inj hdata).2.symm, hparts⟩

/-- A web page is connected, a native client speaks, and a tick mixes it. -/
def spokenRun : List ServerEvent :=
  [.accepted "a", .completed 0 0 (.request (some WebSocketSession.sampleRequest)),
    .completed 0 0 (.response
      (handshakeResponse (WebSocketSession.sampleAccept [])) true),
    .received 0 ⟨10, 0, 0, 7, 50000⟩ [100, 0],
    .mixed 20000000 ⟨["a", "10.0.0.7:50000"], ["10.0.0.7:50000"],
      ["10.0.0.7:50000"]⟩,
    .completed 0 0 (.frame [0x82, 2, 50, 0] true)]

/-- The page plays the packet. -/
def listening : List PageEvent :=
  [.connect true, .onopen 0, .startAudio, .mediaGranted .loading,
    .moduleLoaded .connected, .onmessage 0 true [50, 0], .interval 0]

theorem spokenRun_written :
    ∃ final datagrams, run (step WebSocketSession.sampleAccept) (new false)
        spokenRun = some (final, datagrams) ∧
      final.Hears (fun _ => 0) listening := by
  have hchecked : (run (step WebSocketSession.sampleAccept) (new false)
      spokenRun).any (fun result => decide (result.1.sessions[0]?.map
        (fun session => Rfc6455.parseStream
          (session.written.filterMap WebSocketSession.frameIn).flatten) =
        some (some [(WebSocketOpCode.binary.nibble, [50, 0])]))) = true := by
    decide +kernel
  obtain ⟨⟨final, datagrams⟩, hrun, hwritten⟩ := (Option.any_eq_true _ _).1 hchecked
  obtain ⟨session, hsession, hparse⟩ :=
    Option.map_eq_some_iff.1 (of_decide_eq_true hwritten)
  refine ⟨final, datagrams, hrun, fun socket hreceived => ?_⟩
  rcases socket with - | socket
  · exact ⟨session, _, hsession, hparse, List.prefix_rfl⟩
  · exact absurd rfl hreceived

theorem page_hears_others_listening :
    ∃ final datagrams deliveries,
      run (step WebSocketSession.sampleAccept) (new false) spokenRun =
        some (final, datagrams) ∧
      run RoomManager.step RoomManager.new
        (partEvents (step WebSocketSession.sampleAccept)
          (roomEvents WebSocketSession.sampleAccept) (new false) spokenRun) =
        some (final.room, deliveries) ∧
      (∀ socket, VoicePage.received socket listening <+:
        (deliveriesTo 0 deliveries).map fun delivery =>
          (true, delivery.mixedPacket.data)) ∧
      [[50, 0]].Sublist
        (DropOldest.pushes (VoicePage.bufferEvents listening)) ∧
      ∀ packet ∈ [[50, 0]], ∃ socket session,
        (true, packet) ∈ VoicePage.received socket listening ∧
        final.sessions[0]? = some session ∧
        ∃ parts : List AudioPacket, parts ≠ [] ∧
          packet = (AudioMixer.mix parts).data ∧
          ∀ part ∈ parts, FromOther WebSocketSession.sampleAccept false
            spokenRun session.uuid part := by
  obtain ⟨final, datagrams, hrun, hhears⟩ := spokenRun_written
  have hpage : ∃ page, run VoicePage.step VoicePage.new listening =
      some (page, [.postMessage 0 [50, 0]]) := ⟨_, rfl⟩
  obtain ⟨page, hpage⟩ := hpage
  obtain ⟨deliveries, hroom, hall⟩ := page_hears_others hrun hpage hhears
  exact ⟨final, datagrams, deliveries, hrun, hroom, hall⟩

end VoiceChatServer

end VoiceServer

/-
The sizes of the datagrams that the server sends.  A mix is as long as the
longest packet in it, and a packet is as long as what one read delivered: a
WebSocket client may send longer ones than a UDP client can receive.
-/
import VoiceServer.VoiceChatClient

namespace VoiceServer

namespace AudioMixer

/-- A byte beyond the last whole sample is not mixed. -/
theorem length_mix_le_iff (packets : List AudioPacket) (bound : Nat) :
    (mix packets).data.length ≤ 2 * bound ↔
      ∀ packet ∈ packets, packet.data.length ≤ 2 * bound + 1 := by
  rw [length_mix, Nat.mul_le_mul_left_iff Nat.two_pos, maxSampleCount_le_iff]
  refine forall₂_congr fun packet _ => ?_
  omega

end AudioMixer

namespace VoiceChatServer

/-- No packet waiting for a UDP client has more samples than its receive buffer
can hold. -/
def ShortForUdp (server : VoiceChatServer) : ServerEvent → Prop
  | .mixed now _ => ∀ id endpoint speaker packets,
      server.room.clients.lookup id = some (.udp endpoint) → speaker ≠ id →
      server.room.audioBuffers.lookup speaker = some packets →
      server.room.Recent now speaker →
      ∀ packet ∈ packets,
        packet.data.length ≤ NetworkManager.recvBufferSize + 1
  | _ => True

variable {generateWebsocketAccept : List UInt8 → List UInt8}
  {server next : VoiceChatServer} {out : List Datagram}

/-- Only a tick sends. -/
theorem nothing_sent {event : ServerEvent}
    (hstep : server.step generateWebsocketAccept event = some (next, out))
    (hother : ∀ now walk, event ≠ .mixed now walk) : out = [] := by
  cases event with
  | mixed now walk => exact absurd rfl (hother now walk)
  | completed index now completion =>
      simp only [step] at hstep
      cases hsession : server.sessions[index]? with
      | none => simp [hsession] at hstep
      | some session =>
          simp only [hsession, Option.map_eq_some_iff, Prod.mk.injEq] at hstep
          obtain ⟨-, -, -, hnone⟩ := hstep
          exact hnone.symm
  | received now endpoint bytes =>
      simp only [step] at hstep
      split at hstep
      all_goals exact (Prod.mk.inj (Option.some.inj hstep)).2.symm
  | _ => exact (Prod.mk.inj (Option.some.inj hstep)).2.symm

/-- What is sent at one step. -/
theorem datagrams_short_iff (htracked : server.RoomTracked)
    {event : ServerEvent}
    (hstep : server.step generateWebsocketAccept event = some (next, out)) :
    (∀ datagram ∈ out,
        datagram.packet.data.length ≤ NetworkManager.recvBufferSize) ↔
      server.ShortForUdp event := by
  cases event with
  | mixed now walk =>
      simp only [step, Option.ite_none_right_eq_some, Option.map_eq_some_iff,
        Prod.exists, Prod.mk.injEq] at hstep
      obtain ⟨-, room, deliveries, htick, -, rfl⟩ := hstep
      obtain ⟨history, htracks⟩ := htracked
      have hticked := RoomManager.ticked_of_step htracks.recorded htick
      have horder := hticked.buffers_order
      have hlength : ∀ delivery ∈ deliveries,
          delivery.mixedPacket.data.length ≤ NetworkManager.recvBufferSize ↔
          ∀ entry ∈ server.room.heardBy now walk.buffers delivery.listener,
            entry.2.data.length ≤ NetworkManager.recvBufferSize + 1 := by
        intro delivery hdelivery
        obtain ⟨-, -, hpackets⟩ := hticked.mem_deliveries_iff.1 hdelivery
        rw [Delivery.mixedPacket, hpackets]
        exact (AudioMixer.length_mix_le_iff _ 8192).trans List.forall_mem_map
      constructor
      · intro hall id endpoint speaker packets hclient hne hpackets hrecent
          packet hpacket
        have hheard : (speaker, packet) ∈
            server.room.heardBy now walk.buffers id :=
          (RoomManager.mem_heardBy_iff horder).2
            ⟨hne, hrecent, packets, hpackets, hpacket⟩
        have hdelivery : ⟨id, .udp endpoint,
            server.room.heardBy now walk.buffers id⟩ ∈ deliveries :=
          hticked.mem_deliveries_iff.2
            ⟨hclient, List.ne_nil_of_mem hheard, rfl⟩
        refine (hlength _ hdelivery).1 ?_ _ hheard
        exact hall _ (List.mem_filterMap.2 ⟨_, hdelivery, rfl⟩)
      · intro hguard datagram hdatagram
        obtain ⟨delivery, hdelivery, hsent⟩ := List.mem_filterMap.1 hdatagram
        obtain ⟨hclient, -, -⟩ := hticked.mem_deliveries_iff.1 hdelivery
        cases hto : delivery.client with
        | webSocket session => simp [datagramOf, hto] at hsent
        | udp endpoint =>
            obtain rfl : ⟨endpoint, delivery.mixedPacket⟩ = datagram := by
              simpa [datagramOf, hto] using hsent
            refine (hlength delivery hdelivery).2 ?_
            intro entry hentry
            obtain ⟨hne, hrecent, packets, hpackets, hpacket⟩ :=
              (RoomManager.mem_heardBy_iff horder).1 hentry
            exact hguard _ endpoint _ packets (hto ▸ hclient) hne hpackets
              hrecent _ hpacket
  | _ =>
      rw [nothing_sent hstep (by simp)]
      simp [ShortForUdp]

theorem roomTracked_of_run {useSsl : Bool} {events : List ServerEvent}
    {final : VoiceChatServer} {sent : List Datagram}
    (hrun : run (step generateWebsocketAccept) (new useSsl) events =
      some (final, sent)) : final.RoomTracked :=
  run_preserves (step generateWebsocketAccept)
    (fun _ _ _ _ htracked hstep => htracked.step (stepped_of_step hstep))
    (roomTracked_new useSsl) hrun

/-- The datagrams sent in a run fit the receive buffer of the client exactly
when no tick finds a longer packet waiting for a UDP client. -/
theorem datagrams_fit_iff {useSsl : Bool} {events : List ServerEvent}
    {final : VoiceChatServer} {sent : List Datagram}
    (hrun : run (step generateWebsocketAccept) (new useSsl) events =
      some (final, sent)) :
    (∀ datagram ∈ sent,
        datagram.packet.data.length ≤ NetworkManager.recvBufferSize) ↔
      StepsMeet (step generateWebsocketAccept) ShortForUdp (new useSsl)
        events := by
  refine forall_output_iff_stepsMeet ?_ hrun
  intro past server out event next new hpast hstep
  exact datagrams_short_iff (roomTracked_of_run hpast) hstep

/-- Two UDP clients speak, and a tick sends each what the other one said. -/
def pairRun : List ServerEvent :=
  let order : List String := ["10.0.0.1:5000", "10.0.0.2:5000"]
  [.received 0 ⟨10, 0, 0, 1, 5000⟩ [100, 0],
    .received 10000000 ⟨10, 0, 0, 2, 5000⟩ [60, 0],
    .mixed 20000000 ⟨order, order, order⟩]

theorem datagrams_fit_iff_pair :
    ∃ final sent, run (step WebSocketSession.sampleAccept) (new false)
        pairRun = some (final, sent) ∧
      sent = [⟨⟨10, 0, 0, 1, 5000⟩, ⟨[30, 0]⟩⟩,
        ⟨⟨10, 0, 0, 2, 5000⟩, ⟨[50, 0]⟩⟩] ∧
      ((∀ datagram ∈ sent,
          datagram.packet.data.length ≤ NetworkManager.recvBufferSize) ↔
        StepsMeet (step WebSocketSession.sampleAccept) ShortForUdp (new false)
          pairRun) := by
  have hsent : (run (step WebSocketSession.sampleAccept) (new false)
      pairRun).map Prod.snd =
      some [⟨⟨10, 0, 0, 1, 5000⟩, ⟨[30, 0]⟩⟩,
        ⟨⟨10, 0, 0, 2, 5000⟩, ⟨[50, 0]⟩⟩] := by
    decide +kernel
  obtain ⟨⟨final, sent⟩, hrun, hsame⟩ := Option.map_eq_some_iff.1 hsent
  exact ⟨final, sent, hrun, hsame, datagrams_fit_iff hrun⟩

/-- A UDP client is there when a WebSocket client has been upgraded. -/
def upgradedRun : List ServerEvent :=
  [.received 0 ⟨10, 0, 0, 1, 5000⟩ [100, 0], .accepted "a",
    .completed 0 0 (.request (some WebSocketSession.sampleRequest)),
    .completed 0 0 (.response
      (handshakeResponse (WebSocketSession.sampleAccept [])) true)]

/-- Binary, 16386 bytes. -/
def longMessage : ClientMessage :=
  plain .binary 16386 (by decide)

/-- The session hands the message over and reads on. -/
theorem complete_longMessage :
    WebSocketSession.sampleSession.complete WebSocketSession.sampleAccept
        (.frames (some longMessage.frame)) =
      some (WebSocketSession.sampleSession, [longMessage.content]) := by
  have hread := readCalls_frame longMessage []
  rw [List.append_nil] at hread
  have hlength : longMessage.frame.length = 16394 := by
    rw [longMessage.length_frame, longMessage, plain, List.length_replicate]
    rfl
  have hne : longMessage.frame ≠ [] := by
    rw [← List.length_pos_iff, hlength]
    omega
  rw [WebSocketSession.complete, if_pos]
  · simp [WebSocketSession.onFrames, hread, WebSocketSession.sampleSession,
      WebSocketSession.doRead]
  · refine ⟨by decide, ?_⟩
    rintro read ⟨⟩
    exact ⟨hne, by rw [hlength]; decide⟩

theorem datagrams_too_long :
    ¬ ∀ events final sent,
      run (step WebSocketSession.sampleAccept) (new false) events =
        some (final, sent) →
      ∀ datagram ∈ sent,
        datagram.packet.data.length ≤ NetworkManager.recvBufferSize := by
  intro hclaim
  have hupgraded : (run (step WebSocketSession.sampleAccept) (new false)
      upgradedRun).map (fun result => (result.1.sessions, result.1.mixing,
        result.1.room.clients.lookup "10.0.0.1:5000",
        result.1.room.audioBuffers.lookup "a")) =
      some ([WebSocketSession.sampleSession], true,
        some (.udp ⟨10, 0, 0, 1, 5000⟩), none) := by
    decide +kernel
  obtain ⟨⟨server, sent⟩, hrun, hfacts⟩ := Option.map_eq_some_iff.1 hupgraded
  simp only [Prod.mk.injEq] at hfacts
  obtain ⟨hsessions, hmixing, hclient, hbuffer⟩ := hfacts
  -- The message goes to the room, which is then walked in some order.
  let spoken := { server with
    room := server.room.processAudio 0 "a" ⟨longMessage.payload⟩ }
  have hread : server.step WebSocketSession.sampleAccept
      (.completed 0 0 (.frames (some longMessage.frame))) =
        some (spoken, []) := by
    simp only [step, hsessions, List.getElem?_cons_zero, complete_longMessage,
      Option.map_some, List.set_cons_zero]
    rw [← hsessions]
    rfl
  obtain ⟨walk, hwalks⟩ := RoomManager.exists_walks spoken.room 0
  obtain ⟨final, out, htick⟩ : ∃ final out,
      spoken.step WebSocketSession.sampleAccept (.mixed 0 walk) =
        some (final, out) := by
    simp [step, spoken, hmixing, RoomManager.step_tick hwalks]
  have hspoken := (run_concat_eq_some _).2 ⟨server, sent, [], hrun, hread, rfl⟩
  have hall := hclaim _ _ _ ((run_concat_eq_some _).2
    ⟨spoken, _, out, hspoken, htick, rfl⟩)
  have hshort := (datagrams_short_iff (roomTracked_of_run hspoken) htick).1
    fun datagram hdatagram => hall datagram (List.mem_append_right _ hdatagram)
  have hlong := hshort "10.0.0.1:5000" ⟨10, 0, 0, 1, 5000⟩ "a"
    [⟨longMessage.payload⟩] hclient (by decide)
    (by simp [spoken, RoomManager.processAudio, hbuffer, maxBufferSize])
    (by simp [spoken, RoomManager.processAudio, RoomManager.Recent,
      activityTimeout]) ⟨longMessage.payload⟩ (by simp)
  rw [show longMessage.payload.length = 16386 from
    List.length_replicate ..] at hlong
  exact absurd hlong (by decide)

end VoiceChatServer

end VoiceServer

/-
The order of the writes on a session's stream.  A session orders its own
handshake and frames; what is missing is that the room waits for the handshake
before it sends, since a session is registered before it is started.
-/
import VoiceServer.VoiceChatServer

namespace VoiceServer

namespace WebSocketSession

/-- The whole 101 response has been written. -/
def Upgraded (session : WebSocketSession) : Prop :=
  ∃ bytes, StreamWrite.response bytes ∈ session.written

/-- At most one write is outstanding, and a frame is being written only after
the response. -/
structure WritesInOrder (session : WebSocketSession) : Prop where
  single : session.responding.length + session.writing.length ≤ 1
  response : session.writing ≠ [] → session.Upgraded

/-- Before the upgrade nothing is queued and one operation of the handshake is
outstanding; after it only reads and one frame write are. -/
structure Orderly (session : WebSocketSession) : Prop where
  before : ¬ session.Upgraded → session.writeQueue = [] ∧
    session.writing = [] ∧
    session.reading.length + session.responding.length ≤ 1
  after : session.Upgraded → session.responding = [] ∧
    session.writing.length ≤ 1 ∧
    (session.writeQueue = [] → session.writing = []) ∧
    ∀ op ∈ session.reading, op = .frames

theorem Orderly.writesInOrder {session : WebSocketSession}
    (horderly : session.Orderly) : session.WritesInOrder := by
  by_cases hupgraded : session.Upgraded
  · obtain ⟨hresponding, hwriting, -⟩ := horderly.after hupgraded
    refine ⟨?_, fun _ => hupgraded⟩
    rw [hresponding, List.length_nil, Nat.zero_add]
    exact hwriting
  · obtain ⟨-, hwriting, hone⟩ := horderly.before hupgraded
    refine ⟨?_, fun hne => absurd hwriting hne⟩
    rw [hwriting, List.length_nil, Nat.add_zero]
    exact (Nat.le_add_left ..).trans hone

theorem orderly_of_before {session : WebSocketSession}
    (hnot : ¬ session.Upgraded) (hqueue : session.writeQueue = [])
    (hwriting : session.writing = [])
    (hone : session.reading.length + session.responding.length ≤ 1) :
    session.Orderly :=
  ⟨fun _ => ⟨hqueue, hwriting, hone⟩, fun hupgraded => absurd hupgraded hnot⟩

theorem orderly_new (uuid : String) (useSsl : Bool) :
    (new uuid useSsl).start.Orderly := by
  have hwritten : (new uuid useSsl).start.written = [] := by
    cases useSsl <;> rfl
  have hnot : ¬ (new uuid useSsl).start.Upgraded := by
    rintro ⟨bytes, hbytes⟩
    rw [hwritten] at hbytes
    simp at hbytes
  cases useSsl <;> exact orderly_of_before hnot rfl rfl le_rfl

section Step

variable {session next : WebSocketSession} {event : SessionEvent}

theorem erase_singleton {A : Type*} [BEq A] [LawfulBEq A] {list : List A}
    {a : A} (hmem : a ∈ list) (hone : list.length ≤ 1) : list.erase a = [] := by
  have hlength := List.length_erase_of_mem hmem
  rw [← List.length_eq_zero_iff]
  omega

theorem written_isPrefix (hstepped : Stepped session event next) :
    session.written <+: next.written := by
  cases hstepped with
  | upgraded bytes hop => exact List.prefix_append _ _
  | drained bytes hop hlast => exact List.prefix_append _ _
  | continued bytes front rest hop hmore => exact List.prefix_append _ _
  | _ => exact List.prefix_rfl

theorem Upgraded.of_isPrefix (hupgraded : session.Upgraded)
    (hwritten : session.written <+: next.written) : next.Upgraded :=
  hupgraded.imp fun _ hresponse => hwritten.subset hresponse

theorem Upgraded.step (hupgraded : session.Upgraded)
    (hstep : Stepped session event next) : next.Upgraded :=
  hupgraded.of_isPrefix (written_isPrefix hstep)

/-- After the upgrade any step is in order. -/
theorem Orderly.step_upgraded (horderly : session.Orderly)
    (hupgraded : session.Upgraded) (hstep : Stepped session event next) :
    next.Orderly := by
  obtain ⟨hresponding, hone, hidle, hreading⟩ := horderly.after hupgraded
  have hnext : next.Upgraded := hupgraded.step hstep
  refine ⟨fun hnot => absurd hnext hnot, fun _ => ?_⟩
  cases hstep with
  | started message opcode hempty =>
      have hwriting := hidle hempty
      exact ⟨hresponding, by simp [hwriting], by simp, hreading⟩
  | queued message opcode hbusy =>
      exact ⟨hresponding, hone, by simp, hreading⟩
  | secured hop => exact absurd (hreading _ hop) (by decide)
  | answered request response hop hkey =>
      exact absurd (hreading _ hop) (by decide)
  | upgraded bytes hop => simp [hresponding] at hop
  | received bytes hop =>
      refine ⟨hresponding, hone, hidle, ?_⟩
      intro op hmem
      rcases List.mem_append.1 hmem with hmem | hmem
      · exact hreading op (List.mem_of_mem_erase hmem)
      · exact List.mem_singleton.1 hmem
  | drained bytes hop hlast =>
      have hgone := erase_singleton hop hone
      have hzero := congrArg List.length hgone
      exact ⟨hresponding, hzero.trans_le (Nat.zero_le 1), fun _ => hgone,
        hreading⟩
  | continued bytes front rest hop hmore =>
      have hgone := erase_singleton hop hone
      refine ⟨hresponding, ?_, by simp, hreading⟩
      change (session.writing.erase bytes ++ [front]).length ≤ 1
      rw [hgone]
      exact le_rfl
  | readFailed op completion error hop hfailed hread =>
      exact ⟨hresponding, hone, hidle,
        fun other hmem => hreading other (List.mem_of_mem_erase hmem)⟩
  | responseFailed bytes hop => simp [hresponding] at hop
  | frameFailed bytes hop =>
      have hgone := erase_singleton hop hone
      have hzero := congrArg List.length hgone
      exact ⟨hresponding, hzero.trans_le (Nat.zero_le 1), fun _ => hgone,
        hreading⟩

/-- During the handshake every step but a send is in order. -/
theorem Orderly.step_handshake (horderly : session.Orderly)
    (hnot : ¬ session.Upgraded) (hstep : Stepped session event next)
    (hsend : ∀ message opcode, event ≠ .send message opcode) :
    next.Orderly := by
  obtain ⟨hqueue, hwriting, hone⟩ := horderly.before hnot
  cases hstep with
  | started message opcode hempty =>
      exact absurd rfl (hsend message opcode)
  | queued message opcode hbusy => exact absurd hqueue hbusy
  | secured hop =>
      refine orderly_of_before hnot hqueue hwriting ?_
      have hlength := List.length_erase_add_one hop
      simp only [List.length_append, List.length_singleton]
      omega
  | answered request response hop hkey =>
      refine orderly_of_before hnot hqueue hwriting ?_
      have hlength := List.length_erase_add_one hop
      simp only [List.length_append, List.length_singleton]
      omega
  | upgraded bytes hop =>
      refine ⟨fun hnever => absurd ⟨bytes, by simp⟩ hnever, fun _ => ?_⟩
      have hlength := List.length_pos_of_mem hop
      have hempty : session.reading = [] :=
        List.eq_nil_of_length_eq_zero (by omega)
      refine ⟨erase_singleton hop (by omega), ?_, fun _ => hwriting, ?_⟩
      · simp [hwriting]
      · simp [hempty]
  | received bytes hop =>
      refine orderly_of_before hnot hqueue hwriting ?_
      have hlength := List.length_erase_add_one hop
      simp only [List.length_append, List.length_singleton]
      omega
  | drained bytes hop hlast => simp [hwriting] at hop
  | continued bytes front rest hop hmore => simp [hwriting] at hop
  | readFailed op completion error hop hfailed hread =>
      refine orderly_of_before hnot hqueue hwriting ?_
      have hlength := List.length_erase_add_one hop
      change (session.reading.erase op).length +
        session.responding.length ≤ 1
      omega
  | responseFailed bytes hop =>
      refine orderly_of_before hnot hqueue hwriting ?_
      have hlength := List.length_erase_add_one hop
      change session.reading.length +
        (session.responding.erase bytes).length ≤ 1
      omega
  | frameFailed bytes hop => simp [hwriting] at hop

/-- A session keeps its writes in order if nothing is sent before the
upgrade. -/
theorem Orderly.step (horderly : session.Orderly)
    (hstep : Stepped session event next)
    (hsend : ∀ message opcode, event = .send message opcode →
      session.Upgraded) : next.Orderly := by
  by_cases hupgraded : session.Upgraded
  · exact horderly.step_upgraded hupgraded hstep
  · exact horderly.step_handshake hupgraded hstep fun message opcode heq =>
      hupgraded (hsend message opcode heq)

/-- Without sends the queue stays empty. -/
theorem writeQueue_of_not_send (hqueue : session.writeQueue = [])
    (hstep : Stepped session event next)
    (hsend : ∀ message opcode, event ≠ .send message opcode) :
    next.writeQueue = [] := by
  cases hstep with
  | started message opcode hidle => exact absurd rfl (hsend message opcode)
  | queued message opcode hbusy => exact absurd rfl (hsend message opcode)
  | drained bytes hop hlast => rfl
  | continued bytes front rest hop hmore => simp [hqueue] at hmore
  | _ => exact hqueue

end Step

/-- A handshake during which nothing is sent leaves the session quiet. -/
theorem quiet_of_handshake {generateWebsocketAccept : List UInt8 → List UInt8}
    {uuid : String} {useSsl : Bool} {events : List SessionEvent}
    {final : WebSocketSession} {calls : List Message}
    (hrun : run (step generateWebsocketAccept) (new uuid useSsl).start events =
      some (final, calls))
    (hsend : ∀ event ∈ events, ∀ message opcode, event ≠ .send message opcode)
    (hupgraded : final.Upgraded) : final.Quiet := by
  rw [← stepsMeet_iff_forall_mem hrun] at hsend
  have hstart : (new uuid useSsl).start.Orderly ∧
      (new uuid useSsl).start.writeQueue = [] := by
    refine ⟨orderly_new uuid useSsl, ?_⟩
    cases useSsl <;> rfl
  have hkeep : ∀ session event next outs,
      (session.Orderly ∧ session.writeQueue = []) →
      (∀ message opcode, event ≠ .send message opcode) →
      step generateWebsocketAccept session event = some (next, outs) →
      next.Orderly ∧ next.writeQueue = [] := by
    rintro session event next outs ⟨horderly, hqueue⟩ hnot hstep
    have hstepped := stepped_of_step hstep
    exact ⟨horderly.step hstepped fun message opcode heq =>
      absurd heq (hnot message opcode),
      writeQueue_of_not_send hqueue hstepped hnot⟩
  obtain ⟨horderly, hqueue⟩ := hsend.invariant hkeep hstart hrun
  obtain ⟨hresponding, -, hidle, -⟩ := horderly.after hupgraded
  exact ⟨hqueue, hidle hqueue, hresponding⟩

end WebSocketSession

namespace VoiceChatServer

open WebSocketSession

/-- Every session has its writes in order. -/
def InOrder (server : VoiceChatServer) : Prop :=
  ∀ session ∈ server.sessions, session.WritesInOrder

/-- A tick finds audio waiting only for sessions that have been upgraded. -/
def AudioAfterUpgrade (server : VoiceChatServer) : ServerEvent → Prop
  | .mixed now _ => ∀ id index session,
      server.room.clients.lookup id = some (.webSocket index) →
      server.room.Waiting now id →
      server.sessions[index]? = some session → session.Upgraded
  | _ => True

/-- What the order of the writes rests on. -/
structure Ordered (server : VoiceChatServer) : Prop where
  room : server.RoomTracked
  sessions : ∀ session ∈ server.sessions, session.Orderly

section Sends

variable {sessions : List WebSocketSession}
  {deliveries : List (Delivery String Client)}

theorem upgraded_send {session : WebSocketSession} (message : List UInt8)
    (opcode : WebSocketOpCode) :
    (session.send message opcode).Upgraded ↔ session.Upgraded := by
  rw [Upgraded, Upgraded, (send_frame session message opcode).1]

/-- Sends to upgraded sessions keep every session orderly. -/
theorem orderly_foldl_send
    (horderly : ∀ session ∈ sessions, session.Orderly)
    (hupgraded : ∀ delivery ∈ deliveries, ∀ index session,
      delivery.client = .webSocket index → sessions[index]? = some session →
      session.Upgraded) :
    ∀ session ∈ deliveries.foldl sendToSession sessions, session.Orderly := by
  induction deliveries generalizing sessions with
  | nil => exact horderly
  | cons head rest ih =>
      obtain ⟨hhead, hrest⟩ := List.forall_mem_cons.1 hupgraded
      apply ih
      · intro session hsession
        obtain ⟨index, hindex⟩ := List.mem_iff_getElem?.1 hsession
        rw [getElem?_sendToSession] at hindex
        by_cases hclient : head.client = .webSocket index
        · rw [if_pos hclient, Option.map_eq_some_iff] at hindex
          obtain ⟨before, hbefore, rfl⟩ := hindex
          exact (horderly before (List.mem_of_getElem? hbefore)).step
            (stepped_send before _ _)
            fun _ _ _ => hhead index before hclient hbefore
        · rw [if_neg hclient] at hindex
          exact horderly session (List.mem_of_getElem? hindex)
      · intro delivery hdelivery index session hclient hindex
        rw [getElem?_sendToSession] at hindex
        by_cases hsame : head.client = .webSocket index
        · rw [if_pos hsame, Option.map_eq_some_iff] at hindex
          obtain ⟨before, hbefore, rfl⟩ := hindex
          exact (upgraded_send ..).2
            (hrest delivery hdelivery index before hclient hbefore)
        · rw [if_neg hsame] at hindex
          exact hrest delivery hdelivery index session hclient hindex

/-- A frame write started before the upgrade is not undone by more sends. -/
theorem premature_foldl_send {index : Nat}
    (hpremature : ∃ session, sessions[index]? = some session ∧
      session.writing ≠ [] ∧ ¬ session.Upgraded) :
    ∃ session, (deliveries.foldl sendToSession sessions)[index]? =
        some session ∧ session.writing ≠ [] ∧ ¬ session.Upgraded := by
  induction deliveries generalizing sessions with
  | nil => exact hpremature
  | cons head rest ih =>
      obtain ⟨session, hsession, hwriting, hnot⟩ := hpremature
      apply ih
      rw [getElem?_sendToSession]
      by_cases hclient : head.client = .webSocket index
      · refine ⟨session.send head.mixedPacket.data .binary, ?_, ?_, ?_⟩
        · rw [if_pos hclient, hsession]
          rfl
        · exact (send_frame session head.mixedPacket.data .binary).2.2.1
            hwriting
        · rwa [upgraded_send]
      · exact ⟨session, by rw [if_neg hclient, hsession], hwriting, hnot⟩

/-- A send to a session with an empty queue starts a write at once. -/
theorem premature_of_send {index : Nat} {session : WebSocketSession}
    (hsession : sessions[index]? = some session)
    (hidle : session.writeQueue = []) (hnot : ¬ session.Upgraded)
    {delivery : Delivery String Client} (hdelivery : delivery ∈ deliveries)
    (hclient : delivery.client = .webSocket index) :
    ∃ session, (deliveries.foldl sendToSession sessions)[index]? =
        some session ∧ session.writing ≠ [] ∧ ¬ session.Upgraded := by
  induction deliveries generalizing sessions with
  | nil => simp at hdelivery
  | cons head rest ih =>
      rw [List.foldl_cons]
      by_cases hhead : head.client = .webSocket index
      · apply premature_foldl_send
        refine ⟨session.send head.mixedPacket.data .binary, ?_, ?_, ?_⟩
        · rw [getElem?_sendToSession, if_pos hhead, hsession]
          rfl
        · exact (send_frame session head.mixedPacket.data .binary).2.2.2
            hidle
        · rwa [upgraded_send]
      · have hrest : delivery ∈ rest := by
          rcases List.mem_cons.1 hdelivery with rfl | hrest
          · exact absurd hclient hhead
          · exact hrest
        apply ih _ hrest
        rw [getElem?_sendToSession, if_neg hhead, hsession]

end Sends

variable {generateWebsocketAccept : List UInt8 → List UInt8}
  {server next : VoiceChatServer} {out : List Datagram}

/-- The guard, on the deliveries of the tick. -/
theorem upgraded_of_delivery {room : RoomManager String Client} {now : Int}
    {walk : Walk String} {deliveries : List (Delivery String Client)}
    (hticked : RoomManager.Ticked server.room room now walk deliveries) :
    server.AudioAfterUpgrade (.mixed now walk) ↔
      ∀ delivery ∈ deliveries, ∀ index session,
        delivery.client = .webSocket index →
        server.sessions[index]? = some session → session.Upgraded := by
  constructor
  · intro hguard delivery hdelivery index session hclient hsession
    obtain ⟨hlookup, hne, hpackets⟩ := hticked.mem_deliveries_iff.1 hdelivery
    refine hguard delivery.listener index session (hclient ▸ hlookup) ?_ hsession
    rw [← RoomManager.heardBy_ne_nil_iff hticked.buffers_order, ← hpackets]
    exact hne
  · intro hall id index session hlookup hwaiting hsession
    have hheard :=
      (RoomManager.heardBy_ne_nil_iff hticked.buffers_order).2 hwaiting
    exact hall ⟨id, .webSocket index, server.room.heardBy now walk.buffers id⟩
      (hticked.mem_deliveries_iff.2 ⟨hlookup, hheard, rfl⟩) index session rfl
      hsession

theorem Ordered.step (hordered : server.Ordered) {event : ServerEvent}
    (hguard : server.AudioAfterUpgrade event)
    (hstepped : Stepped server event next) : next.Ordered := by
  refine ⟨hordered.room.step hstepped, ?_⟩
  have hsessions := hordered.sessions
  cases hstepped with
  | accepted uuid =>
      intro session hsession
      rcases List.mem_append.1 hsession with hold | hnew
      · exact hsessions session hold
      · rw [List.mem_singleton.1 hnew]
        exact orderly_new uuid server.useSsl
  | completed index now completion before after calls hbefore hafter =>
      intro session hsession
      rcases List.mem_or_eq_of_mem_set hsession with hold | rfl
      · exact hsessions session hold
      · exact (hsessions before (List.mem_of_getElem? hbefore)).step hafter
          (by simp)
  | received now endpoint bytes hne => rwa [sessions_handleReceive]
  | mixed now walk room deliveries htick =>
      obtain ⟨history, htracks⟩ := hordered.room
      have hticked := RoomManager.ticked_of_step htracks.recorded htick
      exact orderly_foldl_send hsessions
        ((upgraded_of_delivery hticked).1 hguard)
  | _ => exact hsessions

/-- A tick with audio for a session that is not upgraded starts a frame write
on its stream. -/
theorem Ordered.not_inOrder (hordered : server.Ordered) {event : ServerEvent}
    (hguard : ¬ server.AudioAfterUpgrade event)
    (hstepped : Stepped server event next) : ¬ next.InOrder := by
  cases hstepped with
  | mixed now walk room deliveries htick =>
      obtain ⟨history, htracks⟩ := hordered.room
      have hticked := RoomManager.ticked_of_step htracks.recorded htick
      rw [upgraded_of_delivery hticked] at hguard
      push Not at hguard
      obtain ⟨delivery, hdelivery, index, session, hclient, hsession, hnot⟩ :=
        hguard
      have horderly :=
        hordered.sessions session (List.mem_of_getElem? hsession)
      obtain ⟨sent, hsent, hwriting, hpremature⟩ := premature_of_send hsession
        (horderly.before hnot).1 hnot hdelivery hclient
      intro hinOrder
      exact hpremature
        ((hinOrder sent (List.mem_of_getElem? hsent)).response hwriting)
  | _ => exact absurd trivial hguard

/-- All along a run every session has its writes in order exactly when every
tick of the run finds audio waiting only for sessions already upgraded. -/
theorem in_order_iff {useSsl : Bool} {events : List ServerEvent}
    {final : VoiceChatServer} {sent : List Datagram}
    (hrun : run (step generateWebsocketAccept) (new useSsl) events =
      some (final, sent)) :
    Along (step generateWebsocketAccept) InOrder (new useSsl) events ↔
      StepsMeet (step generateWebsocketAccept) AudioAfterUpgrade (new useSsl)
        events := by
  have hstart : (new useSsl).Ordered :=
    ⟨roomTracked_new useSsl, by simp [new]⟩
  refine along_iff_stepsMeet ?_ ?_ ?_ hstart hrun
  · intro server hordered session hsession
    exact (hordered.sessions session hsession).writesInOrder
  · intro server event next out hordered hguard hstep
    exact hordered.step hguard (stepped_of_step hstep)
  · intro server event next out hordered hguard hstep
    exact hordered.not_inOrder hguard (stepped_of_step hstep)

/-- A session is upgraded before a tick mixes a datagram for it, and the frame is
written. -/
def upgradedTick : List ServerEvent :=
  [.accepted "a", .completed 0 0 (.request (some sampleRequest)),
    .completed 0 0 (.response (handshakeResponse (sampleAccept [])) true),
    .received 0 ⟨10, 0, 0, 1, 5000⟩ [100, 0],
    .mixed 20000000 ⟨["a", "10.0.0.1:5000"], ["10.0.0.1:5000"],
      ["10.0.0.1:5000"]⟩,
    .completed 0 30000000 (.frame [0x82, 2, 50, 0] true)]

theorem in_order_iff_upgraded :
    ∃ final sent, run (step sampleAccept) (new false) upgradedTick =
        some (final, sent) ∧
      (Along (step sampleAccept) InOrder (new false) upgradedTick ↔
        StepsMeet (step sampleAccept) AudioAfterUpgrade (new false)
          upgradedTick) := by
  have hsome : (run (step sampleAccept) (new false) upgradedTick).isSome =
      true := by
    decide +kernel
  obtain ⟨⟨final, sent⟩, hrun⟩ := Option.isSome_iff_exists.1 hsome
  exact ⟨final, sent, hrun, in_order_iff hrun⟩

/-- A datagram and a tick come between the acceptance of a connection and its
upgrade request: when the request has been answered, a frame and the response
are being written at the same time. -/
def prematureRun : List ServerEvent :=
  [.accepted "a", .received 0 ⟨10, 0, 0, 1, 5000⟩ [100, 0],
    .mixed 20000000 ⟨["a", "10.0.0.1:5000"], ["10.0.0.1:5000"],
      ["10.0.0.1:5000"]⟩,
    .completed 0 30000000 (.request (some sampleRequest))]

theorem not_in_order :
    ¬ ∀ events final sent,
      run (step sampleAccept) (new false) events = some (final, sent) →
      final.InOrder := by
  intro hclaim
  have hcounts : (run (step sampleAccept) (new false) prematureRun).map
      (fun result => result.1.sessions.map fun session =>
        (session.responding.length, session.writing.length)) =
      some [(1, 1)] := by
    decide +kernel
  obtain ⟨⟨final, sent⟩, hrun, hcounts⟩ := Option.map_eq_some_iff.1 hcounts
  obtain ⟨session, hsession, hone⟩ := List.map_eq_singleton_iff.1 hcounts
  have hmem : session ∈ final.sessions := by
    rw [show final.sessions = [session] from hsession]
    exact List.mem_singleton_self session
  have hsingle := (hclaim _ _ _ hrun session hmem).single
  rw [Prod.mk.injEq] at hone
  omega

end VoiceChatServer

end VoiceServer

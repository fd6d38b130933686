/-
The whole: voice clients and the voice server on one network that loses, repeats
and delays datagrams.  What a client plays is traced back, through the room of
the server, to the sound cards and the sessions that it came from.
-/
import VoiceServer.CapturePath
import VoiceServer.ClientPlayback
import VoiceServer.LossyNetwork
import VoiceServer.MixOrigins
import VoiceServer.RoomMembership

namespace VoiceServer

namespace VoiceChatClient

def captured (events : List ClientEvent) : List InputBlock :=
  events.filterMap fun
    | .captured block => some block
    | _ => none

theorem unsent_isSuffix (past : List ClientEvent) :
    unsent past.reverse <:+ captured past := by
  induction past using List.reverseRecOn with
  | nil => exact List.suffix_rfl
  | append_singleton earlier event ih =>
      have hconcat : captured (earlier ++ [event]) =
          captured earlier ++ captured [event] := List.filterMap_append ..
      rw [List.reverse_concat, hconcat]
      cases event with
      | captured block => exact List.suffix_append_self_iff.2 ih
      | sendTick => exact List.nil_suffix
      | received source bytes => exact ih.trans (by simp [captured])
      | receiveFailed => exact ih.trans (by simp [captured])
      | jitterTick => exact ih.trans (by simp [captured])

theorem received_of_lastSource {history : List ClientEvent} {source : Endpoint}
    (hlast : lastSource history = some source) :
    ∃ bytes, .received source bytes ∈ history := by
  induction history with
  | nil => simp [lastSource] at hlast
  | cons event older ih =>
      have hlater : lastSource older = some source →
          ∃ bytes, .received source bytes ∈ event :: older := by
        intro hold
        obtain ⟨bytes, hbytes⟩ := ih hold
        exact ⟨bytes, List.mem_cons_of_mem _ hbytes⟩
      cases event with
      | received other bytes =>
          obtain rfl := Option.some.inj hlast
          exact ⟨bytes, List.mem_cons_self⟩
      | captured block => exact hlater hlast
      | sendTick => exact hlater hlast
      | receiveFailed => exact hlater hlast
      | jitterTick => exact hlater hlast

theorem received_of_arrivals {events : List ClientEvent} {packet : AudioPacket}
    (hpacket : packet ∈ arrivals events) :
    ∃ source bytes, .received source bytes ∈ events ∧
      packet = ⟨bytes.take NetworkManager.recvBufferSize⟩ := by
  induction events with
  | nil => simp [arrivals] at hpacket
  | cons event rest ih =>
      have hlater : packet ∈ arrivals rest →
          ∃ source bytes, .received source bytes ∈ event :: rest ∧
            packet = ⟨bytes.take NetworkManager.recvBufferSize⟩ := by
        intro hrest
        obtain ⟨source, bytes, hreceived, heq⟩ := ih hrest
        exact ⟨source, bytes, List.mem_cons_of_mem _ hreceived, heq⟩
      cases event with
      | received source bytes =>
          rw [arrivals, List.mem_append] at hpacket
          rcases hpacket with hhere | hrest
          · split at hhere
            · exact ⟨source, bytes, List.mem_cons_self,
                List.mem_singleton.1 hhere⟩
            · simp at hhere
          · exact hlater hrest
      | captured block => exact hlater hpacket
      | sendTick => exact hlater hpacket
      | receiveFailed => exact hlater hpacket
      | jitterTick => exact hlater hpacket

/-- Each datagram holds the blocks captured before some send tick and after the
one before, and goes to the endpoint known then. -/
theorem sent_of_run {resolved : Endpoint} {events : List ClientEvent}
    {final : VoiceChatClient} {calls : List ClientCall}
    (hrun : run step (new resolved) events = some (final, calls)) :
    ∀ datagram, .sendTo datagram ∈ calls →
      ∃ past, past <+: events ∧ unsent past.reverse ≠ [] ∧
        datagram = ⟨(lastSource past.reverse).getD resolved,
          ⟨CapturePath.groupBytes (unsent past.reverse)⟩⟩ := by
  intro datagram hdatagram
  obtain ⟨before, after, rfl⟩ := List.append_of_mem hdatagram
  obtain ⟨past, event, later, client, next, first, left, right, rest, rfl, hpast,
    hstep, -, -, -⟩ := exists_step_of_output _ hrun
  obtain ⟨-, hunsent, hsent⟩ :=
    (sendTo_mem_step_iff (follows_of_run hpast) hstep datagram).1 (by simp)
  exact ⟨past, List.prefix_append _ _, hunsent, hsent⟩

end VoiceChatClient

namespace PlayingClient

/-- The network strand of the client runs on its own. -/
theorem client_of_run {next : Int → Int → Int} {resolved : Endpoint}
    {events : List PlayingEvent} {final : PlayingClient}
    {calls : List PlayingCall}
    (hrun : run (step next) (new resolved) events = some (final, calls)) :
    ∃ inner, run VoiceChatClient.step (VoiceChatClient.new resolved)
        (clientEvents events) = some (final.client, inner) ∧
      ∀ datagram, .sendTo datagram ∈ calls → .sendTo datagram ∈ inner := by
  apply run_induction _ (motive := fun past state calls =>
    ∃ inner, run VoiceChatClient.step (VoiceChatClient.new resolved)
        (clientEvents past) = some (state.client, inner) ∧
      ∀ datagram, .sendTo datagram ∈ calls → .sendTo datagram ∈ inner) _ _ hrun
  · exact ⟨[], rfl, by simp⟩
  · rintro past state calls event after more - ⟨inner, hinner, hsent⟩ hstep
    have hconcat : clientEvents (past ++ [event]) =
        clientEvents past ++ clientEvents [event] := List.filterMap_append ..
    rw [hconcat]
    cases event with
    | client event =>
        simp only [step, Option.map_eq_some_iff, Prod.mk.injEq] at hstep
        obtain ⟨⟨client, done⟩, hdone, rfl, rfl⟩ := hstep
        refine ⟨inner ++ done,
          (run_concat_eq_some _).2 ⟨_, _, _, hinner, hdone, rfl⟩, ?_⟩
        intro datagram hdatagram
        rcases List.mem_append.1 hdatagram with hold | hnew
        · exact List.mem_append_left _ (hsent datagram hold)
        · obtain ⟨call, hcall, heq⟩ := List.mem_filterMap.1 hnew
          apply List.mem_append_right
          cases call with
          | sendTo other =>
              obtain rfl : other = datagram := by simpa [sendIn] using heq
              exact hcall
          | receiveCallback packet => simp [sendIn] at heq
    | outputCallback memory =>
        obtain ⟨rfl, rfl⟩ : _ = after ∧ _ = more := by
          simpa only [step, Option.some.injEq, Prod.mk.injEq] using hstep
        refine ⟨inner, by simpa [clientEvents] using hinner, ?_⟩
        intro datagram hdatagram
        apply hsent
        simpa using hdatagram

theorem played_of_run {next : Int → Int → Int} {resolved : Endpoint}
    {events : List PlayingEvent} {final : PlayingClient}
    {calls : List PlayingCall}
    (hrun : run (step next) (new resolved) events = some (final, calls)) :
    ∃ found : List (Option AudioPacket),
      found.reduceOption.Sublist
        (VoiceChatClient.arrivals (clientEvents events)) ∧
      found.length = (cardMemories events).length ∧
      (playedBlocks calls).map PlayedBlock.memory =
        List.zipWith (cardAfter next) (cardMemories events) found ∧
      AudioOutput.played (playedBlocks calls) =
        found.reduceOption.flatMap heard := by
  obtain ⟨left, hqueue, harrivals, hplayed, hcallbacks, hmemory⟩ :=
    accounted_of_run hrun
  have hfound := DropOldest.popped_eq_reduceOption hqueue
  refine ⟨_, ?_, hcallbacks, hmemory, hfound ▸ hplayed⟩
  have hpopped : (DropOldest.popped left).Sublist (left.map Prod.fst) :=
    List.filter_sublist.map _
  rw [← hfound, ← harrivals, ← DropOldest.left_append_queue hqueue]
  exact (hpopped.trans (List.sublist_append_left ..)).trans
    (List.sublist_append_left ..)

end PlayingClient

inductive Party where
  | server (server : VoiceChatServer)
  | client (client : PlayingClient)

/-- `arrived` is a completion of `async_receive_from`, on the socket of either
party; the server reads its clock. -/
inductive PartyEvent where
  | server (event : ServerEvent)
  | client (event : PlayingEvent)
  | arrived (source : Endpoint) (bytes : List UInt8) (now : Int)

inductive PartyCall where
  | server (datagram : Datagram)
  | client (call : PlayingCall)
deriving DecidableEq, Repr

def PartyEvent.forServer : PartyEvent → Option ServerEvent
  | .server event => some event
  | .client _ => none
  | .arrived source bytes now => some (.received now source bytes)

def PartyEvent.forClient : PartyEvent → Option PlayingEvent
  | .server _ => none
  | .client event => some event
  | .arrived source bytes _ => some (.client (.received source bytes))

/-- Datagrams come from the network only. -/
def PartyEvent.own : PartyEvent → Bool
  | .server (.received _ _ _) => false
  | .client (.client (.received _ _)) => false
  | .arrived _ _ _ => false
  | _ => true

def PartyCall.sent : PartyCall → Option (Endpoint × List UInt8)
  | .server datagram => some (datagram.endpoint, datagram.packet.data)
  | .client (.sendTo datagram) => some (datagram.endpoint, datagram.packet.data)
  | .client (.played _) => none

section Parties

variable (generateWebsocketAccept : List UInt8 → List UInt8)
  (next : Int → Int → Int)

def Party.step : Party → PartyEvent → Option (Party × List PartyCall)
  | .server state, event =>
      event.forServer.bind fun one =>
        (state.step generateWebsocketAccept one).map fun done =>
          (.server done.1, done.2.map .server)
  | .client state, event =>
      event.forClient.bind fun one =>
        (state.step next one).map fun done =>
          (.client done.1, done.2.map .client)

def party : Node Endpoint Party PartyEvent PartyCall (List UInt8) Int where
  step := Party.step generateWebsocketAccept next
  own := PartyEvent.own
  sends := PartyCall.sent
  arrival := .arrived

/-- One server, and clients that have resolved its address. -/
def voiceNetwork (useSsl : Bool) (serverAddress : Endpoint)
    (members : List Endpoint) : Network Endpoint Party (List UInt8) where
  hosts address :=
    if address = serverAddress then some (.server (VoiceChatServer.new useSsl))
    else if address ∈ members then
      some (.client (PlayingClient.new serverAddress))
    else none
  inFlight := []

end Parties

namespace VoiceNetwork

def callsOf (address : Endpoint) (outs : List (Endpoint × PartyCall)) :
    List PlayingCall :=
  (Network.outputsOf address outs).filterMap fun
    | .client call => some call
    | .server _ => none

/-- The blocks that the sound card at an address has captured. -/
def capturedAt (address : Endpoint)
    (events : List (NetworkEvent Endpoint PartyEvent Int)) : List InputBlock :=
  events.filterMap fun
    | .act host (.client (.client (.captured block))) =>
        if host = address then some block else none
    | _ => none

/-- The memory that the sound card at an address gave to each callback. -/
def cardMemoriesAt (address : Endpoint)
    (events : List (NetworkEvent Endpoint PartyEvent Int)) : List CardMemory :=
  events.filterMap fun
    | .act host (.client (.outputCallback memory)) =>
        if host = address then some memory else none
    | _ => none

/-- What an event is to a view of the own events of the client at an address. -/
def ownEvent {A : Type} (view : PlayingEvent → Option A) (address : Endpoint) :
    NetworkEvent Endpoint PartyEvent Int → Option A
  | .act host (.client event) => if host = address then view event else none
  | _ => none

section Run

variable {generateWebsocketAccept : List UInt8 → List UInt8}
  {next : Int → Int → Int} {useSsl : Bool} {serverAddress : Endpoint}
  {members : List Endpoint}

/-- The events of one party in a run of the network. -/
def taken (generateWebsocketAccept : List UInt8 → List UInt8)
    (next : Int → Int → Int) (useSsl : Bool) (serverAddress : Endpoint)
    (members : List Endpoint) (address : Endpoint)
    (events : List (NetworkEvent Endpoint PartyEvent Int)) : List PartyEvent :=
  partEvents (Network.step (party generateWebsocketAccept next))
    (Network.hostEvents (party generateWebsocketAccept next) address)
    (voiceNetwork useSsl serverAddress members) events

/-- The clients exchange datagrams with the server, and nobody else does. -/
def Between (serverAddress : Endpoint)
    (envelope : Envelope Endpoint (List UInt8)) : Prop :=
  (envelope.source = serverAddress ∧ envelope.target ≠ serverAddress) ∨
    (envelope.source ≠ serverAddress ∧ envelope.target = serverAddress)

theorem server_of_run {first : VoiceChatServer} {last : Party}
    {events : List PartyEvent} {outs : List PartyCall}
    (hrun : run (party generateWebsocketAccept next).step (.server first) events =
      some (last, outs)) :
    ∃ final datagrams, last = .server final ∧
      run (VoiceChatServer.step generateWebsocketAccept) first
        (events.filterMap PartyEvent.forServer) = some (final, datagrams) ∧
      outs = datagrams.map .server :=
  run_wrapped (fun _ _ => rfl) hrun

theorem client_of_run {first : PlayingClient} {last : Party}
    {events : List PartyEvent} {outs : List PartyCall}
    (hrun : run (party generateWebsocketAccept next).step (.client first) events =
      some (last, outs)) :
    ∃ final calls, last = .client final ∧
      run (PlayingClient.step next) first
        (events.filterMap PartyEvent.forClient) = some (final, calls) ∧
      outs = calls.map .client :=
  run_wrapped (fun _ _ => rfl) hrun

/-- The datagrams of a server's events came out of the network. -/
theorem received_by_server {P : Envelope Endpoint (List UInt8) → Prop}
    {address source : Endpoint} {bytes : List UInt8} {now : Int}
    {events : List PartyEvent}
    (hreceives : ∀ event ∈ events, Network.Receives
      (party generateWebsocketAccept next) P address event)
    (hmem : .received now source bytes ∈
      events.filterMap PartyEvent.forServer) : P ⟨source, address, bytes⟩ := by
  obtain ⟨event, hevent, hserver⟩ := List.mem_filterMap.1 hmem
  rcases hreceives event hevent with hown | ⟨other, content, mark, rfl, hP⟩
  · cases event with
    | server event =>
        obtain rfl := Option.some.inj hserver
        simp [party, PartyEvent.own] at hown
    | client event => simp [PartyEvent.forServer] at hserver
    | arrived other content mark => simp [party, PartyEvent.own] at hown
  · obtain ⟨-, rfl, rfl⟩ := ServerEvent.received.inj (Option.some.inj hserver)
    exact hP

/-- And so did those of a client's. -/
theorem received_by_client {P : Envelope Endpoint (List UInt8) → Prop}
    {address source : Endpoint} {bytes : List UInt8} {events : List PartyEvent}
    (hreceives : ∀ event ∈ events, Network.Receives
      (party generateWebsocketAccept next) P address event)
    (hmem : .received source bytes ∈ PlayingClient.clientEvents
      (events.filterMap PartyEvent.forClient)) : P ⟨source, address, bytes⟩ := by
  obtain ⟨playing, hplaying, hclient⟩ := List.mem_filterMap.1 hmem
  obtain ⟨event, hevent, hfor⟩ := List.mem_filterMap.1 hplaying
  obtain rfl : playing = .client (.received source bytes) := by
    cases playing with
    | client event => rw [Option.some.inj hclient]
    | outputCallback memory => simp at hclient
  rcases hreceives event hevent with hown | ⟨other, content, mark, rfl, hP⟩
  · cases event with
    | server event => simp [PartyEvent.forClient] at hfor
    | client event =>
        obtain rfl := Option.some.inj hfor
        simp [party, PartyEvent.own] at hown
    | arrived other content mark => simp [party, PartyEvent.own] at hown
  · obtain ⟨rfl, rfl⟩ := ClientEvent.received.inj
      (PlayingEvent.client.inj (Option.some.inj hfor))
    exact hP

/-- What a client sends, from its events. -/
theorem client_sends {events : List PartyEvent}
    {last : Party} {outs : List PartyCall} {target : Endpoint}
    {content : List UInt8} {out : PartyCall}
    (hrun : run (party generateWebsocketAccept next).step
      (.client (PlayingClient.new serverAddress)) events = some (last, outs))
    (hout : out ∈ outs) (hsent : out.sent = some (target, content)) :
    ∃ past, past <+: PlayingClient.clientEvents
        (events.filterMap PartyEvent.forClient) ∧
      unsent past.reverse ≠ [] ∧
      target = (lastSource past.reverse).getD serverAddress ∧
      content = CapturePath.groupBytes (unsent past.reverse) := by
  obtain ⟨final, calls, -, hclient, rfl⟩ := client_of_run hrun
  obtain ⟨inner, hinner, hcalls⟩ := PlayingClient.client_of_run hclient
  obtain ⟨call, hcall, rfl⟩ := List.mem_map.1 hout
  cases call with
  | played block => simp [PartyCall.sent] at hsent
  | sendTo datagram =>
      obtain ⟨past, hpast, hunsent, rfl⟩ :=
        VoiceChatClient.sent_of_run hinner datagram (hcalls datagram hcall)
      obtain ⟨rfl, rfl⟩ := Prod.mk.inj (Option.some.inj hsent)
      exact ⟨past, hpast, hunsent, rfl, rfl⟩

/-- A client that hears of the server only knows no other endpoint. -/
theorem known_endpoint {address : Endpoint} (hother : address ≠ serverAddress)
    {events : List PartyEvent} {past : List ClientEvent}
    (hreceives : ∀ event ∈ events, Network.Receives
      (party generateWebsocketAccept next) (Between serverAddress) address event)
    (hpast : past <+: PlayingClient.clientEvents
      (events.filterMap PartyEvent.forClient)) :
    (lastSource past.reverse).getD serverAddress = serverAddress := by
  cases hlast : lastSource past.reverse with
  | none => rfl
  | some source =>
      obtain ⟨bytes, hbytes⟩ := VoiceChatClient.received_of_lastSource hlast
      have hmem := hpast.subset (List.mem_reverse.1 hbytes)
      rcases received_by_client hreceives hmem with
        ⟨hsource, -⟩ | ⟨-, htarget⟩
      · exact hsource
      · exact absurd htarget hother

theorem start_cases {address : Endpoint} {first : Party}
    (hfirst : (voiceNetwork useSsl serverAddress members).hosts address =
      some first) :
    (address = serverAddress ∧ first = .server (VoiceChatServer.new useSsl)) ∨
      (address ≠ serverAddress ∧
        first = .client (PlayingClient.new serverAddress)) := by
  simp only [voiceNetwork] at hfirst
  by_cases hserver : address = serverAddress
  · rw [if_pos hserver, Option.some.injEq] at hfirst
    exact Or.inl ⟨hserver, hfirst.symm⟩
  · rw [if_neg hserver, Option.ite_none_right_eq_some, Option.some.injEq] at hfirst
    exact Or.inr ⟨hserver, hfirst.2.symm⟩

variable {events : List (NetworkEvent Endpoint PartyEvent Int)}
  {final : Network Endpoint Party (List UInt8)}
  {outs : List (Endpoint × PartyCall)}

/-- All traffic is between a client and the server. -/
theorem between_of_run
    (hrun : run (Network.step (party generateWebsocketAccept next))
      (voiceNetwork useSsl serverAddress members) events = some (final, outs)) :
    ∀ envelope, Network.Sent (party generateWebsocketAccept next) outs envelope →
      Between serverAddress envelope := by
  apply Network.sent_keeps (P := Between serverAddress) rfl _ hrun
  intro address first hfirst events last done hhost hreceives out hout target
    content hsent
  rcases start_cases hfirst with ⟨rfl, rfl⟩ | ⟨hother, rfl⟩
  · obtain ⟨server, datagrams, -, hserver, rfl⟩ := server_of_run hhost
    obtain ⟨datagram, hdatagram, rfl⟩ := List.mem_map.1 hout
    obtain ⟨rfl, rfl⟩ := Prod.mk.inj (Option.some.inj hsent)
    obtain ⟨⟨now, bytes, hjoined⟩, -⟩ :=
      VoiceChatServer.datagram_parts hserver datagram hdatagram
    -- The server answers those it has heard of only.
    rcases received_by_server hreceives hjoined with ⟨-, hself⟩ | ⟨hsource, -⟩
    · exact absurd rfl hself
    · exact Or.inl ⟨rfl, hsource⟩
  · obtain ⟨past, hpast, -, rfl, -⟩ := client_sends hhost hout hsent
    exact Or.inr ⟨hother, known_endpoint hother hreceives hpast⟩

/-- What a party takes is its own or was sent to it, by the server if it is a
client, and by a client if it is the server. -/
theorem receives_of_run
    (hrun : run (Network.step (party generateWebsocketAccept next))
      (voiceNetwork useSsl serverAddress members) events = some (final, outs))
    (address : Endpoint) :
    ∀ event ∈ taken generateWebsocketAccept next useSsl serverAddress members
        address events,
      Network.Receives (party generateWebsocketAccept next)
        (fun envelope =>
          Network.Sent (party generateWebsocketAccept next) outs envelope ∧
            Between serverAddress envelope) address event := by
  intro event hevent
  exact (Network.receives_of_run rfl hrun address event hevent).mono
    fun envelope hsent => ⟨hsent, between_of_run hrun envelope hsent⟩

/-- One step of the network, in a view that leaves out what the network brings. -/
theorem filterMap_hostEvents {A : Type} {view : PlayingEvent → Option A}
    (hview : ∀ source bytes, view (.client (.received source bytes)) = none)
    (address : Endpoint) (network : Network Endpoint Party (List UInt8))
    (event : NetworkEvent Endpoint PartyEvent Int) :
    ((Network.hostEvents (party generateWebsocketAccept next) address network
        event).filterMap PartyEvent.forClient).filterMap view =
      (ownEvent view address event).toList := by
  cases event with
  | act host event =>
      by_cases hhost : host = address
      · cases event with
        | server event =>
            simp only [Network.hostEvents]
            split <;> rfl
        | client playing =>
            by_cases hown : PartyEvent.own (.client playing)
            · cases hseen : view playing <;>
                simp [Network.hostEvents, party, hown, hhost,
                  PartyEvent.forClient, ownEvent, hseen]
            · obtain ⟨source, bytes, rfl⟩ : ∃ source bytes,
                  playing = .client (.received source bytes) := by
                cases playing with
                | outputCallback memory => exact absurd rfl hown
                | client event =>
                    cases event with
                    | received source bytes => exact ⟨source, bytes, rfl⟩
                    | _ => exact absurd rfl hown
              simp [Network.hostEvents, party, hown, ownEvent, hview]
        | arrived source bytes now =>
            simp only [Network.hostEvents]
            split <;> simp [PartyEvent.forClient, hview, ownEvent]
      · have hnone : ownEvent view address (.act host event) = none := by
          cases event <;> simp [ownEvent, hhost]
        simp [Network.hostEvents, hhost, hnone]
  | arrive position mark =>
      simp only [Network.hostEvents, ownEvent]
      cases network.inFlight[position]? with
      | none => rfl
      | some envelope =>
          rw [Option.elim_some]
          split <;> simp [party, PartyEvent.forClient, hview]
  | lose position => rfl
  | duplicate position => rfl

/-- What the network does not bring, the client at the address did. -/
theorem filterMap_taken {A : Type} {view : PlayingEvent → Option A}
    (hview : ∀ source bytes, view (.client (.received source bytes)) = none)
    (hrun : run (Network.step (party generateWebsocketAccept next))
      (voiceNetwork useSsl serverAddress members) events = some (final, outs))
    (address : Endpoint) :
    ((taken generateWebsocketAccept next useSsl serverAddress members address
        events).filterMap PartyEvent.forClient).filterMap view =
      events.filterMap (ownEvent view address) := by
  apply run_induction _ (motive := fun past _ _ =>
    ((taken generateWebsocketAccept next useSsl serverAddress members address
        past).filterMap PartyEvent.forClient).filterMap view =
      past.filterMap (ownEvent view address)) rfl _ hrun
  intro past network outs event after more hpast ih _
  rw [taken, partEvents_concat _ _ hpast, ← taken, List.filterMap_append,
    List.filterMap_append, ih, filterMap_hostEvents hview,
    List.filterMap_append]
  cases hseen : ownEvent view address event <;> simp [hseen]

theorem captured_taken
    (hrun : run (Network.step (party generateWebsocketAccept next))
      (voiceNetwork useSsl serverAddress members) events = some (final, outs))
    (address : Endpoint) :
    VoiceChatClient.captured (PlayingClient.clientEvents
        ((taken generateWebsocketAccept next useSsl serverAddress members address
          events).filterMap PartyEvent.forClient)) =
      capturedAt address events := by
  rw [VoiceChatClient.captured, PlayingClient.clientEvents,
    List.filterMap_filterMap, filterMap_taken (fun _ _ => rfl) hrun, capturedAt]
  congr 1
  funext event
  cases event with
  | act host event =>
      cases event with
      | client playing =>
          cases playing with
          | client event => cases event <;> simp [ownEvent]
          | outputCallback memory => simp [ownEvent]
      | _ => rfl
  | _ => rfl

theorem cardMemories_taken
    (hrun : run (Network.step (party generateWebsocketAccept next))
      (voiceNetwork useSsl serverAddress members) events = some (final, outs))
    (address : Endpoint) :
    PlayingClient.cardMemories
        ((taken generateWebsocketAccept next useSsl serverAddress members address
          events).filterMap PartyEvent.forClient) =
      cardMemoriesAt address events := by
  rw [PlayingClient.cardMemories, filterMap_taken (fun _ _ => rfl) hrun,
    cardMemoriesAt]
  congr 1
  funext event
  cases event with
  | act host event =>
      cases event with
      | client playing => cases playing <;> simp [ownEvent]
      | _ => rfl
  | _ => rfl

variable (generateWebsocketAccept next useSsl serverAddress members) in
/-- A packet that holds what the sound card of another client has captured in a
row, as far as the receive buffer goes, or what a session that is not the
client's has sent. -/
inductive Elsewhere (address : Endpoint)
    (events : List (NetworkEvent Endpoint PartyEvent Int)) : AudioPacket → Prop
  | soundCard (other : Endpoint) (group : List InputBlock)
      (hother : other ≠ address) (hne : group ≠ [])
      (hgroup : group <:+: capturedAt other events) :
      Elsewhere address events
        ⟨(CapturePath.groupBytes group).take recvBufferSize⟩
  | session (uuid : String) (payload : List UInt8)
      (hother : uuid ≠ address.clientKey)
      (hmessaged : VoiceChatServer.Messaged generateWebsocketAccept useSsl
        ((taken generateWebsocketAccept next useSsl serverAddress members
          serverAddress events).filterMap PartyEvent.forServer) uuid payload) :
      Elsewhere address events ⟨payload⟩

/-- What others sent to the server is what they captured. -/
theorem elsewhere_of_fromOther
    (hrun : run (Network.step (party generateWebsocketAccept next))
      (voiceNetwork useSsl serverAddress members) events = some (final, outs))
    {address : Endpoint} {part : AudioPacket}
    (hpart : VoiceChatServer.FromOther generateWebsocketAccept useSsl
      ((taken generateWebsocketAccept next useSsl serverAddress members
        serverAddress events).filterMap PartyEvent.forServer)
      address.clientKey part) :
    Elsewhere generateWebsocketAccept next useSsl serverAddress members address
      events part := by
  rcases hpart with
    ⟨now, source, bytes, hother, hreceived⟩ | ⟨uuid, payload, hother, hmessaged⟩
  · obtain ⟨⟨out, hout, hsent⟩, hbetween⟩ :=
      received_by_server (receives_of_run hrun serverAddress) hreceived
    have hsource : source ≠ serverAddress := by
      rcases hbetween with ⟨-, hself⟩ | ⟨hsource, -⟩
      · exact absurd rfl hself
      · exact hsource
    obtain ⟨first, hfirst⟩ := Network.host_of_output hrun hout
    obtain ⟨last, -, hhost⟩ := Network.host_of_run hrun hfirst
    rcases start_cases hfirst with ⟨hserver, -⟩ | ⟨-, rfl⟩
    · exact absurd hserver hsource
    obtain ⟨past, hpast, hunsent, -, rfl⟩ :=
      client_sends hhost (Network.mem_outputsOf.2 hout) hsent
    apply Elsewhere.soundCard source (unsent past.reverse) _ hunsent
    · rw [← captured_taken hrun source]
      exact (VoiceChatClient.unsent_isSuffix past).isInfix.trans
        (hpast.filterMap _).isInfix
    · rintro rfl
      exact hother rfl
  · exact .session uuid payload hother hmessaged

/-- Whatever is lost, repeated or delayed: each callback of a client's sound card
leaves in its memory silence or, smoothed and up to a block, a packet that is a mix
of what the sound cards of other clients captured and what sessions sent.  None of
it is what the client captured itself. -/
theorem heard_from_others
    (hrun : run (Network.step (party generateWebsocketAccept next))
      (voiceNetwork useSsl serverAddress members) events = some (final, outs))
    {address : Endpoint} {client : PlayingClient}
    (hclient : final.hosts address = some (.client client)) :
    ∃ found : List (Option AudioPacket),
      found.length = (cardMemoriesAt address events).length ∧
      (PlayingClient.playedBlocks (callsOf address outs)).map PlayedBlock.memory =
        List.zipWith (PlayingClient.cardAfter next)
          (cardMemoriesAt address events) found ∧
      AudioOutput.played (PlayingClient.playedBlocks (callsOf address outs)) =
        found.reduceOption.flatMap PlayingClient.heard ∧
      ∀ packet, some packet ∈ found → ∃ parts : List AudioPacket, parts ≠ [] ∧
        packet = ⟨(AudioMixer.mix parts).data.take NetworkManager.recvBufferSize⟩ ∧
        ∀ part ∈ parts, Elsewhere generateWebsocketAccept next useSsl serverAddress
          members address events part := by
  obtain ⟨first, hfirst⟩ := Network.hosts_of_run hrun hclient
  obtain ⟨last, hlast, hhost⟩ := Network.host_of_run hrun hfirst
  rw [hclient, Option.some.injEq] at hlast
  subst hlast
  rcases start_cases hfirst with ⟨-, rfl⟩ | ⟨hother, rfl⟩
  · obtain ⟨server, -, hserver, -, -⟩ := server_of_run hhost
    exact absurd hserver (by simp)
  obtain ⟨playing, calls, -, hplaying, hcalls⟩ := client_of_run hhost
  have hown : callsOf address outs = calls := by
    rw [callsOf, hcalls]
    simp [List.filterMap_map]
  obtain ⟨found, hsublist, hcallbacks, hmemory, hplayed⟩ :=
    PlayingClient.played_of_run hplaying
  rw [← taken, cardMemories_taken hrun] at hcallbacks hmemory
  refine ⟨found, hcallbacks, hown ▸ hmemory, hown ▸ hplayed, ?_⟩
  intro packet hpacket
  obtain ⟨source, bytes, hreceived, rfl⟩ :=
    VoiceChatClient.received_of_arrivals
      (hsublist.subset (List.reduceOption_mem_iff.2 hpacket))
  obtain ⟨⟨out, hout, hsent⟩, hbetween⟩ :=
    received_by_client (receives_of_run hrun address) hreceived
  -- It came from the server, which mixes what it got from others.
  obtain rfl : source = serverAddress := by
    rcases hbetween with ⟨hsource, -⟩ | ⟨-, htarget⟩
    · exact hsource
    · exact absurd htarget hother
  obtain ⟨begun, hbegun⟩ := Network.host_of_output hrun hout
  obtain ⟨ended, -, hended⟩ := Network.host_of_run hrun hbegun
  rcases start_cases hbegun with ⟨-, rfl⟩ | ⟨hself, -⟩
  · obtain ⟨server, datagrams, -, hserver, houts⟩ := server_of_run hended
    have hmem := Network.mem_outputsOf.2 hout
    rw [houts, List.mem_map] at hmem
    obtain ⟨datagram, hdatagram, rfl⟩ := hmem
    obtain ⟨rfl, rfl⟩ := Prod.mk.inj (Option.some.inj hsent)
    obtain ⟨-, parts, hne, hmix, hparts⟩ :=
      VoiceChatServer.datagram_parts hserver datagram hdatagram
    exact ⟨parts, hne, by rw [hmix], fun part hpart =>
      elsewhere_of_fromOther hrun (hparts part hpart)⟩
  · exact absurd rfl hself

def otherAddress : Endpoint := ⟨10, 0, 0, 8, 50000⟩

/-- A captured block of a constant level. -/
def toneBlock : InputBlock :=
  ⟨List.replicate framesPerBuffer 1000, List.length_replicate ..⟩

/-- Two clients capture and send; one datagram is repeated, overtaken and lost.
What a tick mixes from the other is played by the first client. -/
def bothSpeak : List (NetworkEvent Endpoint PartyEvent Int) :=
  [.act CapturePath.clientAddress (.client (.client (.captured toneBlock))),
    .act CapturePath.clientAddress (.client (.client .sendTick)),
    .act otherAddress (.client (.client (.captured toneBlock))),
    .act otherAddress (.client (.client .sendTick)),
    .duplicate 0, .arrive 2 0, .arrive 1 0, .lose 0,
    .act VoiceChatClient.serverAddress (.server (.mixed 20000000
      ⟨["10.0.0.7:50000", "10.0.0.8:50000"],
        ["10.0.0.7:50000", "10.0.0.8:50000"],
        ["10.0.0.7:50000", "10.0.0.8:50000"]⟩)),
    .arrive 0 0,
    .act CapturePath.clientAddress (.client (.client .jitterTick)),
    .act CapturePath.clientAddress
      (.client (.outputCallback PlayingClient.usedMemory))]

/-- The mix of level 500 is smoothed from zero on. -/
theorem bothSpeak_run :
    ∃ final outs client,
      run (Network.step (party (fun _ => []) AudioOutput.smoothingStep))
        (voiceNetwork false VoiceChatClient.serverAddress
          [CapturePath.clientAddress, otherAddress]) bothSpeak =
        some (final, outs) ∧
      final.hosts CapturePath.clientAddress = some (.client client) ∧
      ((PlayingClient.playedBlocks (callsOf CapturePath.clientAddress outs)).map
        fun block => block.memory.take 4) = [[50, 0, 95, 0]] := by
  have hplays : ((run
      (Network.step (party (fun _ => []) AudioOutput.smoothingStep))
      (voiceNetwork false VoiceChatClient.serverAddress
        [CapturePath.clientAddress, otherAddress]) bothSpeak).map fun done =>
      (PlayingClient.playedBlocks (callsOf CapturePath.clientAddress done.2)).map
        fun block => block.memory.take 4) = some [[50, 0, 95, 0]] := by
    decide +kernel
  obtain ⟨⟨final, outs⟩, hrun, hmemory⟩ := Option.map_eq_some_iff.1 hplays
  have hfirst : (voiceNetwork false VoiceChatClient.serverAddress
      [CapturePath.clientAddress, otherAddress]).hosts CapturePath.clientAddress =
      some (.client (PlayingClient.new VoiceChatClient.serverAddress)) := rfl
  obtain ⟨last, hlast, hhost⟩ := Network.host_of_run hrun hfirst
  obtain ⟨client, -, rfl, -, -⟩ := client_of_run hhost
  exact ⟨final, outs, client, hrun, hlast, hmemory⟩

theorem heard_from_others_both :
    ∃ final outs client,
      run (Network.step (party (fun _ => []) AudioOutput.smoothingStep))
        (voiceNetwork false VoiceChatClient.serverAddress
          [CapturePath.clientAddress, otherAddress]) bothSpeak =
        some (final, outs) ∧
      final.hosts CapturePath.clientAddress = some (.client client) ∧
      ((PlayingClient.playedBlocks (callsOf CapturePath.clientAddress outs)).map
        fun block => block.memory.take 4) = [[50, 0, 95, 0]] ∧
      ∃ found : List (Option AudioPacket),
        found.length =
          (cardMemoriesAt CapturePath.clientAddress bothSpeak).length ∧
        (PlayingClient.playedBlocks
            (callsOf CapturePath.clientAddress outs)).map PlayedBlock.memory =
          List.zipWith (PlayingClient.cardAfter AudioOutput.smoothingStep)
            (cardMemoriesAt CapturePath.clientAddress bothSpeak) found ∧
        AudioOutput.played (PlayingClient.playedBlocks
            (callsOf CapturePath.clientAddress outs)) =
          found.reduceOption.flatMap PlayingClient.heard ∧
        ∀ packet, some packet ∈ found → ∃ parts : List AudioPacket,
          parts ≠ [] ∧
          packet =
            ⟨(AudioMixer.mix parts).data.take NetworkManager.recvBufferSize⟩ ∧
          ∀ part ∈ parts, Elsewhere (fun _ => []) AudioOutput.smoothingStep false
            VoiceChatClient.serverAddress
            [CapturePath.clientAddress, otherAddress]
            CapturePath.clientAddress bothSpeak part := by
  obtain ⟨final, outs, client, hrun, hclient, hmemory⟩ := bothSpeak_run
  exact ⟨final, outs, client, hrun, hclient, hmemory,
    heard_from_others hrun hclient⟩

/-- Whatever is lost, repeated or delayed: clients exchange datagrams with the
server only, and so each keeps the endpoint that it resolved. -/
theorem only_with_server
    (hrun : run (Network.step (party generateWebsocketAccept next))
      (voiceNetwork useSsl serverAddress members) events = some (final, outs)) :
    (∀ envelope, Network.Sent (party generateWebsocketAccept next) outs envelope →
      Between serverAddress envelope) ∧
    ∀ address client, final.hosts address = some (.client client) →
      client.client.network.serverEndpoint = serverAddress := by
  refine ⟨between_of_run hrun, fun address client hclient => ?_⟩
  obtain ⟨first, hfirst⟩ := Network.hosts_of_run hrun hclient
  obtain ⟨last, hlast, hhost⟩ := Network.host_of_run hrun hfirst
  rw [hclient, Option.some.injEq] at hlast
  subst hlast
  rcases start_cases hfirst with ⟨-, rfl⟩ | ⟨hother, rfl⟩
  · obtain ⟨server, -, hserver, -, -⟩ := server_of_run hhost
    exact absurd hserver (by simp)
  obtain ⟨playing, calls, hsame, hplaying, -⟩ := client_of_run hhost
  obtain rfl := Party.client.inj hsame
  obtain ⟨inner, hinner, -⟩ := PlayingClient.client_of_run hplaying
  have hknown := (VoiceChatClient.follows_of_run hinner).serverEndpoint
  have hreceives : ∀ event ∈ taken generateWebsocketAccept next useSsl
      serverAddress members address events, Network.Receives
        (party generateWebsocketAccept next) (Between serverAddress) address
        event :=
    fun event hevent => (receives_of_run hrun address event hevent).mono
      fun _ hboth => hboth.2
  exact hknown.trans (known_endpoint hother hreceives List.prefix_rfl)

theorem only_with_server_both :
    ∃ final outs,
      run (Network.step (party (fun _ => []) AudioOutput.smoothingStep))
        (voiceNetwork false VoiceChatClient.serverAddress
          [CapturePath.clientAddress, otherAddress]) bothSpeak =
        some (final, outs) ∧
      (∀ envelope,
        Network.Sent (party (fun _ => []) AudioOutput.smoothingStep) outs envelope →
        Between VoiceChatClient.serverAddress envelope) ∧
      ∀ address client, final.hosts address = some (.client client) →
        client.client.network.serverEndpoint = VoiceChatClient.serverAddress := by
  obtain ⟨final, outs, client, hrun, -, -⟩ := bothSpeak_run
  exact ⟨final, outs, hrun, only_with_server hrun⟩

end Run

end VoiceNetwork

end VoiceServer

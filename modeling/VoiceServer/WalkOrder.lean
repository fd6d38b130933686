/-
The orders in which a tick walks its unordered maps cannot be observed: two runs
of the server that differ only in them write the same to every session, and send
the same datagrams to every endpoint.
-/
import VoiceServer.MixOrigins
import VoiceServer.RoomOverflow

namespace VoiceServer

universe u v

namespace RoomManager

variable {Id : Type u} [DecidableEq Id] {Client : Type v}

/-- The maps have the same entries, in whatever order. -/
structure Alike (left right : RoomManager Id Client) : Prop where
  clients : left.clients = right.clients
  buffers : ∀ id, left.audioBuffers.lookup id = right.audioBuffers.lookup id
  activity : ∀ id,
    left.clientLastActivity.lookup id = right.clientLastActivity.lookup id

section Alike

variable {left right next after : RoomManager Id Client}
  {sent seen : List (Delivery Id Client)} {now : Int} {walk other : Walk Id}

theorem Alike.refl (room : RoomManager Id Client) : Alike room room :=
  ⟨rfl, fun _ => rfl, fun _ => rfl⟩

theorem Alike.addClient (halike : Alike left right) (id : Id) (client : Client) :
    Alike (left.addClient id client).1 (right.addClient id client).1 ∧
      (left.addClient id client).2 = (right.addClient id client).2 := by
  obtain ⟨hclients, hbuffers, hactivity⟩ := halike
  have hinsert : left.clients.insert id client = right.clients.insert id client :=
    congrArg _ hclients
  refine ⟨⟨hinsert, hbuffers, hactivity⟩, ?_⟩
  simp only [RoomManager.addClient, hinsert]

theorem Alike.processAudio (halike : Alike left right) (now : Int) (id : Id)
    (packet : AudioPacket) :
    Alike (left.processAudio now id packet) (right.processAudio now id packet) where
  clients := halike.clients
  buffers speaker := by
    simp only [RoomManager.processAudio, halike.buffers]
    by_cases hid : speaker = id
    · rw [hid, AList.lookup_insert, AList.lookup_insert]
    · rw [AList.lookup_insert_ne hid, AList.lookup_insert_ne hid]
      exact halike.buffers speaker
  activity speaker := by
    simp only [RoomManager.processAudio]
    by_cases hid : speaker = id
    · rw [hid, AList.lookup_insert, AList.lookup_insert]
    · rw [AList.lookup_insert_ne hid, AList.lookup_insert_ne hid]
      exact halike.activity speaker

theorem Alike.recent_iff (halike : Alike left right) (now : Int) (id : Id) :
    left.Recent now id ↔ right.Recent now id := by
  rw [Recent, Recent, halike.activity]

theorem Alike.heardBy_perm (halike : Alike left right)
    (hwalk : walk.buffers.Perm left.audioBuffers.keys)
    (hother : other.buffers.Perm right.audioBuffers.keys) (now : Int)
    (clientId : Id) :
    (left.heardBy now walk.buffers clientId).Perm
      (right.heardBy now other.buffers clientId) := by
  have hshare : left.share now clientId = right.share now clientId := by
    funext bufferId
    rw [share, share, halike.buffers]
    simp only [halike.recent_iff now bufferId]
  have hkeys : left.audioBuffers.keys.Perm right.audioBuffers.keys :=
    perm_keys_of_isSome fun id => by rw [halike.buffers]
  rw [heardBy, heardBy, hshare]
  exact ((hwalk.trans hkeys).trans hother.symm).flatMap_right _

/-- One tick of both, each in an order of its own. -/
theorem Alike.tick (halike : Alike left right)
    (hleft : Ticked left next now walk sent)
    (hright : Ticked right after now other seen) :
    Alike next after ∧ ∀ clientId,
      (sent.filter fun delivery => delivery.listener = clientId).map
          (fun delivery => (delivery.client, delivery.mixedPacket)) =
        (seen.filter fun delivery => delivery.listener = clientId).map
          fun delivery => (delivery.client, delivery.mixedPacket) := by
  have hmem : ∀ id, id ∈ left.audioBuffers ↔ id ∈ right.audioBuffers := by
    intro id
    rw [← AList.lookup_isSome, ← AList.lookup_isSome, halike.buffers]
  refine ⟨⟨?_, fun id => ?_, fun id => ?_⟩, fun clientId => ?_⟩
  · rw [hleft.clients_eq, hright.clients_eq, halike.clients]
  · rw [hleft.buffers_eq, hright.buffers_eq]
    simp only [hmem id, halike.recent_iff now id]
  · rw [hleft.activity_eq, hright.activity_eq, halike.activity]
    simp only [halike.recent_iff now id]
  · have hperm := halike.heardBy_perm hleft.buffers_order hright.buffers_order
      now clientId
    have hempty : left.heardBy now walk.buffers clientId = [] ↔
        right.heardBy now other.buffers clientId = [] := by
      constructor
      · intro hnil
        rw [hnil] at hperm
        exact hperm.nil_eq.symm
      · intro hnil
        rw [hnil] at hperm
        exact hperm.eq_nil
    rw [hleft.deliveries_to, hright.deliveries_to, deliveryTo, deliveryTo,
      halike.clients]
    cases right.clients.lookup clientId with
    | none => rfl
    | some client =>
        simp only [Option.bind_some, hempty]
        split
        · rfl
        · simp only [Option.toList_some, List.map_cons, List.map_nil,
            Delivery.mixedPacket]
          rw [AudioMixer.mix_perm (hperm.map Prod.snd)]

end Alike

end RoomManager

/-- The event without the orders in which a tick walks. -/
def ServerEvent.unordered : ServerEvent → ServerEvent
  | .mixed now _ => .mixed now ⟨[], [], []⟩
  | .accepted uuid => .accepted uuid
  | .acceptFailed => .acceptFailed
  | .completed session now completion => .completed session now completion
  | .received now endpoint bytes => .received now endpoint bytes
  | .receiveFailed => .receiveFailed

theorem ServerEvent.cases_of_unordered {event twin : ServerEvent}
    (hsame : event.unordered = twin.unordered) :
    event = twin ∨
      ∃ now walk other, event = .mixed now walk ∧ twin = .mixed now other := by
  cases event <;> cases twin <;> simp_all [unordered]

namespace VoiceChatServer

/-- The servers differ in the orders of their room's maps only. -/
structure Alike (left right : VoiceChatServer) : Prop where
  room : RoomManager.Alike left.room right.room
  mixing : left.mixing = right.mixing
  useSsl : left.useSsl = right.useSsl
  sessions : left.sessions = right.sessions

section Deliveries

variable {deliveries sent seen : List (Delivery String Client)}

/-- What a session is sent is decided by the packets for it. -/
theorem getElem?_foldl_send (deliveries : List (Delivery String Client))
    (sessions : List WebSocketSession) (index : Nat) :
    (deliveries.foldl sendToSession sessions)[index]? =
      sessions[index]?.map fun session =>
        ((deliveriesTo index deliveries).map Delivery.mixedPacket).foldl
          (fun state packet => state.send packet.data .binary) session := by
  induction deliveries generalizing sessions with
  | nil => simp [deliveriesTo]
  | cons delivery rest ih =>
      rw [List.foldl_cons, ih, getElem?_sendToSession]
      by_cases hclient : delivery.client = .webSocket index
      · rw [if_pos hclient, Option.map_map, deliveriesTo, deliveriesTo,
          List.filter_cons_of_pos (by simpa using hclient)]
        rfl
      · rw [if_neg hclient, deliveriesTo, deliveriesTo,
          List.filter_cons_of_neg (by simpa using hclient)]

theorem filter_datagrams (deliveries : List (Delivery String Client))
    (endpoint : Endpoint) :
    (deliveries.filterMap datagramOf).filter
        (fun datagram => datagram.endpoint = endpoint) =
      ((deliveries.filter fun delivery => delivery.client = .udp endpoint).map
        Delivery.mixedPacket).map fun packet => ⟨endpoint, packet⟩ := by
  induction deliveries with
  | nil => rfl
  | cons delivery rest ih =>
      cases hclient : delivery.client with
      | webSocket session => simpa [datagramOf, hclient] using ih
      | udp other =>
          by_cases hsame : other = endpoint
          · subst hsame
            simpa [datagramOf, hclient] using ih
          · simpa [datagramOf, hclient, hsame] using ih

/-- Each client is registered under one id at most. -/
theorem addressee_of_joined {clients : AList fun _ : String => Client}
    {history : List ServerEvent} (hjoined : Joined clients history)
    (client : Client) :
    ∃ known, ∀ id, clients.lookup id = some client → id = known := by
  cases client with
  | webSocket index =>
      refine ⟨((acceptedUuids history)[index]?).getD "", fun id hlookup => ?_⟩
      rw [((hjoined.webSocket id index).1 hlookup).1]
      rfl
  | udp endpoint =>
      exact ⟨endpoint.clientKey, fun id hlookup =>
        ((hjoined.udp id endpoint).1 hlookup).1.symm⟩

/-- If the deliveries to each id agree, so do those to each client. -/
theorem mixes_of_listeners {known : String} {client : Client}
    (hsent : ∀ delivery ∈ sent, delivery.client = client →
      delivery.listener = known)
    (hseen : ∀ delivery ∈ seen, delivery.client = client →
      delivery.listener = known)
    (hsame : (sent.filter fun delivery => delivery.listener = known).map
        (fun delivery => (delivery.client, delivery.mixedPacket)) =
      (seen.filter fun delivery => delivery.listener = known).map
        fun delivery => (delivery.client, delivery.mixedPacket)) :
    (sent.filter fun delivery => delivery.client = client).map
        Delivery.mixedPacket =
      (seen.filter fun delivery => delivery.client = client).map
        Delivery.mixedPacket := by
  have hfilter : ∀ deliveries : List (Delivery String Client),
      (∀ delivery ∈ deliveries, delivery.client = client →
        delivery.listener = known) →
      (deliveries.filter fun delivery => delivery.client = client).map
          Delivery.mixedPacket =
        (((deliveries.filter fun delivery => delivery.listener = known).map
          fun delivery => (delivery.client, delivery.mixedPacket)).filter
            fun pair => pair.1 = client).map Prod.snd := by
    intro deliveries hall
    rw [List.filter_map, List.filter_filter, List.map_map]
    apply congrArg (List.map Delivery.mixedPacket)
    apply List.filter_congr
    intro delivery hdelivery
    by_cases hclient : delivery.client = client
    · simp [hclient, hall delivery hdelivery hclient]
    · simp [hclient]
  rw [hfilter sent hsent, hfilter seen hseen, hsame]

end Deliveries

section Step

variable {generateWebsocketAccept : List UInt8 → List UInt8}
  {left right next after : VoiceChatServer} {new seen : List Datagram}

theorem Alike.onMessage {first second : RoomManager String Client}
    (halike : RoomManager.Alike first second) (now : Int) (uuid : String)
    (calls : List Message) :
    RoomManager.Alike (calls.foldl (onMessage now uuid) first)
      (calls.foldl (onMessage now uuid) second) := by
  induction calls generalizing first second with
  | nil => exact halike
  | cons message rest ih =>
      rw [List.foldl_cons, List.foldl_cons]
      apply ih
      rw [VoiceChatServer.onMessage, VoiceChatServer.onMessage]
      split
      · exact halike.processAudio now uuid ⟨message.2⟩
      · exact halike

theorem Alike.addClient (halike : left.Alike right) (id : String)
    (client : Client) :
    (left.addClient id client).Alike (right.addClient id client) := by
  obtain ⟨hroom, hstarts⟩ := halike.room.addClient id client
  refine ⟨hroom, ?_, halike.useSsl, halike.sessions⟩
  simp only [VoiceChatServer.addClient, halike.mixing, hstarts]

theorem Alike.doAccept (halike : left.Alike right) (uuid : String) :
    (left.doAccept uuid).Alike (right.doAccept uuid) := by
  obtain ⟨hroom, hmixing, hssl, hsessions⟩ :=
    halike.addClient uuid (.webSocket right.sessions.length)
  simp only [VoiceChatServer.doAccept, addWebsocketUser, WebSocketSession.new,
    halike.sessions, halike.useSsl]
  refine ⟨hroom, hmixing, hssl, ?_⟩
  exact congrArg (· ++ _) hsessions

theorem Alike.handleReceive (halike : left.Alike right) (now : Int)
    (endpoint : Endpoint) (bytes : List UInt8) :
    (left.handleReceive now endpoint bytes).Alike
      (right.handleReceive now endpoint bytes) := by
  have hclient : left.room.getClient endpoint.clientKey =
      right.room.getClient endpoint.clientKey := by
    rw [RoomManager.getClient, RoomManager.getClient, halike.room.clients]
  have hadded := halike.addClient endpoint.clientKey (.udp endpoint)
  simp only [VoiceChatServer.handleReceive, hclient]
  cases right.room.getClient endpoint.clientKey with
  | none =>
      exact ⟨hadded.room.processAudio now _ _, hadded.mixing, hadded.useSsl,
        hadded.sessions⟩
  | some client =>
      exact ⟨halike.room.processAudio now _ _, halike.mixing, halike.useSsl,
        halike.sessions⟩

/-- The same event, if it is no tick. -/
theorem Alike.step (halike : left.Alike right) {event : ServerEvent}
    (hevent : ∀ now walk, event ≠ .mixed now walk)
    (hstep : left.step generateWebsocketAccept event = some (next, new))
    (hother : right.step generateWebsocketAccept event = some (after, seen)) :
    next.Alike after ∧ new = seen := by
  cases event with
  | accepted uuid =>
      simp only [VoiceChatServer.step, Option.some.injEq,
        Prod.mk.injEq] at hstep hother
      obtain ⟨rfl, rfl⟩ := hstep
      obtain ⟨rfl, rfl⟩ := hother
      exact ⟨halike.doAccept uuid, rfl⟩
  | acceptFailed =>
      simp only [VoiceChatServer.step, Option.some.injEq,
        Prod.mk.injEq] at hstep hother
      obtain ⟨rfl, rfl⟩ := hstep
      obtain ⟨rfl, rfl⟩ := hother
      exact ⟨halike, rfl⟩
  | completed index now completion =>
      simp only [VoiceChatServer.step, halike.sessions] at hstep hother
      cases hsession : right.sessions[index]? with
      | none => simp [hsession] at hstep
      | some session =>
          simp only [hsession, Option.map_eq_some_iff,
            Prod.mk.injEq] at hstep hother
          obtain ⟨done, hdone, rfl, rfl⟩ := hstep
          obtain ⟨same, hsame, rfl, rfl⟩ := hother
          obtain rfl : done = same := by
            rw [hdone] at hsame
            exact Option.some.inj hsame
          exact ⟨⟨Alike.onMessage halike.room now session.uuid done.2,
            halike.mixing, halike.useSsl, rfl⟩, rfl⟩
  | received now endpoint bytes =>
      simp only [VoiceChatServer.step] at hstep hother
      split at hstep
      · next hbytes =>
        rw [if_pos hbytes] at hother
        obtain ⟨rfl, rfl⟩ := Prod.mk.inj (Option.some.inj hstep)
        obtain ⟨rfl, rfl⟩ := Prod.mk.inj (Option.some.inj hother)
        exact ⟨halike.handleReceive now endpoint _, rfl⟩
      · next hbytes =>
        rw [if_neg hbytes] at hother
        obtain ⟨rfl, rfl⟩ := Prod.mk.inj (Option.some.inj hstep)
        obtain ⟨rfl, rfl⟩ := Prod.mk.inj (Option.some.inj hother)
        exact ⟨halike, rfl⟩
  | receiveFailed =>
      simp only [VoiceChatServer.step, Option.some.injEq,
        Prod.mk.injEq] at hstep hother
      obtain ⟨rfl, rfl⟩ := hstep
      obtain ⟨rfl, rfl⟩ := hother
      exact ⟨halike, rfl⟩
  | mixed now walk => exact absurd rfl (hevent now walk)

/-- A tick of both, each in an order of its own. -/
theorem Alike.tick (halike : left.Alike right) {history others : List ServerEvent}
    (hleft : left.Registered history) (hright : right.Registered others)
    {now : Int} {walk other : Walk String}
    (hstep : left.step generateWebsocketAccept (.mixed now walk) =
      some (next, new))
    (hother : right.step generateWebsocketAccept (.mixed now other) =
      some (after, seen)) :
    next.Alike after ∧ ∀ endpoint,
      new.filter (fun datagram => datagram.endpoint = endpoint) =
        seen.filter fun datagram => datagram.endpoint = endpoint := by
  simp only [VoiceChatServer.step, Option.ite_none_right_eq_some,
    Option.map_eq_some_iff, Prod.mk.injEq] at hstep hother
  obtain ⟨-, ⟨room, sent⟩, htick, rfl, rfl⟩ := hstep
  obtain ⟨-, ⟨twin, heard⟩, hticked, rfl, rfl⟩ := hother
  obtain ⟨past, htracks⟩ := hleft.room
  obtain ⟨pasts, htracked⟩ := hright.room
  have hsent := RoomManager.ticked_of_step htracks.recorded htick
  have hheard := RoomManager.ticked_of_step htracked.recorded hticked
  obtain ⟨hrooms, hlisteners⟩ := halike.room.tick hsent hheard
  have hmixes : ∀ client,
      (sent.filter fun delivery => delivery.client = client).map
          Delivery.mixedPacket =
        (heard.filter fun delivery => delivery.client = client).map
          Delivery.mixedPacket := by
    intro client
    obtain ⟨known, hknown⟩ := addressee_of_joined hleft.clients client
    apply mixes_of_listeners _ _ (hlisteners known)
    · rintro delivery hdelivery rfl
      exact hknown _ (hsent.mem_deliveries_iff.1 hdelivery).1
    · rintro delivery hdelivery rfl
      apply hknown
      rw [halike.room.clients]
      exact (hheard.mem_deliveries_iff.1 hdelivery).1
  refine ⟨⟨hrooms, halike.mixing, halike.useSsl, ?_⟩, fun endpoint => ?_⟩
  · apply List.ext_getElem?
    intro index
    rw [getElem?_foldl_send, getElem?_foldl_send, halike.sessions, deliveriesTo,
      deliveriesTo, hmixes]
  · rw [filter_datagrams, filter_datagrams, hmixes]

end Step

/-- The iteration orders of the unordered maps cannot be observed.  Two runs that
differ only in the orders in which their ticks walk the maps leave every session
in the same state, and send the same datagrams, in the same order, to every
endpoint. -/
theorem orders_unobservable {generateWebsocketAccept : List UInt8 → List UInt8}
    {useSsl : Bool} {events others : List ServerEvent}
    {final last : VoiceChatServer} {datagrams shown : List Datagram}
    (hsame : events.map ServerEvent.unordered = others.map ServerEvent.unordered)
    (hrun : run (step generateWebsocketAccept) (new useSsl) events =
      some (final, datagrams))
    (hother : run (step generateWebsocketAccept) (new useSsl) others =
      some (last, shown)) :
    final.sessions = last.sessions ∧ ∀ endpoint,
      datagrams.filter (fun datagram => datagram.endpoint = endpoint) =
        shown.filter fun datagram => datagram.endpoint = endpoint := by
  have halike : final.Alike last ∧ ∀ endpoint,
      datagrams.filter (fun datagram => datagram.endpoint = endpoint) =
        shown.filter fun datagram => datagram.endpoint = endpoint := by
    apply runs_induction _ (motive := fun _ _ left right outs shown =>
      left.Alike right ∧ ∀ endpoint,
        outs.filter (fun datagram => datagram.endpoint = endpoint) =
          shown.filter fun datagram => datagram.endpoint = endpoint) _ _ hsame
        hrun hother
    · exact ⟨⟨.refl _, rfl, rfl, rfl⟩, fun _ => rfl⟩
    · rintro past twins left right outs shown event twin next after new seen hleft
        hright ⟨halike, houts⟩ hkey hstep htwin
      have hnext : next.Alike after ∧ ∀ endpoint,
          new.filter (fun datagram => datagram.endpoint = endpoint) =
            seen.filter fun datagram => datagram.endpoint = endpoint := by
        rcases ServerEvent.cases_of_unordered hkey with
          rfl | ⟨now, walk, other, rfl, rfl⟩
        · by_cases htick : ∃ now walk, event = .mixed now walk
          · obtain ⟨now, walk, rfl⟩ := htick
            exact halike.tick (registered_of_run hleft) (registered_of_run hright)
              hstep htwin
          · obtain ⟨hafter, rfl⟩ := halike.step
              (fun now walk heq => htick ⟨now, walk, heq⟩) hstep htwin
            exact ⟨hafter, fun _ => rfl⟩
        · exact halike.tick (registered_of_run hleft) (registered_of_run hright)
            hstep htwin
      refine ⟨hnext.1, fun endpoint => ?_⟩
      rw [List.filter_append, List.filter_append, houts, hnext.2]
  exact ⟨halike.1.sessions, halike.2⟩

/-- Two endpoints have spoken; a tick walks the maps in the orders given. -/
def twoSpeak (keys : List String) : List ServerEvent :=
  [.received 0 ⟨10, 0, 0, 7, 50000⟩ [1, 0], .received 0 ⟨10, 0, 0, 8, 50000⟩ [2, 0],
    .mixed 20000000 ⟨keys, keys, keys⟩]

theorem orders_unobservable_two :
    let events := twoSpeak ["10.0.0.7:50000", "10.0.0.8:50000"]
    let others := twoSpeak ["10.0.0.8:50000", "10.0.0.7:50000"]
    ∃ final datagrams last shown,
      run (step WebSocketSession.sampleAccept) (new false) events =
        some (final, datagrams) ∧
      run (step WebSocketSession.sampleAccept) (new false) others =
        some (last, shown) ∧
      final.sessions = last.sessions ∧ ∀ endpoint,
        datagrams.filter (fun datagram => datagram.endpoint = endpoint) =
          shown.filter fun datagram => datagram.endpoint = endpoint := by
  intro events others
  have hfirst : (run (step WebSocketSession.sampleAccept) (new false)
      events).isSome = true := by
    decide +kernel
  have hsecond : (run (step WebSocketSession.sampleAccept) (new false)
      others).isSome = true := by
    decide +kernel
  obtain ⟨⟨final, datagrams⟩, hrun⟩ := Option.isSome_iff_exists.1 hfirst
  obtain ⟨⟨last, shown⟩, hother⟩ := Option.isSome_iff_exists.1 hsecond
  have hsame : events.map ServerEvent.unordered =
      others.map ServerEvent.unordered := rfl
  exact ⟨final, datagrams, last, shown, hrun, hother,
    orders_unobservable hsame hrun hother⟩

end VoiceChatServer

end VoiceServer

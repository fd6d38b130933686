/-
The additions of the mixer over the runs of a room.  How much a client may hear
at a tick is a matter of the sizes of the packets; whether the sums then fit is
a matter of their contents.
-/
import VoiceServer.MixerOverflow
import VoiceServer.RoomDelivery

namespace VoiceServer

universe u v

/-- The event with another content in its packet. -/
def RoomEvent.mapPacket {Id : Type u} {Client : Type v}
    (f : AudioPacket → AudioPacket) : RoomEvent Id Client → RoomEvent Id Client
  | .addClient id client => .addClient id client
  | .removeClient id => .removeClient id
  | .processAudio now id packet => .processAudio now id (f packet)
  | .tick now walk => .tick now walk

namespace RoomManager

open AudioMixer

variable {Id : Type u} [DecidableEq Id] {Client : Type v}
  (f : AudioPacket → AudioPacket)

section History

variable (id : Id) (history : History Id Client)

theorem registered_mapPacket :
    registered id (history.map (RoomEvent.mapPacket f)) =
      registered id history := by
  induction history with
  | nil => rfl
  | cons event older ih =>
      cases event <;>
        simp only [List.map_cons, RoomEvent.mapPacket, registered, ih]

theorem pending_mapPacket :
    pending id (history.map (RoomEvent.mapPacket f)) =
      (pending id history).map fun entry => (entry.1, f entry.2) := by
  induction history with
  | nil => rfl
  | cons event older ih =>
      cases event with
      | addClient added client => exact ih
      | removeClient removed =>
          simp only [List.map_cons, RoomEvent.mapPacket, pending, ih]
          split <;> rfl
      | processAudio now sender packet =>
          simp only [List.map_cons, RoomEvent.mapPacket, pending, ih,
            List.length_map]
          split
          · rw [List.map_append]
            rfl
          · rfl
      | tick now walk => rfl

theorem lastPacket_mapPacket :
    lastPacket id (history.map (RoomEvent.mapPacket f)) =
      lastPacket id history := by
  induction history with
  | nil => rfl
  | cons event older ih =>
      cases event <;>
        simp only [List.map_cons, RoomEvent.mapPacket, lastPacket, ih]

theorem speakers_mapPacket :
    speakers (history.map (RoomEvent.mapPacket f)) = speakers history := by
  have hspeaker : (RoomEvent.speaker ∘ RoomEvent.mapPacket f :
      RoomEvent Id Client → Option Id) = RoomEvent.speaker := by
    funext event
    cases event <;> rfl
  rw [speakers, speakers, List.filterMap_map, hspeaker]

theorem heard_mapPacket (now : Int) :
    heard (history.map (RoomEvent.mapPacket f)) now id =
      (heard history now id).map fun entry =>
        (entry.1, entry.2.1, f entry.2.2) := by
  rw [heard, heard, speakers_mapPacket, List.map_flatMap]
  congr 1
  funext sender
  have hrecent : SpokeRecently (history.map (RoomEvent.mapPacket f)) now
      sender ↔ SpokeRecently history now sender := by
    rw [SpokeRecently, SpokeRecently, lastPacket_mapPacket]
  unfold heardOf
  by_cases hshared : sender ≠ id ∧ SpokeRecently history now sender
  · rw [if_pos hshared, if_pos ⟨hshared.1, hrecent.2 hshared.2⟩,
      pending_mapPacket, ← map_rtake, List.map_map, List.map_map]
    rfl
  · rw [if_neg hshared, if_neg fun hboth =>
      hshared ⟨hboth.1, hrecent.1 hboth.2⟩]
    rfl

/-- How many packets with a sample a client should hear. -/
def heardSamples (now : Int) : Nat :=
  (heard history now id).countP fun entry => hasSample entry.2.2

theorem heardSamples_mapPacket
    (hf : ∀ packet, hasSample (f packet) = hasSample packet) (now : Int) :
    heardSamples id (history.map (RoomEvent.mapPacket f)) now =
      heardSamples id history now := by
  rw [heardSamples, heardSamples, heard_mapPacket, List.countP_map]
  congr 1
  funext entry
  exact hf entry.2.2

end History

/-- The other room holds the same packets with other contents. -/
structure Recoded (room other : RoomManager Id Client) : Prop where
  clients : other.clients = room.clients
  buffers : ∀ id, other.audioBuffers.lookup id =
    (room.audioBuffers.lookup id).map (List.map f)
  activity : ∀ id, other.clientLastActivity.lookup id =
    room.clientLastActivity.lookup id

section Recoded

variable {f} {room other next : RoomManager Id Client}

theorem perm_keys_of_isSome {A B : Type*} {left : AList fun _ : Id => A}
    {right : AList fun _ : Id => B}
    (hsame : ∀ id, (left.lookup id).isSome = (right.lookup id).isSome) :
    left.keys.Perm right.keys := by
  refine (List.perm_ext_iff_of_nodup left.keys_nodup right.keys_nodup).2 ?_
  intro id
  rw [← AList.mem_keys, ← AList.mem_keys, ← AList.lookup_isSome,
    ← AList.lookup_isSome, hsame]

theorem Recoded.recorded (hrecoded : Recoded f room other)
    (hrecorded : room.Recorded) : other.Recorded := by
  intro id hid
  rw [← AList.lookup_isSome, hrecoded.buffers, Option.isSome_map,
    AList.lookup_isSome] at hid
  rw [← AList.lookup_isSome, hrecoded.activity, AList.lookup_isSome]
  exact hrecorded id hid

theorem Recoded.walks (hrecoded : Recoded f room other)
    (hrecorded : room.Recorded) {now : Int} {walk : Walk Id}
    (hwalks : room.Walks now walk) : other.Walks now walk := by
  obtain ⟨hclients, hbuffers, hactivity⟩ := hwalks
  have hkeys : room.audioBuffers.keys.Perm other.audioBuffers.keys :=
    perm_keys_of_isSome fun id => by
      rw [hrecoded.buffers, Option.isSome_map]
  have htimes :
      room.clientLastActivity.keys.Perm other.clientLastActivity.keys :=
    perm_keys_of_isSome fun id => by rw [hrecoded.activity]
  rw [sendMixes_eq room now fun id hid =>
    hrecorded id (AList.mem_keys.2 (hbuffers.subset hid))] at hactivity
  refine ⟨?_, hbuffers.trans hkeys, ?_⟩
  · rw [hrecoded.clients]
    exact hclients
  · rw [sendMixes_eq other now fun id hid => hrecoded.recorded hrecorded id
      (AList.mem_keys.2 ((hbuffers.trans hkeys).subset hid))]
    exact hactivity.trans htimes

theorem Recoded.processAudio (hrecoded : Recoded f room other) (now : Int)
    (id : Id) (packet : AudioPacket) :
    Recoded f (room.processAudio now id packet)
      (other.processAudio now id (f packet)) where
  clients := hrecoded.clients
  buffers asked := by
    simp only [RoomManager.processAudio]
    by_cases hid : asked = id
    · subst hid
      rw [AList.lookup_insert, AList.lookup_insert, hrecoded.buffers]
      cases room.audioBuffers.lookup asked with
      | none => rfl
      | some packets =>
          simp only [Option.map_some, Option.getD_some, List.length_append,
            List.length_map, List.length_singleton]
          split <;> simp
    · rw [AList.lookup_insert_ne hid, AList.lookup_insert_ne hid,
        hrecoded.buffers]
  activity asked := by
    simp only [RoomManager.processAudio]
    by_cases hid : asked = id
    · subst hid
      rw [AList.lookup_insert, AList.lookup_insert]
    · rw [AList.lookup_insert_ne hid, AList.lookup_insert_ne hid,
        hrecoded.activity]

/-- The other room can take the same step. -/
theorem Recoded.step (hrecoded : Recoded f room other)
    (hrecorded : room.Recorded) {event : RoomEvent Id Client}
    {sent : List (Delivery Id Client)}
    (hstep : room.step event = some (next, sent)) :
    ∃ after heard, other.step (event.mapPacket f) = some (after, heard) ∧
      Recoded f next after := by
  cases event with
  | addClient id client =>
      obtain ⟨rfl, -⟩ : (room.addClient id client).1 = next ∧ _ := by
        simpa [RoomManager.step] using hstep
      refine ⟨_, _, rfl, ?_, hrecoded.buffers, hrecoded.activity⟩
      simp only [RoomManager.addClient, hrecoded.clients]
  | removeClient id =>
      obtain ⟨rfl, -⟩ : room.removeClient id = next ∧ _ := by
        simpa [RoomManager.step] using hstep
      refine ⟨_, _, rfl, ?_, fun asked => ?_, hrecoded.activity⟩
      · simp only [RoomManager.removeClient, hrecoded.clients]
      · simp only [RoomManager.removeClient]
        by_cases hid : asked = id
        · subst hid
          rw [AList.lookup_erase, AList.lookup_erase]
          rfl
        · rw [AList.lookup_erase_ne hid, AList.lookup_erase_ne hid,
            hrecoded.buffers]
  | processAudio now id packet =>
      obtain ⟨rfl, -⟩ : room.processAudio now id packet = next ∧ _ := by
        simpa [RoomManager.step] using hstep
      exact ⟨_, _, rfl, hrecoded.processAudio now id packet⟩
  | tick now walk =>
      have hwalks : room.Walks now walk := by
        by_contra hnot
        simp [RoomManager.step, hnot] at hstep
      have hother := step_tick (hrecoded.walks hrecorded hwalks)
      have hticked := ticked_of_step hrecorded hstep
      have htickedOther := ticked_of_step (hrecoded.recorded hrecorded) hother
      have hrecent : ∀ id, other.Recent now id ↔ room.Recent now id := by
        intro id
        rw [Recent, Recent, hrecoded.activity]
      have hmem : ∀ id, id ∈ other.audioBuffers ↔ id ∈ room.audioBuffers := by
        intro id
        rw [← AList.lookup_isSome, ← AList.lookup_isSome, hrecoded.buffers,
          Option.isSome_map]
      refine ⟨_, _, hother, ?_, fun id => ?_, fun id => ?_⟩
      · rw [htickedOther.clients_eq, hticked.clients_eq, hrecoded.clients]
      · rw [htickedOther.buffers_eq, hticked.buffers_eq]
        simp only [hrecent, hmem]
        split <;> rfl
      · rw [htickedOther.activity_eq, hticked.activity_eq, hrecoded.activity]
        simp only [hrecent]

theorem recoded_of_run {events : List (RoomEvent Id Client)}
    {sent : List (Delivery Id Client)}
    (hrun : run RoomManager.step new events = some (room, sent)) :
    ∃ after heard, run RoomManager.step new
        (events.map (RoomEvent.mapPacket f)) = some (after, heard) ∧
      Recoded f room after := by
  refine run_induction RoomManager.step
    (motive := fun past state _ => ∃ after heard, run RoomManager.step new
      (past.map (RoomEvent.mapPacket f)) = some (after, heard) ∧
        Recoded f state after) ?_ ?_ hrun
  · exact ⟨new, [], rfl, rfl, fun _ => rfl, fun _ => rfl⟩
  · rintro past state outs event next new hpast ⟨after, heard, hafter, hsame⟩
      hstep
    obtain ⟨last, later, hlast, hnext⟩ :=
      hsame.step (tracks_of_run hpast).recorded hstep
    refine ⟨last, heard ++ later, ?_, hnext⟩
    rw [List.map_append]
    exact (run_concat_eq_some RoomManager.step).2
      ⟨after, heard, later, hafter, hlast, rfl⟩

end Recoded

/-- At no tick of the run does an addition of the mixer leave the range of an
`int32_t`. -/
def TicksFit (events : List (RoomEvent Id Client)) : Prop :=
  ∀ past now walk, past ++ [.tick now walk] <+: events →
    ∀ room outs next deliveries, run step new past = some (room, outs) →
      room.step (.tick now walk) = some (next, deliveries) →
      ∀ delivery ∈ deliveries,
        AdditionsFit (delivery.packetsToMix.map Prod.snd)

/-- At every tick at most 2^16 packets with a sample are to be heard by any
client. -/
def FewHeard (events : List (RoomEvent Id Client)) : Prop :=
  ∀ past now walk, past ++ [.tick now walk] <+: events →
    ∀ id client, registered id past.reverse = some client →
      heardSamples id past.reverse now ≤ 2 ^ 16

/-- The packet of the same size with zero bytes. -/
def blank (packet : AudioPacket) : AudioPacket :=
  ⟨List.replicate packet.data.length 0⟩

/-- The same calls with packets of the same sizes. -/
def SameSizes (events other : List (RoomEvent Id Client)) : Prop :=
  events.map (RoomEvent.mapPacket blank) =
    other.map (RoomEvent.mapPacket blank)

theorem hasSample_blank (packet : AudioPacket) :
    hasSample (blank packet) = hasSample packet := by
  simp [hasSample, blank]

theorem hasSample_lowest (packet : AudioPacket) :
    hasSample (lowest packet) = hasSample packet := by
  simp [hasSample, lowest]

omit [DecidableEq Id] in
theorem sameSizes_lowest (events : List (RoomEvent Id Client)) :
    SameSizes events (events.map (RoomEvent.mapPacket lowest)) := by
  rw [SameSizes, List.map_map]
  congr 1
  funext event
  cases event <;> simp [RoomEvent.mapPacket, blank, lowest]

section Ticks

variable {room next : RoomManager Id Client} {history : History Id Client}
  {now : Int} {walk : Walk Id} {deliveries : List (Delivery Id Client)}

/-- What the mixer is given is what the history says, in some order. -/
theorem Tracks.packets_perm (htracks : Tracks room history)
    (hticked : Ticked room next now walk deliveries)
    {delivery : Delivery Id Client} (hdelivery : delivery ∈ deliveries) :
    (delivery.packetsToMix.map Prod.snd).Perm
      ((heard history now delivery.listener).map fun entry =>
        entry.2.2) := by
  obtain ⟨-, -, hpackets⟩ := hticked.mem_deliveries_iff.1 hdelivery
  have hperm := htracks.heardBy_perm hticked.buffers_order now delivery.listener
  rw [← hpackets] at hperm
  simpa [Function.comp_def] using hperm.map Prod.snd

/-- Who is to hear something is sent something. -/
theorem Tracks.exists_delivery (htracks : Tracks room history)
    (hticked : Ticked room next now walk deliveries) {id : Id} {client : Client}
    (hclient : registered id history = some client)
    (hheard : heard history now id ≠ []) :
    ∃ delivery ∈ deliveries, delivery.listener = id := by
  have hperm := htracks.heardBy_perm hticked.buffers_order now id
  refine ⟨⟨id, client, room.heardBy now walk.buffers id⟩, ?_, rfl⟩
  rw [hticked.mem_deliveries_iff]
  refine ⟨(htracks.clients id).trans hclient, ?_, rfl⟩
  intro hempty
  change room.heardBy now walk.buffers id = [] at hempty
  rw [hempty] at hperm
  exact hheard (List.map_eq_nil_iff.1 hperm.symm.eq_nil)

theorem countP_heard (history : History Id Client) (now : Int) (id : Id) :
    ((heard history now id).map fun entry => entry.2.2).countP hasSample =
      heardSamples id history now := by
  rw [List.countP_map]
  rfl

end Ticks

theorem FewHeard.ticksFit {events : List (RoomEvent Id Client)}
    (hfew : FewHeard events) : TicksFit events := by
  intro past now walk hpast room outs next deliveries hrun hstep delivery
    hdelivery
  have htracks := tracks_of_run hrun
  have hticked := ticked_of_step htracks.recorded hstep
  apply additionsFit_of_few
  rw [(htracks.packets_perm hticked hdelivery).countP_eq, countP_heard]
  refine hfew past now walk hpast delivery.listener delivery.client ?_
  rw [← htracks.clients]
  exact (hticked.mem_deliveries_iff.1 hdelivery).1

/-- The bound speaks of sizes only. -/
theorem FewHeard.of_sameSizes {events other : List (RoomEvent Id Client)}
    (hfew : FewHeard events) (hsame : SameSizes events other) :
    FewHeard other := by
  intro past now walk hpast id client hclient
  obtain ⟨first, event, hprefix, hfirst, hevent⟩ :=
    exists_prefix_of_map_eq hsame hpast
  have htick : event = .tick now walk := by
    cases event <;> simp_all [RoomEvent.mapPacket]
  subst htick
  have hreverse : first.reverse.map (RoomEvent.mapPacket blank) =
      past.reverse.map (RoomEvent.mapPacket blank) := by
    rw [List.map_reverse, List.map_reverse, hfirst]
  rw [← heardSamples_mapPacket blank id past.reverse hasSample_blank now,
    ← hreverse, heardSamples_mapPacket blank id _ hasSample_blank]
  refine hfew first now walk hprefix id client ?_
  rw [← registered_mapPacket blank, hreverse, registered_mapPacket, hclient]

/-- More than 2^16 packets of the lowest samples overflow. -/
theorem exists_overflow {past : List (RoomEvent Id Client)}
    {room next : RoomManager Id Client}
    {outs deliveries : List (Delivery Id Client)} {now : Int} {walk : Walk Id}
    (hrun : run step new (past.map (RoomEvent.mapPacket lowest)) =
      some (room, outs))
    (hstep : room.step (.tick now walk) = some (next, deliveries))
    {id : Id} {client : Client}
    (hclient : registered id past.reverse = some client)
    (hmany : 2 ^ 16 < heardSamples id past.reverse now) :
    ∃ delivery ∈ deliveries,
      ¬ AdditionsFit (delivery.packetsToMix.map Prod.snd) := by
  have htracks := tracks_of_run hrun
  have hticked := ticked_of_step htracks.recorded hstep
  rw [← List.map_reverse] at htracks
  have hheard := heard_mapPacket lowest id past.reverse now
  obtain ⟨delivery, hdelivery, rfl⟩ := htracks.exists_delivery hticked
    ((registered_mapPacket lowest id past.reverse).trans hclient) (by
      rw [hheard, ne_eq, List.map_eq_nil_iff]
      intro hempty
      simp [heardSamples, hempty] at hmany)
  refine ⟨delivery, hdelivery, ?_⟩
  have hperm := htracks.packets_perm hticked hdelivery
  have hself : (delivery.packetsToMix.map Prod.snd).map lowest =
      delivery.packetsToMix.map Prod.snd := by
    rw [hheard, List.map_map] at hperm
    refine (List.map_congr_left fun packet hpacket => ?_).trans
      (List.map_id _)
    obtain ⟨entry, -, rfl⟩ := List.mem_map.1 (hperm.subset hpacket)
    exact lowest_lowest entry.2.2
  rw [← hself]
  apply not_additionsFit_lowest
  rwa [hperm.countP_eq, countP_heard,
    heardSamples_mapPacket lowest _ _ hasSample_lowest]

/-- For packets of the given sizes no addition of the mixer leaves the range,
whatever the samples are, exactly when no tick lets a client hear more than
2^16 packets. -/
theorem ticks_fit_iff {events : List (RoomEvent Id Client)}
    {final : RoomManager Id Client} {sent : List (Delivery Id Client)}
    (hrun : run step new events = some (final, sent)) :
    (∀ other, SameSizes events other → TicksFit other) ↔ FewHeard events := by
  constructor
  · intro hall past now walk hpast id client hclient
    by_contra hmany
    rw [Nat.not_le] at hmany
    obtain ⟨rest, rfl⟩ := hpast
    obtain ⟨middle, outs, -, hmiddle, -, -⟩ := (run_append_eq_some step).1 hrun
    obtain ⟨room, first, later, hroom, htick, -⟩ :=
      (run_concat_eq_some step).1 hmiddle
    -- The same run with the lowest samples.
    obtain ⟨loud, loudOuts, hloud, hrecoded⟩ := @recoded_of_run _ _ _ lowest
      _ _ _ hroom
    obtain ⟨after, deliveries, hafter, -⟩ :=
      hrecoded.step (tracks_of_run hroom).recorded htick
    obtain ⟨delivery, hdelivery, hover⟩ :=
      exists_overflow hloud hafter hclient hmany
    exact hover (hall _ (sameSizes_lowest _) (past.map _) now walk
      ⟨rest.map (RoomEvent.mapPacket lowest), by simp [RoomEvent.mapPacket]⟩
      loud loudOuts after deliveries hloud hafter delivery hdelivery)
  · intro hfew other hsame
    exact (hfew.of_sameSizes hsame).ticksFit

theorem ticks_fit_iff_pair :
    let events : List (RoomEvent Nat Nat) :=
      [.addClient 1 10, .processAudio 0 2 ⟨[0, 0x80]⟩,
        .tick 20000000 ⟨[1], [2], [2]⟩]
    (∀ other, SameSizes events other → TicksFit other) ↔ FewHeard events := by
  intro events
  have hsome : (run step new events).isSome = true := by decide +kernel
  obtain ⟨⟨final, sent⟩, hrun⟩ := Option.isSome_iff_exists.1 hsome
  exact ticks_fit_iff hrun

/-- One packet of one lowest sample. -/
def shout (id : Nat) : RoomEvent Nat Nat :=
  .processAudio 0 id ⟨[0, 0x80]⟩

/-- Clients join, each submits as many packets as its buffer holds. -/
def crowd : Nat → List (RoomEvent Nat Nat)
  | 0 => []
  | size + 1 =>
      crowd size ++ .addClient size size ::
        List.replicate maxBufferSize (shout size)

theorem crowd_lowest (size : Nat) :
    (crowd size).map (RoomEvent.mapPacket lowest) = crowd size := by
  induction size with
  | zero => rfl
  | succ size ih =>
      rw [crowd, List.map_append, ih, List.map_cons, List.map_replicate]
      rfl

section Shouts

variable (id sender count : Nat) (history : History Nat Nat)

theorem registered_shouts :
    registered id (List.replicate count (shout sender) ++ history) =
      registered id history := by
  induction count with
  | zero => rfl
  | succ count ih => exact ih

theorem lastPacket_shouts :
    lastPacket id (List.replicate (count + 1) (shout sender) ++ history) =
      if sender = id then some 0 else lastPacket id history := by
  induction count with
  | zero => rfl
  | succ count ih =>
      rw [List.replicate_succ, List.cons_append, shout, lastPacket]
      rw [shout] at ih
      rw [ih]
      split <;> rfl

theorem pending_shouts :
    (pending id (List.replicate count (shout sender) ++ history)).map Prod.snd =
      (pending id history).map Prod.snd ++
        if sender = id then List.replicate count ⟨[0, 0x80]⟩ else [] := by
  induction count with
  | zero => simp
  | succ count ih =>
      rw [List.replicate_succ, List.cons_append, shout, pending]
      rw [shout] at ih
      by_cases hid : sender = id
      · rw [if_pos hid] at ih ⊢
        rw [if_pos hid, List.map_append, ih, List.append_assoc,
          List.replicate_succ']
        rfl
      · rw [if_neg hid] at ih ⊢
        rw [if_neg hid, ih]

end Shouts

theorem crowd_reverse (size : Nat) :
    (crowd (size + 1)).reverse =
      List.replicate maxBufferSize (shout size) ++
        .addClient size size :: (crowd size).reverse := by
  rw [crowd, List.reverse_append, List.reverse_cons, List.reverse_replicate,
    List.append_assoc]
  rfl

/-- Every member of the crowd is registered, spoke, and has a full buffer. -/
theorem crowd_spec (size id : Nat) :
    registered id (crowd size).reverse = (if id < size then some id else none) ∧
      lastPacket id (crowd size).reverse =
        (if id < size then some 0 else none) ∧
      (pending id (crowd size).reverse).map Prod.snd =
        if id < size then List.replicate maxBufferSize ⟨[0, 0x80]⟩ else [] := by
  induction size with
  | zero => exact ⟨rfl, rfl, rfl⟩
  | succ size ih =>
      obtain ⟨hclient, hlast, hpending⟩ := ih
      rw [crowd_reverse]
      refine ⟨?_, ?_, ?_⟩
      · rw [registered_shouts, registered, hclient]
        grind
      · rw [show maxBufferSize = 49 + 1 from rfl, lastPacket_shouts, lastPacket,
          hlast]
        grind
      · rw [pending_shouts, pending, hpending]
        grind

/-- What one member of the crowd hears of another. -/
theorem countP_heardOf_crowd (size sender : Nat) :
    (heardOf (crowd size).reverse 20000000 0 sender).countP
        (fun entry => hasSample entry.2.2) =
      if sender ≠ 0 ∧ sender < size then maxBufferSize else 0 := by
  obtain ⟨-, hlast, hpending⟩ := crowd_spec size sender
  unfold heardOf
  by_cases hmember : sender < size
  · rw [if_pos hmember] at hlast hpending
    have hspoke : SpokeRecently (crowd size).reverse 20000000 sender :=
      ⟨0, hlast, by decide⟩
    by_cases hself : sender = 0
    · simp [hself]
    · rw [if_pos ⟨hself, hspoke⟩, if_pos ⟨hself, hmember⟩, List.countP_map]
      have hcount : ((pending sender (crowd size).reverse).rtake
          maxBufferSize).countP (hasSample ∘ Prod.snd) = maxBufferSize := by
        rw [← List.countP_map, map_rtake, hpending]
        decide
      exact hcount
  · rw [if_neg hmember] at hlast
    have hsilent : ¬ SpokeRecently (crowd size).reverse 20000000 sender := by
      rintro ⟨time, htime, -⟩
      simp [hlast] at htime
    rw [if_neg fun hboth => hsilent hboth.2,
      if_neg fun hboth : sender ≠ 0 ∧ sender < size => hmember hboth.2]
    rfl

/-- One member hears all the others. -/
theorem heardSamples_crowd (size : Nat) :
    heardSamples 0 (crowd (size + 1)).reverse 20000000 =
      maxBufferSize * size := by
  have hperm : (heard (crowd (size + 1)).reverse 20000000 0).Perm
      ((List.range (size + 1)).flatMap
        (heardOf (crowd (size + 1)).reverse 20000000 0)) := by
    refine perm_flatMap_of_nodup _ (List.nodup_dedup _) List.nodup_range ?_
    intro sender hne
    obtain ⟨-, -, hpending⟩ := heardOf_ne_nil_iff.1 hne
    obtain ⟨-, -, hspec⟩ := crowd_spec (size + 1) sender
    have hmember : sender < size + 1 := by
      by_contra hnot
      rw [if_neg hnot] at hspec
      exact hpending (List.map_eq_nil_iff.1 hspec)
    rw [List.mem_range]
    exact iff_of_true (mem_speakers_of_pending hpending) hmember
  have hothers : (List.range size).map (fun sender =>
      if sender + 1 ≠ 0 ∧ sender + 1 < size + 1 then maxBufferSize else 0) =
      List.replicate size maxBufferSize := by
    rw [List.eq_replicate_iff]
    refine ⟨by simp, ?_⟩
    intro count hcount
    obtain ⟨sender, hsender, rfl⟩ := List.mem_map.1 hcount
    have hlt := List.mem_range.1 hsender
    exact if_pos ⟨Nat.succ_ne_zero sender, Nat.succ_lt_succ hlt⟩
  rw [heardSamples, hperm.countP_eq, List.countP_flatMap]
  simp only [Function.comp_def, countP_heardOf_crowd]
  rw [List.range_succ_eq_map, List.map_cons, List.map_map, List.sum_cons]
  simp only [Function.comp_def, Nat.succ_eq_add_one, hothers]
  rw [List.sum_replicate_nat, if_neg (by simp), Nat.zero_add, Nat.mul_comm]

theorem exists_run_of_no_tick {events : List (RoomEvent Id Client)}
    (hticks : ∀ now walk, .tick now walk ∉ events)
    (room : RoomManager Id Client) :
    ∃ final, run step room events = some (final, []) := by
  induction events generalizing room with
  | nil => exact ⟨room, rfl⟩
  | cons event rest ih =>
      have hrest : ∀ now walk, .tick now walk ∉ rest :=
        fun now walk hmem => hticks now walk (List.mem_cons_of_mem _ hmem)
      have hstep : ∃ next, room.step event = some (next, []) := by
        cases event with
        | tick now walk => exact absurd List.mem_cons_self (hticks now walk)
        | _ => exact ⟨_, rfl⟩
      obtain ⟨next, hnext⟩ := hstep
      obtain ⟨final, hfinal⟩ := ih hrest next
      exact ⟨final, (run_cons_eq_some step).2
        ⟨next, [], [], hnext, hfinal, rfl⟩⟩

theorem no_tick_crowd (size : Nat) (now : Int) (walk : Walk Nat) :
    .tick now walk ∉ crowd size := by
  induction size with
  | zero => simp [crowd]
  | succ size ih => simp [crowd, ih, shout]

/-- 1312 clients that shout at once. -/
theorem crowd_overflows :
    ¬ ∀ (events : List (RoomEvent Nat Nat)) final sent,
      run step new events = some (final, sent) → TicksFit events := by
  intro hclaim
  obtain ⟨room, hroom⟩ := exists_run_of_no_tick (no_tick_crowd 1312) new
  obtain ⟨walk, hwalks⟩ := room.exists_walks 20000000
  have hstep := step_tick hwalks
  have hrun := (run_concat_eq_some step).2 ⟨room, [], _, hroom, hstep, rfl⟩
  have hmapped := hroom
  rw [← crowd_lowest] at hmapped
  obtain ⟨delivery, hdelivery, hover⟩ := exists_overflow hmapped hstep
    (crowd_spec 1312 0).1 (by rw [heardSamples_crowd]; decide)
  exact hover (hclaim _ _ _ hrun (crowd 1312) 20000000 walk List.prefix_rfl
    room [] _ _ hroom hstep delivery hdelivery)

end RoomManager

end VoiceServer

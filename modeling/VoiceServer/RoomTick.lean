/-
What one mixing tick does, loop by loop.  As long as every buffer has an
activity record the loops only read the records, and each client is sent what
the other clients' buffers hold.
-/
import VoiceServer.RoomManager

namespace VoiceServer

universe u v

namespace RoomManager

variable {Id : Type u} [DecidableEq Id] {Client : Type v}

/-- Every buffer has an activity record. -/
def Recorded (room : RoomManager Id Client) : Prop :=
  ∀ id ∈ room.audioBuffers, id ∈ room.clientLastActivity

/-- The time of the last activity of a client is not too long ago. -/
def Recent (room : RoomManager Id Client) (now : Int) (id : Id) : Prop :=
  now - (room.clientLastActivity.lookup id).getD 0 ≤ activityTimeout

instance (room : RoomManager Id Client) (now : Int) (id : Id) :
    Decidable (room.Recent now id) :=
  inferInstanceAs (Decidable (_ ≤ _))

/-- What one buffer adds to the packets mixed for a client. -/
def share (room : RoomManager Id Client) (now : Int) (clientId bufferId : Id) :
    List (Id × AudioPacket) :=
  if bufferId ≠ clientId ∧ room.Recent now bufferId then
    ((room.audioBuffers.lookup bufferId).getD []).map (bufferId, ·)
  else []

theorem mem_share {room : RoomManager Id Client} {now : Int}
    {clientId bufferId : Id} {entry : Id × AudioPacket}
    (hentry : entry ∈ room.share now clientId bufferId) :
    entry.1 = bufferId ∧ bufferId ≠ clientId ∧ room.Recent now bufferId := by
  unfold share at hentry
  split at hentry
  · next hshared =>
    obtain ⟨packet, -, rfl⟩ := List.mem_map.1 hentry
    exact ⟨rfl, hshared⟩
  · simp at hentry

theorem subscript_of_mem {times : AList fun _ : Id => Int} {id : Id}
    (hid : id ∈ times) :
    subscript times id = ((times.lookup id).getD 0, times) := by
  rw [← AList.lookup_isSome, Option.isSome_iff_exists] at hid
  obtain ⟨time, htime⟩ := hid
  simp [subscript, htime]

/-- The inner loop. -/
theorem packetsToMix_eq (room : RoomManager Id Client) (now : Int)
    (clientId : Id) {order : List Id}
    (hrecorded : ∀ id ∈ order, id ∈ room.clientLastActivity) :
    packetsToMix room.audioBuffers now clientId order
        room.clientLastActivity =
      (order.flatMap (room.share now clientId), room.clientLastActivity) := by
  induction order with
  | nil => rfl
  | cons bufferId rest ih =>
      obtain ⟨hhead, hrest⟩ := List.forall_mem_cons.1 hrecorded
      simp only [packetsToMix, subscript_of_mem hhead, ih hrest,
        List.flatMap_cons]
      by_cases hshared : bufferId ≠ clientId ∧ room.Recent now bufferId
      · rw [share, if_pos hshared]
        by_cases hempty : (room.audioBuffers.lookup bufferId).getD [] = []
        · simp [hempty]
        · rw [if_pos ⟨hshared.1, hempty, hshared.2⟩]
      · rw [share, if_neg hshared,
          if_neg fun hall => hshared ⟨hall.1, hall.2.2⟩]
        rfl

/-- The packets mixed for a client. -/
def heardBy (room : RoomManager Id Client) (now : Int) (buffers : List Id)
    (clientId : Id) : List (Id × AudioPacket) :=
  buffers.flatMap (room.share now clientId)

/-- What the tick sends to one client: one packet, or nothing. -/
def deliveryTo (room : RoomManager Id Client) (now : Int) (buffers : List Id)
    (clientId : Id) : Option (Delivery Id Client) :=
  (room.clients.lookup clientId).bind fun client =>
    if room.heardBy now buffers clientId = [] then none
    else some ⟨clientId, client, room.heardBy now buffers clientId⟩

/-- The outer loop. -/
theorem sendMixes_eq (room : RoomManager Id Client) (now : Int)
    {buffers order : List Id}
    (hrecorded : ∀ id ∈ buffers, id ∈ room.clientLastActivity) :
    room.sendMixes now buffers order room.clientLastActivity =
      (order.filterMap (room.deliveryTo now buffers),
        room.clientLastActivity) := by
  induction order with
  | nil => rfl
  | cons clientId rest ih =>
      simp only [sendMixes, packetsToMix_eq room now clientId hrecorded, ih,
        List.filterMap_cons, deliveryTo, heardBy]
      cases hclient : room.clients.lookup clientId with
      | none => rfl
      | some client =>
          by_cases hempty : buffers.flatMap (room.share now clientId) = []
          · simp [hempty]
          · simp [hempty]

theorem lookup_clearBuffers (buffers : AList fun _ : Id => List AudioPacket)
    (order : List Id) (id : Id) :
    (clearBuffers buffers order).lookup id =
      if id ∈ order then some [] else buffers.lookup id := by
  induction order generalizing buffers with
  | nil => rfl
  | cons head rest ih =>
      rw [clearBuffers, ih]
      by_cases hrest : id ∈ rest
      · simp [hrest]
      by_cases hhead : id = head
      · subst hhead
        simp [hrest]
      · simp [hrest, hhead, AList.lookup_insert_ne hhead]

/-- The clean-up loop erases the stale ids, each at its own turn. -/
theorem cleanUp_spec (now : Int) {order : List Id} (hnodup : order.Nodup)
    (room : RoomManager Id Client) :
    (cleanUp now order room).clients = room.clients ∧
      ∀ id,
        (cleanUp now order room).audioBuffers.lookup id =
          (if id ∈ order ∧ ¬ room.Recent now id then none
          else room.audioBuffers.lookup id) ∧
        (cleanUp now order room).clientLastActivity.lookup id =
          if id ∈ order ∧ ¬ room.Recent now id then none
          else room.clientLastActivity.lookup id := by
  induction order generalizing room with
  | nil => simp [cleanUp]
  | cons head rest ih =>
      obtain ⟨hhead, hrest⟩ := List.nodup_cons.1 hnodup
      unfold cleanUp
      by_cases hstale : activityTimeout <
          now - (room.clientLastActivity.lookup head).getD 0
      · obtain ⟨hclients, hlookup⟩ := ih hrest { room with
          audioBuffers := room.audioBuffers.erase head
          clientLastActivity := room.clientLastActivity.erase head }
        simp only [if_pos hstale]
        refine ⟨hclients, fun id => ?_⟩
        rw [(hlookup id).1, (hlookup id).2]
        by_cases hid : id = head
        · subst hid
          have hgone : ¬ room.Recent now id := Int.not_le.2 hstale
          simp [hhead, hgone]
        · simp [hid, Recent, AList.lookup_erase_ne hid]
      · obtain ⟨hclients, hlookup⟩ := ih hrest room
        simp only [if_neg hstale]
        refine ⟨hclients, fun id => ?_⟩
        rw [(hlookup id).1, (hlookup id).2]
        by_cases hid : id = head
        · subst hid
          have hkept : room.Recent now id := Int.not_lt.1 hstale
          simp [hkept]
        · simp [hid]

/-- The whole tick. -/
structure Ticked (room next : RoomManager Id Client) (now : Int)
    (walk : Walk Id) (deliveries : List (Delivery Id Client)) : Prop where
  deliveries_eq : deliveries =
    walk.clients.filterMap (room.deliveryTo now walk.buffers)
  clients_order : walk.clients.Perm room.clients.keys
  buffers_order : walk.buffers.Perm room.audioBuffers.keys
  clients_eq : next.clients = room.clients
  buffers_eq : ∀ id, next.audioBuffers.lookup id =
    if id ∈ room.audioBuffers ∧ room.Recent now id then some [] else none
  activity_eq : ∀ id, next.clientLastActivity.lookup id =
    if room.Recent now id then room.clientLastActivity.lookup id else none

theorem ticked_of_step {room next : RoomManager Id Client}
    (hrecorded : room.Recorded) {now : Int} {walk : Walk Id}
    {deliveries : List (Delivery Id Client)}
    (hstep : room.step (.tick now walk) = some (next, deliveries)) :
    Ticked room next now walk deliveries := by
  simp only [step, Option.ite_none_right_eq_some, Option.some.injEq] at hstep
  obtain ⟨⟨hclients, hbuffers, hactivity⟩, htick⟩ := hstep
  have hloop : ∀ id ∈ walk.buffers, id ∈ room.clientLastActivity := by
    intro id hid
    exact hrecorded id (AList.mem_keys.2 (hbuffers.subset hid))
  rw [sendMixes_eq room now hloop] at hactivity
  have hnodup : walk.activity.Nodup :=
    hactivity.nodup_iff.2 room.clientLastActivity.keys_nodup
  simp only [mixAndSendAudio, sendMixes_eq room now hloop, Prod.mk.injEq]
    at htick
  obtain ⟨rfl, rfl⟩ := htick
  obtain ⟨hkept, hlookup⟩ := cleanUp_spec now hnodup { room with
    audioBuffers := clearBuffers room.audioBuffers walk.buffers }
  have hwalked : ∀ id, id ∈ walk.buffers ↔ id ∈ room.audioBuffers :=
    fun id => hbuffers.mem_iff.trans AList.mem_keys.symm
  have hcleaned : ∀ id, id ∈ walk.activity ↔ id ∈ room.clientLastActivity :=
    fun id => hactivity.mem_iff.trans AList.mem_keys.symm
  refine ⟨rfl, hclients, hbuffers, hkept, fun id => ?_, fun id => ?_⟩
  · rw [(hlookup id).1]
    by_cases hrecent : room.Recent now id
    · rw [if_neg fun hgone => hgone.2 hrecent, lookup_clearBuffers]
      by_cases hid : id ∈ room.audioBuffers
      · rw [if_pos ((hwalked id).2 hid), if_pos ⟨hid, hrecent⟩]
      · rw [if_neg fun hmem => hid ((hwalked id).1 hmem),
          if_neg fun hboth => hid hboth.1, AList.lookup_eq_none.2 hid]
    · by_cases hid : id ∈ room.audioBuffers
      · rw [if_pos ⟨(hcleaned id).2 (hrecorded id hid), hrecent⟩,
          if_neg fun hboth => hrecent hboth.2]
      · rw [lookup_clearBuffers, if_neg fun hmem => hid ((hwalked id).1 hmem),
          AList.lookup_eq_none.2 hid, ite_self,
          if_neg fun hboth => hid hboth.1]
  · rw [(hlookup id).2]
    by_cases hrecent : room.Recent now id
    · rw [if_neg fun hgone => hgone.2 hrecent, if_pos hrecent]
    · by_cases hid : id ∈ room.clientLastActivity
      · rw [if_pos ⟨(hcleaned id).2 hid, hrecent⟩, if_neg hrecent]
      · rw [AList.lookup_eq_none.2 hid, ite_self, ite_self]

end RoomManager

end VoiceServer

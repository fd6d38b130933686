/-
Room delivery against the history: what each tick sends, and when a removed
client is still heard.
-/
import VoiceServer.RoomHistory

namespace VoiceServer

universe u v

namespace RoomManager

variable {Id : Type u} [DecidableEq Id] {Client : Type v}

/-- Lists without repetitions that differ only where `f` gives nothing. -/
theorem perm_flatMap_of_nodup {A B : Type*} [DecidableEq A] (f : A → List B)
    {left right : List A} (hleft : left.Nodup) (hright : right.Nodup)
    (hsame : ∀ a, f a ≠ [] → (a ∈ left ↔ a ∈ right)) :
    (left.flatMap f).Perm (right.flatMap f) := by
  have hdrop : ∀ list : List A,
      list.flatMap f = (list.filter fun a => !(f a).isEmpty).flatMap f := by
    intro list
    induction list with
    | nil => rfl
    | cons a rest ih =>
        rw [List.flatMap_cons, ih]
        cases hempty : f a with
        | nil => simp [hempty]
        | cons b bs => simp [hempty]
  rw [hdrop left, hdrop right]
  apply List.Perm.flatMap_right
  refine (List.perm_ext_iff_of_nodup (hleft.filter _) (hright.filter _)).2 ?_
  intro a
  simp only [List.mem_filter, Bool.not_eq_true', List.isEmpty_eq_false_iff]
  constructor
  · rintro ⟨hmem, hne⟩
    exact ⟨(hsame a hne).1 hmem, hne⟩
  · rintro ⟨hmem, hne⟩
    exact ⟨(hsame a hne).2 hmem, hne⟩

section Tick

variable {room next : RoomManager Id Client} {history : History Id Client}
  {now : Int} {walk : Walk Id} {deliveries : List (Delivery Id Client)}

theorem Tracks.mem_audioBuffers (htracks : Tracks room history) {id : Id}
    (hpending : pending id history ≠ []) : id ∈ room.audioBuffers := by
  by_contra hmissing
  have hbuffer := htracks.buffers id
  rw [AList.lookup_eq_none.2 hmissing, Option.getD_none, eq_comm,
    List.map_eq_nil_iff, rtake_eq_nil_iff (by decide)] at hbuffer
  exact hpending hbuffer

/-- The share of one buffer is what the history says of its sender. -/
theorem Tracks.share_eq (htracks : Tracks room history) (now : Int)
    (clientId sender : Id) :
    room.share now clientId sender =
      (heardOf history now clientId sender).map fun entry =>
        (entry.1, entry.2.2) := by
  have hbuffer := htracks.buffers sender
  unfold share heardOf
  by_cases hempty : pending sender history = []
  · simp only [hempty, List.rtake_nil, List.map_nil] at hbuffer
    simp [hbuffer, hempty]
  have hrecord := htracks.recorded sender (htracks.mem_audioBuffers hempty)
  rw [← AList.lookup_isSome, Option.isSome_iff_exists] at hrecord
  obtain ⟨time, htime⟩ := hrecord
  have hlast := htracks.activity sender time htime
  have hrecent : room.Recent now sender ↔ SpokeRecently history now sender := by
    simp [Recent, SpokeRecently, htime, hlast]
  rw [hbuffer]
  by_cases hshared : sender ≠ clientId ∧ room.Recent now sender
  · rw [if_pos hshared, if_pos ⟨hshared.1, hrecent.1 hshared.2⟩]
    simp
  · rw [if_neg hshared, if_neg fun hboth =>
      hshared ⟨hboth.1, hrecent.2 hboth.2⟩]
    rfl

theorem heardOf_ne_nil_iff {clientId sender : Id} :
    heardOf history now clientId sender ≠ [] ↔
      sender ≠ clientId ∧ SpokeRecently history now sender ∧
        pending sender history ≠ [] := by
  unfold heardOf
  by_cases hshared : sender ≠ clientId ∧ SpokeRecently history now sender
  · rw [if_pos hshared, ne_eq, List.map_eq_nil_iff,
      rtake_eq_nil_iff (by decide)]
    exact ⟨fun hne => ⟨hshared.1, hshared.2, hne⟩, fun hall => hall.2.2⟩
  · rw [if_neg hshared]
    exact ⟨fun hne => absurd rfl hne,
      fun hall => absurd ⟨hall.1, hall.2.1⟩ hshared⟩

/-- The order of the walk and the order of the speakers differ only by a
permutation. -/
theorem Tracks.heardBy_perm (htracks : Tracks room history)
    (hwalk : walk.buffers.Perm room.audioBuffers.keys) (now : Int)
    (clientId : Id) :
    (room.heardBy now walk.buffers clientId).Perm
      ((heard history now clientId).map fun entry =>
        (entry.1, entry.2.2)) := by
  have hshare : room.share now clientId = fun sender =>
      (heardOf history now clientId sender).map fun entry =>
        (entry.1, entry.2.2) :=
    funext (htracks.share_eq now clientId)
  rw [heardBy, heard, hshare, List.map_flatMap]
  apply perm_flatMap_of_nodup
  · exact hwalk.nodup_iff.2 room.audioBuffers.keys_nodup
  · exact List.nodup_dedup _
  · intro sender hne
    rw [ne_eq, List.map_eq_nil_iff] at hne
    obtain ⟨-, -, hpending⟩ := heardOf_ne_nil_iff.1 hne
    have hmem := htracks.mem_audioBuffers hpending
    rw [hwalk.mem_iff, ← AList.mem_keys]
    exact ⟨fun _ => mem_speakers_of_pending hpending, fun _ => hmem⟩

theorem filter_deliveries (room : RoomManager Id Client) (now : Int)
    (buffers : List Id) {order : List Id} (hnodup : order.Nodup)
    (clientId : Id) :
    (order.filterMap (room.deliveryTo now buffers)).filter
        (fun delivery => delivery.listener = clientId) =
      if clientId ∈ order then
        (room.deliveryTo now buffers clientId).toList
      else [] := by
  have hlistener : ∀ id delivery,
      room.deliveryTo now buffers id = some delivery →
      delivery.listener = id := by
    intro id delivery hdelivery
    simp only [deliveryTo, Option.bind_eq_some_iff,
      Option.ite_none_left_eq_some, Option.some.injEq] at hdelivery
    obtain ⟨client, -, -, rfl⟩ := hdelivery
    rfl
  induction order with
  | nil => rfl
  | cons head rest ih =>
      obtain ⟨hhead, hrest⟩ := List.nodup_cons.1 hnodup
      have hih := ih hrest
      by_cases hclient : clientId = head
      · subst hclient
        rw [if_neg hhead] at hih
        rw [if_pos List.mem_cons_self, List.filterMap_cons]
        cases hdelivery : room.deliveryTo now buffers clientId with
        | none => exact hih
        | some delivery =>
            simp only [Option.toList_some]
            rw [List.filter_cons_of_pos
              (by simpa using hlistener clientId delivery hdelivery), hih]
      · rw [List.filterMap_cons]
        cases hdelivery : room.deliveryTo now buffers head with
        | none => simp [hih, hclient]
        | some delivery =>
            have hother : delivery.listener ≠ clientId := by
              rw [hlistener head delivery hdelivery]
              exact Ne.symm hclient
            simp [hih, hclient, hother]

/-- Some other client's packets are waiting for this one. -/
def Waiting (room : RoomManager Id Client) (now : Int) (clientId : Id) : Prop :=
  ∃ speaker packets, speaker ≠ clientId ∧
    room.audioBuffers.lookup speaker = some packets ∧ packets ≠ [] ∧
    room.Recent now speaker

/-- The packets mixed for a client, one by one. -/
theorem mem_heardBy_iff {room : RoomManager Id Client} {now : Int}
    {buffers : List Id} (horder : buffers.Perm room.audioBuffers.keys)
    {clientId : Id} {entry : Id × AudioPacket} :
    entry ∈ room.heardBy now buffers clientId ↔
      entry.1 ≠ clientId ∧ room.Recent now entry.1 ∧
        ∃ packets, room.audioBuffers.lookup entry.1 = some packets ∧
          entry.2 ∈ packets := by
  rw [heardBy, List.mem_flatMap]
  constructor
  · rintro ⟨speaker, hspeaker, hshare⟩
    obtain ⟨rfl, hne, hrecent⟩ := mem_share hshare
    rw [horder.mem_iff, ← AList.mem_keys, ← AList.lookup_isSome,
      Option.isSome_iff_exists] at hspeaker
    obtain ⟨packets, hpackets⟩ := hspeaker
    refine ⟨hne, hrecent, packets, hpackets, ?_⟩
    rw [share, if_pos ⟨hne, hrecent⟩, hpackets] at hshare
    obtain ⟨packet, hpacket, hentry⟩ := List.mem_map.1 hshare
    rwa [← hentry]
  · rintro ⟨hne, hrecent, packets, hpackets, hpacket⟩
    refine ⟨entry.1, ?_, ?_⟩
    · rw [horder.mem_iff, ← AList.mem_keys, ← AList.lookup_isSome, hpackets]
      rfl
    · rw [share, if_pos ⟨hne, hrecent⟩, hpackets]
      exact List.mem_map_of_mem hpacket

theorem heardBy_ne_nil_iff
    (hwalk : walk.buffers.Perm room.audioBuffers.keys) {clientId : Id} :
    room.heardBy now walk.buffers clientId ≠ [] ↔ room.Waiting now clientId := by
  constructor
  · intro hheard
    obtain ⟨entry, hentry⟩ := List.exists_mem_of_ne_nil _ hheard
    obtain ⟨hne, hrecent, packets, hpackets, hpacket⟩ :=
      (mem_heardBy_iff hwalk).1 hentry
    exact ⟨entry.1, packets, hne, hpackets, List.ne_nil_of_mem hpacket,
      hrecent⟩
  · rintro ⟨speaker, packets, hne, hpackets, hsome, hrecent⟩
    obtain ⟨packet, hpacket⟩ := List.exists_mem_of_ne_nil _ hsome
    have hheard : (speaker, packet) ∈
        room.heardBy now walk.buffers clientId :=
      (mem_heardBy_iff hwalk).2 ⟨hne, hrecent, packets, hpackets, hpacket⟩
    exact List.ne_nil_of_mem hheard

/-- The deliveries of a tick, one by one. -/
theorem Ticked.mem_deliveries_iff
    (hticked : Ticked room next now walk deliveries)
    {delivery : Delivery Id Client} :
    delivery ∈ deliveries ↔
      room.clients.lookup delivery.listener = some delivery.client ∧
        delivery.packetsToMix ≠ [] ∧
        delivery.packetsToMix =
          room.heardBy now walk.buffers delivery.listener := by
  rw [hticked.deliveries_eq, List.mem_filterMap]
  simp only [deliveryTo, Option.bind_eq_some_iff, Option.ite_none_left_eq_some,
    Option.some.injEq]
  constructor
  · rintro ⟨id, -, client, hclient, hne, rfl⟩
    exact ⟨hclient, hne, rfl⟩
  · rintro ⟨hclient, hne, hpackets⟩
    refine ⟨delivery.listener, ?_, delivery.client, hclient, ?_, ?_⟩
    · rw [hticked.clients_order.mem_iff, ← AList.mem_keys,
        ← AList.lookup_isSome, hclient]
      rfl
    · rwa [← hpackets]
    · rw [← hpackets]

/-- Whose audio a tick sends out: some other client is registered, and packets
of the speaker are pending, the last of them recent. -/
theorem Tracks.audible_iff (htracks : Tracks room history)
    (hticked : Ticked room next now walk deliveries) (id : Id) :
    (∃ delivery ∈ deliveries, ∃ entry ∈ delivery.packetsToMix, entry.1 = id) ↔
      pending id history ≠ [] ∧ SpokeRecently history now id ∧
        ∃ clientId client, id ≠ clientId ∧
          registered clientId history = some client := by
  constructor
  · rintro ⟨delivery, hdelivery, entry, hentry, rfl⟩
    obtain ⟨hclient, -, hpackets⟩ := hticked.mem_deliveries_iff.1 hdelivery
    rw [hpackets] at hentry
    obtain ⟨sender, -, hshare⟩ := List.mem_flatMap.1 hentry
    obtain ⟨hsender, hne, -⟩ := mem_share hshare
    rw [htracks.share_eq, ← hsender] at hshare
    obtain ⟨old, hold, -⟩ := List.mem_map.1 hshare
    obtain ⟨-, hrecent, hpending⟩ :=
      heardOf_ne_nil_iff.1 (List.ne_nil_of_mem hold)
    refine ⟨hpending, hrecent, delivery.listener, delivery.client, ?_, ?_⟩
    · rw [hsender]
      exact hne
    · rw [← htracks.clients, hclient]
  · rintro ⟨hpending, hrecent, clientId, client, hne, hclient⟩
    have hof : heardOf history now clientId id ≠ [] :=
      heardOf_ne_nil_iff.2 ⟨hne, hrecent, hpending⟩
    have hshare : room.share now clientId id ≠ [] := by
      rwa [htracks.share_eq, ne_eq, List.map_eq_nil_iff]
    obtain ⟨entry, hentry⟩ := List.exists_mem_of_ne_nil _ hshare
    have hheard : entry ∈ room.heardBy now walk.buffers clientId := by
      refine List.mem_flatMap.2 ⟨id, ?_, hentry⟩
      rw [hticked.buffers_order.mem_iff, ← AList.mem_keys]
      exact htracks.mem_audioBuffers hpending
    refine ⟨⟨clientId, client, room.heardBy now walk.buffers clientId⟩, ?_,
      entry, hheard, (mem_share hentry).1⟩
    rw [hticked.mem_deliveries_iff]
    exact ⟨(htracks.clients clientId).trans hclient,
      List.ne_nil_of_mem hheard, rfl⟩

/-- The deliveries of a tick to one client. -/
theorem Ticked.deliveries_to (hticked : Ticked room next now walk deliveries)
    (clientId : Id) :
    deliveries.filter (fun delivery => delivery.listener = clientId) =
      (room.deliveryTo now walk.buffers clientId).toList := by
  rw [hticked.deliveries_eq, filter_deliveries room now walk.buffers
    (hticked.clients_order.nodup_iff.2 room.clients.keys_nodup)]
  by_cases hmem : clientId ∈ walk.clients
  · rw [if_pos hmem]
  · have hgone : clientId ∉ room.clients := by
      rw [AList.mem_keys, ← hticked.clients_order.mem_iff]
      exact hmem
    rw [if_neg hmem, deliveryTo, AList.lookup_eq_none.2 hgone]
    rfl

/-- The packet for one client, or none, as the history has it. -/
theorem Tracks.delivered (htracks : Tracks room history)
    (hticked : Ticked room next now walk deliveries) (clientId : Id) :
    (deliveries.filter fun delivery => delivery.listener = clientId).map
        (fun delivery => (delivery.client, delivery.mixedPacket)) =
      match registered clientId history with
      | none => []
      | some client =>
          if heard history now clientId = [] then []
          else [(client, AudioMixer.mix
            ((heard history now clientId).map fun entry => entry.2.2))] := by
  have hperm :=
    htracks.heardBy_perm hticked.buffers_order now clientId
  rw [hticked.deliveries_to, deliveryTo, htracks.clients]
  cases registered clientId history with
  | none => rfl
  | some client =>
      rw [Option.bind_some]
      by_cases hsilent : heard history now clientId = []
      · have hempty : room.heardBy now walk.buffers clientId = [] := by
          rw [hsilent] at hperm
          exact hperm.eq_nil
        rw [if_pos hempty]
        simp [hsilent]
      · have hheard : room.heardBy now walk.buffers clientId ≠ [] := by
          intro hempty
          rw [hempty] at hperm
          exact hsilent (List.map_eq_nil_iff.1 hperm.symm.eq_nil)
        have hmix := AudioMixer.mix_perm (hperm.map Prod.snd)
        rw [List.map_map] at hmix
        rw [if_neg hheard]
        simp only [Option.toList_some, List.map_cons, List.map_nil,
          Delivery.mixedPacket, hsilent, ↓reduceIte, hmix]
        rfl

end Tick

theorem mem_heard {history : History Id Client} {now : Int} {clientId : Id}
    {entry : Id × Nat × AudioPacket}
    (hentry : entry ∈ heard history now clientId) :
    entry.1 ≠ clientId ∧ entry.2 ∈ pending entry.1 history := by
  obtain ⟨sender, -, hof⟩ := List.mem_flatMap.1 hentry
  unfold heardOf at hof
  split at hof
  · next hshared =>
    obtain ⟨packet, hpacket, rfl⟩ := List.mem_map.1 hof
    exact ⟨hshared.1, List.mem_of_mem_drop hpacket⟩
  · simp at hof

/-- A pending packet came before now. -/
theorem pending_before {history : History Id Client} {id : Id}
    {entry : Nat × AudioPacket} (hentry : entry ∈ pending id history) :
    entry.1 < history.length := by
  induction history with
  | nil => simp [pending] at hentry
  | cons event older ih =>
      rw [List.length_cons]
      cases event with
      | addClient added client => exact Nat.lt_succ_of_lt (ih hentry)
      | removeClient removed =>
          by_cases hid : removed = id
          · simp [pending, hid] at hentry
          · simp only [pending, if_neg hid] at hentry
            exact Nat.lt_succ_of_lt (ih hentry)
      | processAudio now sender packet =>
          by_cases hid : sender = id
          · simp only [pending, if_pos hid, List.mem_append,
              List.mem_singleton] at hentry
            rcases hentry with hentry | rfl
            · exact Nat.lt_succ_of_lt (ih hentry)
            · exact Nat.lt_succ_self _
          · simp only [pending, if_neg hid] at hentry
            exact Nat.lt_succ_of_lt (ih hentry)
      | tick now walk => simp [pending] at hentry

/-- And after the last tick. -/
theorem pending_after {newer older : History Id Client} {now : Int}
    {walk : Walk Id} {id : Id} {entry : Nat × AudioPacket}
    (hentry : entry ∈ pending id (newer ++ .tick now walk :: older)) :
    older.length < entry.1 := by
  induction newer with
  | nil => simp [pending] at hentry
  | cons event newer ih =>
      rw [List.cons_append] at hentry
      cases event with
      | addClient added client => exact ih hentry
      | removeClient removed =>
          by_cases hid : removed = id
          · simp [pending, hid] at hentry
          · simp only [pending, if_neg hid] at hentry
            exact ih hentry
      | processAudio time sender packet =>
          by_cases hid : sender = id
          · simp only [pending, if_pos hid, List.mem_append,
              List.mem_singleton] at hentry
            rcases hentry with hentry | rfl
            · exact ih hentry
            · simp only [List.length_append, List.length_cons]
              omega
          · simp only [pending, if_neg hid] at hentry
            exact ih hentry
      | tick time order => simp [pending] at hentry

/-- What a tick after some past should send: to each registered client one
packet, the mix of what it should hear, or nothing when that is nothing; to
nobody its own audio; and nothing that was heard at a tick before. -/
structure DeliversHistory (past : List (RoomEvent Id Client)) (now : Int)
    (deliveries : List (Delivery Id Client)) : Prop where
  each : ∀ clientId,
    (deliveries.filter fun delivery => delivery.listener = clientId).map
        (fun delivery => (delivery.client, delivery.mixedPacket)) =
      match registered clientId past.reverse with
      | none => []
      | some client =>
          if heard past.reverse now clientId = [] then []
          else [(client, AudioMixer.mix
            ((heard past.reverse now clientId).map fun entry => entry.2.2))]
  others : ∀ delivery ∈ deliveries, ∀ entry ∈ delivery.packetsToMix,
    entry.1 ≠ delivery.listener
  once : ∀ earlier later time order,
    past = earlier ++ .tick time order :: later →
    ∀ clientId, ∀ entry ∈ heard past.reverse now clientId,
      ∀ old ∈ heard earlier.reverse time clientId, entry.2.1 ≠ old.2.1

section Run

variable {past : List (RoomEvent Id Client)} {room next : RoomManager Id Client}
  {sent deliveries : List (Delivery Id Client)} {now : Int} {walk : Walk Id}

/-- Every tick of every run, in any iteration order. -/
theorem tick_delivers_history
    (hrun : run RoomManager.step new past = some (room, sent))
    (htick : room.step (.tick now walk) = some (next, deliveries)) :
    DeliversHistory past now deliveries := by
  have htracks := tracks_of_run hrun
  have hticked := ticked_of_step htracks.recorded htick
  refine ⟨fun clientId => ?_, ?_, ?_⟩
  · exact htracks.delivered hticked clientId
  · intro delivery hdelivery entry hentry
    obtain ⟨-, -, hpackets⟩ := hticked.mem_deliveries_iff.1 hdelivery
    rw [hpackets] at hentry
    obtain ⟨sender, -, hshare⟩ := List.mem_flatMap.1 hentry
    obtain ⟨hsender, hne, -⟩ := mem_share hshare
    rw [hsender]
    exact hne
  · rintro earlier later time order rfl clientId entry hentry old hold
    rw [List.reverse_append, List.reverse_cons, List.append_assoc,
      List.singleton_append] at hentry
    have hafter := pending_after (mem_heard hentry).2
    have hbefore := pending_before (mem_heard hold).2
    omega

/-- A speaker, a listener and one packet. -/
def samplePast : List (RoomEvent Nat Unit) :=
  [.addClient 1 (), .addClient 2 (), .processAudio 0 1 ⟨[100, 0]⟩]

def sampleRoom : RoomManager Nat Unit :=
  ((new.addClient 1 ()).1.addClient 2 ()).1.processAudio 0 1 ⟨[100, 0]⟩

theorem tick_delivers_history_sample :
    DeliversHistory samplePast 20000000
      (sampleRoom.mixAndSendAudio 20000000 ⟨[1, 2], [1], [1]⟩).2 :=
  tick_delivers_history (show run RoomManager.step new samplePast =
    some (sampleRoom, []) from rfl) (step_tick (by decide))

/-- An id removed and not added again is not registered. -/
theorem registered_of_removed {newer older : History Id Client} {id : Id}
    (hgone : ∀ client, .addClient id client ∉ newer) :
    registered id (newer ++ .removeClient id :: older) = none := by
  induction newer with
  | nil => simp [registered]
  | cons event newer ih =>
      have hrest := ih fun client hclient =>
        hgone client (List.mem_cons_of_mem _ hclient)
      rw [List.cons_append]
      cases event with
      | addClient added client =>
          have hother : added ≠ id := by
            rintro rfl
            exact hgone client List.mem_cons_self
          rw [registered, if_neg hother, hrest]
      | removeClient removed => rw [registered, hrest, ite_self]
      | processAudio time sender packet => exact hrest
      | tick time order => exact hrest

/-- Between its removal and its next registration a client is silent at a tick
exactly when none of its packets came since the removal and the last tick, or
the last of them is too old, or nobody is registered. -/
theorem removed_silent_iff {before after : List (RoomEvent Id Client)} {id : Id}
    (hgone : ∀ client, .addClient id client ∉ after)
    (hrun : run RoomManager.step new (before ++ .removeClient id :: after) =
      some (room, sent))
    (htick : room.step (.tick now walk) = some (next, deliveries)) :
    (∀ delivery ∈ deliveries, ∀ entry ∈ delivery.packetsToMix,
      entry.1 ≠ id) ↔
      pending id (after.reverse ++ .removeClient id :: before.reverse) = [] ∨
        ¬ SpokeRecently
          (after.reverse ++ .removeClient id :: before.reverse) now id ∨
        ∀ clientId, registered clientId
          (after.reverse ++ .removeClient id :: before.reverse) = none := by
  have htracks := tracks_of_run hrun
  have hticked := ticked_of_step htracks.recorded htick
  rw [List.reverse_append, List.reverse_cons, List.append_assoc,
    List.singleton_append] at htracks
  have haudible := htracks.audible_iff hticked id
  have hunregistered : registered id
      (after.reverse ++ .removeClient id :: before.reverse) = none :=
    registered_of_removed (by simpa using hgone)
  constructor
  · intro hsilent
    by_contra hneither
    simp only [not_or, not_not, not_forall] at hneither
    obtain ⟨hpending, hrecent, clientId, hregistered⟩ := hneither
    obtain ⟨client, hclient⟩ := Option.ne_none_iff_exists'.1 hregistered
    have hne : id ≠ clientId := by
      rintro rfl
      exact hregistered hunregistered
    obtain ⟨delivery, hdelivery, entry, hentry, hid⟩ :=
      haudible.2 ⟨hpending, hrecent, clientId, client, hne, hclient⟩
    exact hsilent delivery hdelivery entry hentry hid
  · intro hcause delivery hdelivery entry hentry hid
    obtain ⟨hpending, hrecent, clientId, client, -, hclient⟩ :=
      haudible.1 ⟨delivery, hdelivery, entry, hentry, hid⟩
    rcases hcause with hnone | hold | hempty
    · exact hpending hnone
    · exact hold hrecent
    · rw [hempty clientId] at hclient
      exact absurd hclient (by simp)

/-- A frame still in flight when its sender is removed. -/
def lateAfter : List (RoomEvent Nat Unit) :=
  [.processAudio 10000000 1 ⟨[100, 0]⟩]

def lateRoom : RoomManager Nat Unit :=
  (((new.addClient 1 ()).1.addClient 2 ()).1.removeClient 1).processAudio
    10000000 1 ⟨[100, 0]⟩

theorem removed_silent_iff_late :
    (∀ delivery ∈ (lateRoom.mixAndSendAudio 20000000 ⟨[2], [1], [1]⟩).2,
      ∀ entry ∈ delivery.packetsToMix, entry.1 ≠ 1) ↔
      pending 1 (lateAfter.reverse ++ .removeClient 1 ::
          [.addClient 2 (), .addClient 1 ()]) = [] ∨
        ¬ SpokeRecently (lateAfter.reverse ++ .removeClient 1 ::
          [.addClient 2 (), .addClient 1 ()]) 20000000 1 ∨
        ∀ clientId, registered clientId (lateAfter.reverse ++ .removeClient 1 ::
          [.addClient 2 (), .addClient 1 ()]) = none :=
  removed_silent_iff (by simp [lateAfter])
    (show run RoomManager.step new
      ([.addClient 1 (), .addClient 2 ()] ++ .removeClient 1 :: lateAfter) =
      some (lateRoom, []) from rfl) (step_tick (by decide))

/-- It is mixed for the others at the next tick. -/
theorem removed_not_silent :
    ¬ ∀ (before after : List (RoomEvent Nat Unit)) (id : Nat)
      (room next : RoomManager Nat Unit) (sent deliveries : List (Delivery Nat Unit))
      (now : Int) (walk : Walk Nat),
      (∀ client, .addClient id client ∉ after) →
      run RoomManager.step new (before ++ .removeClient id :: after) =
        some (room, sent) →
      room.step (.tick now walk) = some (next, deliveries) →
      ∀ delivery ∈ deliveries, ∀ entry ∈ delivery.packetsToMix,
        entry.1 ≠ id := by
  intro hclaim
  have hsent : (lateRoom.mixAndSendAudio 20000000 ⟨[2], [1], [1]⟩).2 =
      [⟨2, (), [(1, ⟨[100, 0]⟩)]⟩] := by
    decide
  have hsilent := hclaim [.addClient 1 (), .addClient 2 ()] lateAfter 1
    lateRoom _ [] _ 20000000 ⟨[2], [1], [1]⟩ (by simp [lateAfter]) rfl
    (step_tick (by decide))
  rw [hsent] at hsilent
  exact hsilent _ List.mem_cons_self _ List.mem_cons_self rfl

end Run

end RoomManager

end VoiceServer

/-
What holds of the maps of a room in every state it reaches, and right after a
tick: they are as large as the traffic of the last seconds makes them.
-/
import VoiceServer.RoomHistory

namespace VoiceServer

universe u v

namespace RoomManager

variable {Id : Type u} [DecidableEq Id] {Client : Type v}

/-- The buffers are bounded, and each has an activity record. -/
structure Represented (room : RoomManager Id Client) : Prop where
  bounded : ∀ id packets, room.audioBuffers.lookup id = some packets →
    packets.length ≤ maxBufferSize
  recorded : room.Recorded

/-- `operator[]` finds a record for every buffer, so a tick that walks the maps
leaves the records as they are until its clean-up loop. -/
def ReadsRecords (room : RoomManager Id Client) : Prop :=
  ∀ now walk, room.Walks now walk →
    (room.sendMixes now walk.buffers walk.clients
      room.clientLastActivity).2 = room.clientLastActivity

/-- Nothing is buffered, and only those who spoke recently are known. -/
structure Swept (room : RoomManager Id Client) (history : History Id Client)
    (now : Int) : Prop where
  empty : ∀ id packets, room.audioBuffers.lookup id = some packets →
    packets = []
  buffers : ∀ id ∈ room.audioBuffers, SpokeRecently history now id
  activity : ∀ id ∈ room.clientLastActivity, SpokeRecently history now id

section Tracked

variable {room next : RoomManager Id Client} {history : History Id Client}

theorem length_rtake_le {A : Type u} (list : List A) (n : Nat) :
    (list.rtake n).length ≤ n := by
  rw [List.rtake, List.length_drop]
  omega

theorem Tracks.represented (htracks : Tracks room history) :
    room.Represented where
  bounded id packets hpackets := by
    have hbuffer := htracks.buffers id
    rw [hpackets, Option.getD_some] at hbuffer
    rw [hbuffer, List.length_map]
    exact length_rtake_le _ _
  recorded := htracks.recorded

theorem Recorded.readsRecords (hrecorded : room.Recorded) :
    room.ReadsRecords := by
  rintro now walk ⟨-, hbuffers, -⟩
  rw [sendMixes_eq room now]
  intro id hid
  exact hrecorded id (AList.mem_keys.2 (hbuffers.subset hid))

theorem Tracks.spokeRecently (htracks : Tracks room history) {now : Int}
    {id : Id} (hid : id ∈ room.clientLastActivity)
    (hrecent : room.Recent now id) : SpokeRecently history now id := by
  rw [← AList.lookup_isSome, Option.isSome_iff_exists] at hid
  obtain ⟨time, htime⟩ := hid
  refine ⟨time, htracks.activity id time htime, ?_⟩
  rwa [Recent, htime] at hrecent

theorem Tracks.swept (htracks : Tracks room history) {now : Int}
    {walk : Walk Id} {deliveries : List (Delivery Id Client)}
    (hticked : Ticked room next now walk deliveries) :
    next.Swept history now where
  empty id packets hpackets := by
    rw [hticked.buffers_eq, Option.ite_none_right_eq_some] at hpackets
    exact (Option.some.inj hpackets.2).symm
  buffers id hid := by
    rw [← AList.lookup_isSome, hticked.buffers_eq] at hid
    by_cases hkept : id ∈ room.audioBuffers ∧ room.Recent now id
    · exact htracks.spokeRecently (htracks.recorded id hkept.1) hkept.2
    · simp [hkept] at hid
  activity id hid := by
    rw [← AList.lookup_isSome, hticked.activity_eq] at hid
    by_cases hrecent : room.Recent now id
    · rw [if_pos hrecent, AList.lookup_isSome] at hid
      exact htracks.spokeRecently hid hrecent
    · simp [hrecent] at hid

end Tracked

/-- The representation invariant, in every state a room reaches; the clock may
even go back. -/
theorem represented_of_run {events : List (RoomEvent Id Client)}
    {final : RoomManager Id Client} {sent : List (Delivery Id Client)}
    (hrun : run step new events = some (final, sent)) :
    final.Represented ∧ final.ReadsRecords ∧
      ∀ past now walk, events = past ++ [.tick now walk] →
        final.Swept past.reverse now := by
  have htracks := tracks_of_run hrun
  refine ⟨htracks.represented, htracks.recorded.readsRecords, ?_⟩
  rintro past now walk rfl
  obtain ⟨room, first, later, hpast, htick, -⟩ :=
    (run_concat_eq_some step).1 hrun
  have hbefore := tracks_of_run hpast
  exact hbefore.swept (ticked_of_step hbefore.recorded htick)

/-- Two clients, of which one is silent for longer than the timeout: the tick
forgets it. -/
theorem represented_of_run_silent :
    let events : List (RoomEvent Nat Nat) :=
      [.addClient 1 10, .processAudio 0 1 ⟨[100, 0]⟩,
        .processAudio 6000000000 2 ⟨[7, 0]⟩,
        .tick 6000000001 ⟨[1], [1, 2], [2, 1]⟩]
    ∃ final sent, run step new events = some (final, sent) ∧
      final.Represented ∧ final.ReadsRecords ∧
        ∀ past now walk, events = past ++ [.tick now walk] →
          final.Swept past.reverse now := by
  intro events
  have hsome : (run step new events).isSome = true := by decide +kernel
  obtain ⟨⟨final, sent⟩, hrun⟩ := Option.isSome_iff_exists.1 hsome
  exact ⟨final, sent, hrun, represented_of_run hrun⟩

end RoomManager

end VoiceServer

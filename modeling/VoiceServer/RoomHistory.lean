/-
The purpose of a room, stated over its history: at a tick each client hears the
last packets of the clients that spoke since the tick before.  Histories are
newest first, and a packet is known by its position in the run.
-/
import Mathlib.Data.List.Dedup
import Mathlib.Data.List.DropRight
import VoiceServer.RoomTick

namespace VoiceServer

universe u v

namespace RoomManager

variable {Id : Type u} [DecidableEq Id] {Client : Type v}

abbrev History (Id : Type u) (Client : Type v) := List (RoomEvent Id Client)

/-- Who is registered under an id. -/
def registered (id : Id) : History Id Client → Option Client
  | [] => none
  | .addClient added client :: older =>
      if added = id then some client else registered id older
  | .removeClient removed :: older =>
      if removed = id then none else registered id older
  | .processAudio _ _ _ :: older => registered id older
  | .tick _ _ :: older => registered id older

/-- The packets a client submitted since the last tick and since it was last
removed, oldest first. -/
def pending (id : Id) : History Id Client → List (Nat × AudioPacket)
  | [] => []
  | .addClient _ _ :: older => pending id older
  | .removeClient removed :: older =>
      if removed = id then [] else pending id older
  | .processAudio _ sender packet :: older =>
      if sender = id then pending id older ++ [(older.length, packet)]
      else pending id older
  | .tick _ _ :: _ => []

/-- When a client last submitted a packet. -/
def lastPacket (id : Id) : History Id Client → Option Int
  | [] => none
  | .processAudio now sender _ :: older =>
      if sender = id then some now else lastPacket id older
  | .addClient _ _ :: older => lastPacket id older
  | .removeClient _ :: older => lastPacket id older
  | .tick _ _ :: older => lastPacket id older

def SpokeRecently (history : History Id Client) (now : Int) (id : Id) : Prop :=
  ∃ time ∈ lastPacket id history, now - time ≤ activityTimeout

instance (history : History Id Client) (now : Int) (id : Id) :
    Decidable (SpokeRecently history now id) :=
  inferInstanceAs (Decidable (∃ time ∈ lastPacket id history, _ ≤ _))

def RoomEvent.speaker : RoomEvent Id Client → Option Id
  | .processAudio _ sender _ => some sender
  | _ => none

def speakers (history : History Id Client) : List Id :=
  (history.filterMap RoomEvent.speaker).dedup

/-- What a client should hear of one speaker. -/
def heardOf (history : History Id Client) (now : Int) (clientId sender : Id) :
    List (Id × Nat × AudioPacket) :=
  if sender ≠ clientId ∧ SpokeRecently history now sender then
    ((pending sender history).rtake maxBufferSize).map (sender, ·)
  else []

/-- What a client should hear at a tick. -/
def heard (history : History Id Client) (now : Int) (clientId : Id) :
    List (Id × Nat × AudioPacket) :=
  (speakers history).flatMap (heardOf history now clientId)

theorem mem_speakers_of_pending {history : History Id Client} {id : Id}
    (hpending : pending id history ≠ []) : id ∈ speakers history := by
  rw [speakers, List.mem_dedup]
  induction history with
  | nil => exact absurd rfl hpending
  | cons event older ih =>
      cases event with
      | addClient added client =>
          simpa [RoomEvent.speaker] using ih hpending
      | removeClient removed =>
          by_cases hid : removed = id
          · simp [pending, hid] at hpending
          · simp only [pending, if_neg hid] at hpending
            simpa [RoomEvent.speaker] using ih hpending
      | processAudio now sender packet =>
          by_cases hid : sender = id
          · simp [RoomEvent.speaker, hid]
          · simp only [pending, if_neg hid] at hpending
            simpa [RoomEvent.speaker] using Or.inr (ih hpending)
      | tick now walk => exact absurd rfl hpending

/-- Dropping the oldest packet of a full buffer keeps the newest ones. -/
theorem push_rtake {A : Type u} {n : Nat} (hn : 0 < n) (list : List A)
    (a : A) :
    (if n < (list.rtake n ++ [a]).length then (list.rtake n ++ [a]).tail
      else list.rtake n ++ [a]) = (list ++ [a]).rtake n := by
  simp only [List.rtake, List.length_append, List.length_singleton,
    List.length_drop]
  by_cases hfull : n ≤ list.length
  · have hcut : list.length + 1 - n = list.length - n + 1 := by omega
    have hle : list.length - n + 1 ≤ list.length := by omega
    rw [if_pos (by omega), hcut, List.drop_append_of_le_length hle,
      ← List.drop_one, List.drop_append_of_le_length, List.drop_drop]
    rw [List.length_drop]
    omega
  · rw [if_neg (by omega), Nat.sub_eq_zero_of_le (by omega),
      Nat.sub_eq_zero_of_le (by omega), List.drop_zero, List.drop_zero]

theorem rtake_eq_nil_iff {A : Type u} {n : Nat} (hn : 0 < n) (list : List A) :
    list.rtake n = [] ↔ list = [] := by
  rw [List.rtake, List.drop_eq_nil_iff, ← List.length_eq_zero_iff]
  omega

theorem map_rtake {A B : Type*} (f : A → B) (list : List A) (n : Nat) :
    (list.rtake n).map f = (list.map f).rtake n := by
  simp [List.rtake, List.map_drop]

/-- The maps of a room hold what its history says. -/
structure Tracks (room : RoomManager Id Client) (history : History Id Client) :
    Prop where
  clients : ∀ id, room.clients.lookup id = registered id history
  buffers : ∀ id, (room.audioBuffers.lookup id).getD [] =
    ((pending id history).rtake maxBufferSize).map Prod.snd
  recorded : room.Recorded
  activity : ∀ id time, room.clientLastActivity.lookup id = some time →
    lastPacket id history = some time

theorem tracks_new : Tracks (new : RoomManager Id Client) [] where
  clients _ := rfl
  buffers _ := rfl
  recorded _ hid := hid
  activity _ _ htime := by simp [new] at htime

section Step

variable {room next : RoomManager Id Client} {history : History Id Client}

theorem Tracks.addClient (htracks : Tracks room history) (id : Id)
    (client : Client) :
    Tracks (room.addClient id client).1 (.addClient id client :: history) where
  clients other := by
    by_cases hother : other = id
    · subst hother
      simp [RoomManager.addClient, registered]
    · rw [registered, if_neg (Ne.symm hother), ← htracks.clients]
      exact AList.lookup_insert_ne hother
  buffers := htracks.buffers
  recorded := htracks.recorded
  activity := htracks.activity

theorem Tracks.removeClient (htracks : Tracks room history) (id : Id) :
    Tracks (room.removeClient id) (.removeClient id :: history) where
  clients other := by
    by_cases hother : other = id
    · subst hother
      simp [RoomManager.removeClient, registered]
    · rw [registered, if_neg (Ne.symm hother), ← htracks.clients]
      exact AList.lookup_erase_ne hother
  buffers other := by
    by_cases hother : other = id
    · subst hother
      simp [RoomManager.removeClient, pending]
    · rw [pending, if_neg (Ne.symm hother), ← htracks.buffers]
      simp only [RoomManager.removeClient, AList.lookup_erase_ne hother]
  recorded other hother := htracks.recorded other (AList.mem_erase.1 hother).2
  activity := htracks.activity

theorem Tracks.processAudio (htracks : Tracks room history) (now : Int)
    (id : Id) (packet : AudioPacket) :
    Tracks (room.processAudio now id packet)
      (.processAudio now id packet :: history) where
  clients := htracks.clients
  buffers other := by
    by_cases hother : other = id
    · subst hother
      have hbuffer := htracks.buffers other
      rw [map_rtake] at hbuffer
      simp only [RoomManager.processAudio, AList.lookup_insert,
        Option.getD_some, pending, ↓reduceIte]
      rw [hbuffer, push_rtake (by decide), map_rtake, List.map_append]
      rfl
    · rw [pending, if_neg (Ne.symm hother), ← htracks.buffers]
      simp only [RoomManager.processAudio, AList.lookup_insert_ne hother]
  recorded other hother := by
    rw [RoomManager.processAudio, AList.mem_insert] at hother
    rw [RoomManager.processAudio, AList.mem_insert]
    exact hother.imp_right (htracks.recorded other)
  activity other time htime := by
    by_cases hother : other = id
    · subst hother
      simpa [RoomManager.processAudio, lastPacket] using htime
    · rw [lastPacket, if_neg (Ne.symm hother)]
      rw [RoomManager.processAudio, AList.lookup_insert_ne hother] at htime
      exact htracks.activity other time htime

theorem Tracks.tick (htracks : Tracks room history) {now : Int}
    {walk : Walk Id} {deliveries : List (Delivery Id Client)}
    (hticked : Ticked room next now walk deliveries) :
    Tracks next (.tick now walk :: history) where
  clients id := by rw [hticked.clients_eq, htracks.clients, registered]
  buffers id := by
    rw [hticked.buffers_eq, pending]
    split <;> rfl
  recorded id hid := by
    rw [← AList.lookup_isSome, hticked.buffers_eq] at hid
    by_cases hkept : id ∈ room.audioBuffers ∧ room.Recent now id
    · rw [← AList.lookup_isSome, hticked.activity_eq, if_pos hkept.2,
        AList.lookup_isSome]
      exact htracks.recorded id hkept.1
    · simp [hkept] at hid
  activity id time htime := by
    rw [hticked.activity_eq, Option.ite_none_right_eq_some] at htime
    exact htracks.activity id time htime.2

theorem Tracks.step (htracks : Tracks room history)
    {event : RoomEvent Id Client} {deliveries : List (Delivery Id Client)}
    (hstep : room.step event = some (next, deliveries)) :
    Tracks next (event :: history) := by
  cases event with
  | addClient id client =>
      obtain ⟨rfl, -⟩ : (room.addClient id client).1 = next ∧ _ := by
        simpa [RoomManager.step] using hstep
      exact htracks.addClient id client
  | removeClient id =>
      obtain ⟨rfl, -⟩ : room.removeClient id = next ∧ _ := by
        simpa [RoomManager.step] using hstep
      exact htracks.removeClient id
  | processAudio now id packet =>
      obtain ⟨rfl, -⟩ : room.processAudio now id packet = next ∧ _ := by
        simpa [RoomManager.step] using hstep
      exact htracks.processAudio now id packet
  | tick now walk => exact htracks.tick (ticked_of_step htracks.recorded hstep)

/-- Every run is tracked by its own events, newest first. -/
theorem tracks_of_run {events : List (RoomEvent Id Client)}
    {sent : List (Delivery Id Client)}
    (hrun : run RoomManager.step new events = some (room, sent)) :
    Tracks room events.reverse := by
  refine run_induction RoomManager.step
    (motive := fun past state _ => Tracks state past.reverse) tracks_new ?_ hrun
  intro past state outs event next new _ htracks hstep
  rw [List.reverse_concat]
  exact htracks.step hstep

end Step

end RoomManager

end VoiceServer

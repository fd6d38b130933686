/-
One speaker and one listener: what the listener hears as the mixing ticks fall
between the packets in different places.  Packets between two ticks are mixed
with one another, so the stream depends on how the ticks group them.
-/
import Mathlib.Data.List.SplitLengths
import VoiceServer.RoomDelivery

namespace VoiceServer

universe u v

namespace RoomManager

/-- A packet of the speaker, still without contents, or a tick. -/
inductive Slot where
  | packet (now : Int)
  | tick (now : Int)
deriving DecidableEq, Repr

/-- The sizes of the groups of packets between ticks, empty groups left out. -/
def groupSizes : Nat → List Slot → List Nat
  | _, [] => []
  | waiting, .packet _ :: rest => groupSizes (waiting + 1) rest
  | waiting, .tick _ :: rest =>
      if waiting = 0 then groupSizes 0 rest
      else waiting :: groupSizes 0 rest

def Slot.isPacket : Slot → Bool
  | .packet _ => true
  | .tick _ => false

theorem sum_groupSizes (slots : List Slot) (now : Int) (waiting : Nat) :
    (groupSizes waiting (slots ++ [.tick now])).sum =
      waiting + slots.countP Slot.isPacket := by
  induction slots generalizing waiting with
  | nil =>
      rw [List.nil_append, groupSizes]
      split <;> simp_all [groupSizes]
  | cons slot rest ih =>
      cases slot with
      | packet time =>
          rw [List.cons_append, groupSizes, ih]
          simp only [List.countP_cons, Slot.isPacket, ↓reduceIte]
          omega
      | tick time =>
          rw [List.cons_append, groupSizes]
          split
          · rw [ih]
            simp_all [Slot.isPacket]
          · rw [List.sum_cons, ih]
            simp [Slot.isPacket]

theorem groupSizes_pos (slots : List Slot) (waiting : Nat) :
    ∀ size ∈ groupSizes waiting slots, 0 < size := by
  induction slots generalizing waiting with
  | nil => simp [groupSizes]
  | cons slot rest ih =>
      cases slot with
      | packet time => exact ih (waiting + 1)
      | tick time =>
          rw [groupSizes]
          split
          · exact ih 0
          · next hwaiting =>
            exact List.forall_mem_cons.2 ⟨Nat.pos_of_ne_zero hwaiting, ih 0⟩

/-- At every tick the last packet is recent. -/
def NeverSilent : Option Int → List Slot → Prop
  | _, [] => True
  | _, .packet now :: rest => NeverSilent (some now) rest
  | last, .tick now :: rest =>
      (∀ time ∈ last, now - time ≤ activityTimeout) ∧ NeverSilent last rest

/-- A placement of ticks among the arrivals of `count` packets, a tick last. -/
structure Placement (count : Nat) where
  slots : List Slot
  arrivals : slots.countP Slot.isPacket = count
  ended : ∃ front now, slots = front ++ [.tick now]
  atMost : ∀ size ∈ groupSizes 0 slots, size ≤ maxBufferSize
  neverSilent : NeverSilent none slots

theorem Placement.sum_eq {count : Nat} (placement : Placement count) :
    (groupSizes 0 placement.slots).sum = count := by
  obtain ⟨front, now, hslots⟩ := placement.ended
  have harrivals := placement.arrivals
  rw [hslots] at harrivals ⊢
  rw [sum_groupSizes, Nat.zero_add]
  simpa [Slot.isPacket] using harrivals

section Stream

variable {Id : Type u} [DecidableEq Id] {Client : Type v}

/-- The events of a placement: contents for the packets, an iteration order for
every tick. -/
inductive Fills (speaker : Id) :
    List Slot → List AudioPacket → List (RoomEvent Id Client) → Prop
  | nil : Fills speaker [] [] []
  | packet (now : Int) (packet : AudioPacket) {slots : List Slot}
      {packets : List AudioPacket} {events : List (RoomEvent Id Client)}
      (rest : Fills speaker slots packets events) :
      Fills speaker (.packet now :: slots) (packet :: packets)
        (.processAudio now speaker packet :: events)
  | tick (now : Int) (walk : Walk Id) {slots : List Slot}
      {packets : List AudioPacket} {events : List (RoomEvent Id Client)}
      (rest : Fills speaker slots packets events) :
      Fills speaker (.tick now :: slots) packets (.tick now walk :: events)

/-- The payloads sent to a client, one after the other. -/
def heardStream (listener : Id) (deliveries : List (Delivery Id Client)) :
    List UInt8 :=
  (deliveries.filter fun delivery => delivery.listener = listener).flatMap
    fun delivery => delivery.mixedPacket.data

/-- A room in which one speaker and one listener have been registered. -/
def pairRoom (speaker listener : Id) (first second : Client) :
    RoomManager Id Client :=
  ((new.addClient speaker first).1.addClient listener second).1

/-- What the history of such a room says while only the speaker speaks. -/
structure OneSpeaker (speaker listener : Id) (history : History Id Client)
    (waiting : List AudioPacket) (last : Option Int) : Prop where
  registered : ∃ client, registered listener history = some client
  others : ∀ id, id ≠ speaker → pending id history = []
  pending : (pending speaker history).map Prod.snd = waiting
  last : lastPacket speaker history = last

variable {speaker listener : Id} {history : History Id Client}
  {waiting : List AudioPacket} {last : Option Int}

/-- All that can be heard is the speaker's waiting packets. -/
theorem OneSpeaker.heard_perm
    (hone : OneSpeaker speaker listener history waiting last)
    (hne : speaker ≠ listener) (hfew : waiting.length ≤ maxBufferSize)
    {now : Int} (hrecent : ∀ time ∈ last, now - time ≤ activityTimeout)
    (hlast : waiting ≠ [] → last.isSome) :
    ((heard history now listener).map fun entry => entry.2.2).Perm waiting := by
  have hof : (heardOf history now listener speaker).map
      (fun entry => entry.2.2) = waiting := by
    unfold heardOf
    by_cases hwaiting : waiting = []
    · have hpending : RoomManager.pending speaker history = [] := by
        rw [← List.map_eq_nil_iff (f := Prod.snd), hone.pending, hwaiting]
      rw [hpending, hwaiting]
      split <;> rfl
    · obtain ⟨time, htime⟩ := Option.isSome_iff_exists.1 (hlast hwaiting)
      have hspoke : SpokeRecently history now speaker :=
        ⟨time, by rw [hone.last, htime]; rfl, hrecent time htime⟩
      have hlength := congrArg List.length hone.pending
      rw [List.length_map] at hlength
      rw [if_pos ⟨hne, hspoke⟩, List.rtake,
        Nat.sub_eq_zero_of_le (hlength ▸ hfew), List.drop_zero, List.map_map]
      exact hone.pending
  have hother : ∀ id, id ≠ speaker → heardOf history now listener id = [] := by
    intro id hid
    by_contra hheard
    exact (heardOf_ne_nil_iff.1 hheard).2.2 (hone.others id hid)
  have hperm : (heard history now listener).Perm
      ([speaker].flatMap (heardOf history now listener)) := by
    apply perm_flatMap_of_nodup _ (List.nodup_dedup _) (List.nodup_singleton _)
    intro id hheard
    obtain rfl : id = speaker := by
      by_contra hid
      exact hheard (hother id hid)
    have hmem := mem_speakers_of_pending (heardOf_ne_nil_iff.1 hheard).2.2
    exact ⟨fun _ => List.mem_singleton_self _, fun _ => hmem⟩
  have hmap := hperm.map fun entry => entry.2.2
  rwa [List.flatMap_cons, List.flatMap_nil, List.append_nil, hof] at hmap

theorem OneSpeaker.packet
    (hone : OneSpeaker speaker listener history waiting last) (now : Int)
    (packet : AudioPacket) :
    OneSpeaker speaker listener (.processAudio now speaker packet :: history)
      (waiting ++ [packet]) (some now) where
  registered := hone.registered
  others id hid := by
    rw [RoomManager.pending, if_neg (Ne.symm hid)]
    exact hone.others id hid
  pending := by simp [RoomManager.pending, hone.pending]
  last := by simp [lastPacket]

theorem OneSpeaker.tick
    (hone : OneSpeaker speaker listener history waiting last) (now : Int)
    (walk : Walk Id) :
    OneSpeaker speaker listener (.tick now walk :: history) [] last where
  registered := hone.registered
  others _ _ := rfl
  pending := rfl
  last := hone.last

/-- What one tick adds to the stream. -/
theorem OneSpeaker.heardStream_tick {room next : RoomManager Id Client}
    (hone : OneSpeaker speaker listener history waiting last)
    (htracks : Tracks room history) (hne : speaker ≠ listener)
    (hfew : waiting.length ≤ maxBufferSize) {now : Int} {walk : Walk Id}
    {deliveries : List (Delivery Id Client)}
    (hticked : Ticked room next now walk deliveries)
    (hrecent : ∀ time ∈ last, now - time ≤ activityTimeout)
    (hlast : waiting ≠ [] → last.isSome) :
    heardStream listener deliveries =
      if waiting = [] then [] else (AudioMixer.mix waiting).data := by
  obtain ⟨client, hclient⟩ := hone.registered
  have hdelivered := htracks.delivered hticked listener
  have hperm := hone.heard_perm hne hfew hrecent hlast
  have hstream : heardStream listener deliveries =
      ((deliveries.filter fun delivery => delivery.listener = listener).map
        fun delivery => (delivery.client, delivery.mixedPacket)).flatMap
          fun packet => packet.2.data := by
    rw [List.flatMap_map]
    rfl
  rw [hstream, hdelivered, hclient]
  by_cases hwaiting : waiting = []
  · rw [hwaiting] at hperm
    have hsilent : heard history now listener = [] :=
      List.map_eq_nil_iff.1 hperm.eq_nil
    simp [hsilent, hwaiting]
  · have hheard : heard history now listener ≠ [] := by
      intro hsilent
      rw [hsilent] at hperm
      exact hwaiting hperm.symm.eq_nil
    simp [hheard, hwaiting, AudioMixer.mix_perm hperm]

/-- The stream is the mixes of the groups, one after the other. -/
theorem heardStream_eq {slots : List Slot} {packets : List AudioPacket}
    {events : List (RoomEvent Id Client)}
    (hfills : Fills speaker slots packets events) (hne : speaker ≠ listener)
    {room final : RoomManager Id Client} {sent : List (Delivery Id Client)}
    (htracks : Tracks room history)
    (hone : OneSpeaker speaker listener history waiting last)
    (hlast : waiting ≠ [] → last.isSome) (hsilent : NeverSilent last slots)
    (hfew : ∀ size ∈ groupSizes waiting.length slots, size ≤ maxBufferSize)
    (hrun : run RoomManager.step room events = some (final, sent)) :
    heardStream listener sent =
      ((groupSizes waiting.length slots).splitLengths
        (waiting ++ packets)).flatMap
        fun group => (AudioMixer.mix group).data := by
  induction hfills generalizing room history waiting last sent with
  | nil =>
      obtain ⟨-, rfl⟩ := (run_nil_eq_some RoomManager.step).1 hrun
      rfl
  | packet now packet rest ih =>
      obtain ⟨next, first, later, hstep, hrest, rfl⟩ :=
        (run_cons_eq_some RoomManager.step).1 hrun
      obtain ⟨rfl, rfl⟩ : room.processAudio now speaker packet = next ∧
          [] = first := by
        simpa [RoomManager.step] using hstep
      have hnext := ih (htracks.processAudio now speaker packet)
        (hone.packet now packet) (fun _ => rfl) hsilent
        (by simpa [groupSizes] using hfew) hrest
      rw [List.nil_append, hnext, List.length_append, List.append_assoc]
      rfl
  | @tick now walk slots packets events rest ih =>
      obtain ⟨next, first, later, hstep, hrest, rfl⟩ :=
        (run_cons_eq_some RoomManager.step).1 hrun
      have hticked := ticked_of_step htracks.recorded hstep
      obtain ⟨hrecent, hsilent⟩ := hsilent
      have hlater : ∀ size ∈ groupSizes 0 slots, size ≤ maxBufferSize := by
        intro size hsize
        apply hfew
        rw [groupSizes]
        split
        · exact hsize
        · exact List.mem_cons_of_mem _ hsize
      have hnext := ih (htracks.tick hticked) (hone.tick now walk)
        (fun hnil => absurd rfl hnil) hsilent hlater hrest
      have happend : heardStream listener (first ++ later) =
          heardStream listener first ++ heardStream listener later := by
        simp [heardStream]
      have hsize : waiting.length ≤ maxBufferSize := by
        by_cases hempty : waiting.length = 0
        · omega
        · apply hfew
          rw [groupSizes, if_neg hempty]
          exact List.mem_cons_self
      rw [happend, hone.heardStream_tick htracks hne hsize hticked hrecent
        hlast, hnext, groupSizes]
      by_cases hempty : waiting = []
      · simp [hempty]
      · simp [hempty, List.splitLengths_cons]

/-- Every placement can be filled and run from any room: the maps are walked
in the order they are listed. -/
theorem exists_run (speaker : Id) (slots : List Slot)
    {packets : List AudioPacket}
    (hlength : slots.countP Slot.isPacket = packets.length)
    (room : RoomManager Id Client) :
    ∃ events final sent, Fills speaker slots packets events ∧
      run RoomManager.step room events = some (final, sent) := by
  induction slots generalizing packets room with
  | nil =>
      obtain rfl := List.eq_nil_of_length_eq_zero hlength.symm
      exact ⟨[], room, [], .nil, rfl⟩
  | cons slot rest ih =>
      cases slot with
      | packet now =>
          simp only [List.countP_cons, Slot.isPacket, ↓reduceIte] at hlength
          cases packets with
          | nil => simp at hlength
          | cons packet packets =>
              obtain ⟨events, final, sent, hfills, hrun⟩ :=
                @ih packets (by simpa using hlength)
                  (room.processAudio now speaker packet)
              exact ⟨.processAudio now speaker packet :: events, final, sent,
                .packet now packet hfills, (run_cons_eq_some _).2
                  ⟨_, [], sent, rfl, hrun, rfl⟩⟩
      | tick now =>
          let walk : Walk Id := {
            clients := room.clients.keys
            buffers := room.audioBuffers.keys
            activity := (room.sendMixes now room.audioBuffers.keys
              room.clients.keys room.clientLastActivity).2.keys }
          obtain ⟨events, final, sent, hfills, hrun⟩ := @ih packets
            (by simpa [List.countP_cons, Slot.isPacket] using hlength)
            (room.mixAndSendAudio now walk).1
          have hstep := @step_tick _ _ _ room now walk
            ⟨.refl _, .refl _, .refl _⟩
          exact ⟨.tick now walk :: events, final, _, .tick now walk hfills,
            (run_cons_eq_some _).2 ⟨_, _, sent, hstep, hrun, rfl⟩⟩

/-- The listener hears the same, whatever the iteration orders. -/
def StreamsAgree (speaker listener : Id) (first second : Client)
    (left right : List Slot) (packets : List AudioPacket) : Prop :=
  ∀ leftEvents rightEvents leftRoom rightRoom leftSent rightSent,
    Fills speaker left packets leftEvents →
    Fills speaker right packets rightEvents →
    run RoomManager.step (pairRoom speaker listener first second) leftEvents =
      some (leftRoom, leftSent) →
    run RoomManager.step (pairRoom speaker listener first second) rightEvents =
      some (rightRoom, rightSent) →
    heardStream listener leftSent = heardStream listener rightSent

/-- The stream of a list of group sizes. -/
def streamOf (sizes : List Nat) (packets : List AudioPacket) : List UInt8 :=
  (sizes.splitLengths packets).flatMap fun group => (AudioMixer.mix group).data

theorem heardStream_pairRoom {count : Nat} (placement : Placement count)
    (hne : speaker ≠ listener) (first second : Client)
    {packets : List AudioPacket} {events : List (RoomEvent Id Client)}
    (hfills : Fills speaker placement.slots packets events)
    {final : RoomManager Id Client} {sent : List (Delivery Id Client)}
    (hrun : run RoomManager.step (pairRoom speaker listener first second)
      events = some (final, sent)) :
    heardStream listener sent =
      streamOf (groupSizes 0 placement.slots) packets := by
  have htracks : Tracks (pairRoom speaker listener first second)
      [.addClient listener second, .addClient speaker first] :=
    (tracks_new.addClient speaker first).addClient listener second
  have hone : OneSpeaker speaker listener
      [.addClient listener second, .addClient speaker first]
      ([] : List AudioPacket) none := {
    registered := ⟨second, by simp [registered]⟩
    others := fun _ _ => rfl
    pending := rfl
    last := rfl }
  exact heardStream_eq hfills hne htracks hone (fun hnil => absurd rfl hnil)
    placement.neverSilent placement.atMost hrun

theorem streamsAgree_iff {count : Nat} (left right : Placement count)
    (hne : speaker ≠ listener) (first second : Client)
    {packets : List AudioPacket} (hlength : packets.length = count) :
    StreamsAgree speaker listener first second left.slots right.slots packets ↔
      streamOf (groupSizes 0 left.slots) packets =
        streamOf (groupSizes 0 right.slots) packets := by
  constructor
  · intro hagree
    obtain ⟨leftEvents, leftRoom, leftSent, hleft, hleftRun⟩ :=
      exists_run speaker left.slots (left.arrivals.trans hlength.symm)
        (pairRoom speaker listener first second)
    obtain ⟨rightEvents, rightRoom, rightSent, hright, hrightRun⟩ :=
      exists_run speaker right.slots (right.arrivals.trans hlength.symm)
        (pairRoom speaker listener first second)
    have hsame := hagree _ _ _ _ _ _ hleft hright hleftRun hrightRun
    rwa [heardStream_pairRoom left hne first second hleft hleftRun,
      heardStream_pairRoom right hne first second hright hrightRun] at hsame
  · intro hsame leftEvents rightEvents leftRoom rightRoom leftSent rightSent
      hleft hright hleftRun hrightRun
    rw [heardStream_pairRoom left hne first second hleft hleftRun,
      heardStream_pairRoom right hne first second hright hrightRun, hsame]

end Stream

/-- `n` samples of silence. -/
def silence (n : Nat) : AudioPacket :=
  ⟨List.replicate (2 * n) 0⟩

/-- One sample, then silence. -/
def click (n : Nat) (value : UInt8) : AudioPacket :=
  ⟨(List.replicate (2 * n) 0).set 0 value⟩

theorem sampleOf_small {value : Nat} (hvalue : value < 128) :
    AudioMixer.sampleOf (UInt8.ofNat value) 0 = value := by
  have hbyte : (UInt8.ofNat value).toNat = value :=
    UInt8.toNat_ofNat_of_lt' (Nat.lt_trans hvalue (by decide))
  have hsmall : (value : Int).bmod (2 ^ 16) = value :=
    Int.bmod_eq_of_le_mul_two (by norm_num; omega) (by norm_num; omega)
  have hzero : ((0 : UInt8).toNat : Int) = 0 := rfl
  unfold AudioMixer.sampleOf
  rw [hbyte, hzero, Int.mul_zero, Int.add_zero]
  exact hsmall

theorem data_click (m : Nat) (value : UInt8) :
    (click (m + 1) value).data = value :: 0 :: List.replicate (2 * m) 0 := by
  simp [click, Nat.mul_succ, List.replicate_succ]

theorem silence_eq_click {n : Nat} (hn : 0 < n) : silence n = click n 0 := by
  obtain ⟨m, rfl⟩ : ∃ m, n = m + 1 := ⟨n - 1, by omega⟩
  simp [silence, click, Nat.mul_succ, List.replicate_succ]

theorem samples_click {n : Nat} (hn : 0 < n) {value : Nat}
    (hvalue : value < 128) :
    (AudioMixer.samples (click n (UInt8.ofNat value)).data)[0]? =
      some (value : Int) := by
  obtain ⟨m, rfl⟩ : ∃ m, n = m + 1 := ⟨n - 1, by omega⟩
  rw [data_click, AudioMixer.samples, List.getElem?_cons_zero,
    sampleOf_small hvalue]

theorem samples_silence {n : Nat} (hn : 0 < n) :
    (AudioMixer.samples (silence n).data)[0]? = some 0 := by
  rw [silence_eq_click hn]
  exact samples_click hn (show 0 < 128 by decide)

theorem column_silence {counts : List Nat} (hpos : ∀ n ∈ counts, 0 < n) :
    AudioMixer.column (counts.map silence) 0 =
      List.replicate counts.length 0 := by
  induction counts with
  | nil => rfl
  | cons n rest ih =>
      obtain ⟨hn, hrest⟩ := List.forall_mem_cons.1 hpos
      rw [List.map_cons, AudioMixer.column, List.filterMap_cons,
        samples_silence hn]
      exact congrArg (0 :: ·) (ih hrest)

/-- Silence mixes to silence. -/
theorem mix_silence_head {counts : List Nat} (hpos : ∀ n ∈ counts, 0 < n)
    (hcounts : counts ≠ []) :
    ∃ rest, (AudioMixer.mix (counts.map silence)).data = [0, 0] ++ rest := by
  obtain ⟨n, hn⟩ := List.exists_mem_of_ne_nil _ hcounts
  obtain ⟨rest, hrest⟩ := AudioMixer.mix_head (List.mem_map_of_mem hn)
    (show 2 ≤ (silence n).data.length by
      have hpositive := hpos n hn
      simp only [silence, List.length_replicate]
      omega)
  have hquiet : ∀ count, AudioMixer.outputSample 0 count = 0 := by
    intro count
    simp [AudioMixer.outputSample]
  have hsum : (List.replicate counts.length (0 : Int)).foldl
      AudioMixer.add32 0 = 0 := by
    rw [AudioMixer.foldl_add32_of_small (by simp) (by simp),
      List.sum_replicate_int, Int.mul_zero]
  refine ⟨rest, ?_⟩
  rw [hrest, column_silence hpos, hsum, hquiet]
  rfl

/-- A click among silence is heard. -/
theorem mix_click_head {before after : List Nat} {n : Nat}
    (hbefore : ∀ n ∈ before, 0 < n) (hn : 0 < n) (hafter : ∀ n ∈ after, 0 < n)
    (hfew : before.length + 1 + after.length ≤ maxBufferSize) :
    ∃ rest, (AudioMixer.mix (before.map silence ++
      click n (UInt8.ofNat (2 * (before.length + 1 + after.length))) ::
        after.map silence)).data = [1, 0] ++ rest := by
  generalize htotal : before.length + 1 + after.length = total at hfew
  unfold maxBufferSize at hfew
  let packets := before.map silence ++
    click n (UInt8.ofNat (2 * total)) :: after.map silence
  have hmem : click n (UInt8.ofNat (2 * total)) ∈ packets := by simp [packets]
  obtain ⟨rest, hrest⟩ := AudioMixer.mix_head hmem (by
    simp only [click, List.length_set, List.length_replicate]
    omega)
  have hcolumn : AudioMixer.column packets 0 =
      List.replicate before.length (0 : Int) ++
        ((2 * total : Nat) : Int) :: List.replicate after.length 0 := by
    have hleft := column_silence hbefore
    have hright := column_silence hafter
    unfold AudioMixer.column at hleft hright ⊢
    rw [List.filterMap_append, List.filterMap_cons,
      samples_click hn (by omega), hleft, hright]
  have hsum : (AudioMixer.column packets 0).sum = (2 * total : Nat) := by
    rw [hcolumn]
    simp [List.sum_append]
  have hcount : ((AudioMixer.column packets 0).map fun _ => (1 : Int)).sum =
      (total : Nat) := by
    rw [hcolumn, List.map_const', List.sum_replicate_int, ← htotal]
    simp only [List.length_append, List.length_replicate, List.length_cons]
    push_cast
    omega
  have hout : AudioMixer.outputSample (2 * total : Nat) (total : Nat) = 1 := by
    have hpositive : (0 : Int) < total := by omega
    have hdiv : ((2 * total : Nat) : Int).tdiv total = 2 := by
      push_cast
      exact Int.mul_tdiv_cancel _ (by omega)
    rw [AudioMixer.outputSample, if_pos hpositive, hdiv]
    rfl
  refine ⟨rest, ?_⟩
  rw [hrest, AudioMixer.foldl_add32_of_small (by omega) (by omega), hsum,
    AudioMixer.foldl_add32_of_small (by omega) (by omega), hcount, hout]
  rfl

theorem splitLengths_append (left right : List Nat)
    (packets : List AudioPacket) :
    (left ++ right).splitLengths packets =
      left.splitLengths packets ++
        right.splitLengths (packets.drop left.sum) := by
  induction left generalizing packets with
  | nil => simp
  | cons size left ih =>
      simp [List.splitLengths_cons, ih, List.drop_drop]

/-- Two different lists of group sizes for the same packets part at some
group. -/
theorem exists_parting {left right : List Nat} (hleft : ∀ n ∈ left, 0 < n)
    (hright : ∀ n ∈ right, 0 < n) (hsum : left.sum = right.sum)
    (hne : left ≠ right) :
    ∃ common x y leftRest rightRest, left = common ++ x :: leftRest ∧
      right = common ++ y :: rightRest ∧ x ≠ y := by
  induction left generalizing right with
  | nil =>
      cases right with
      | nil => exact absurd rfl hne
      | cons y right =>
          have hy := hright y List.mem_cons_self
          simp only [List.sum_nil, List.sum_cons] at hsum
          omega
  | cons x left ih =>
      obtain ⟨hx, hrest⟩ := List.forall_mem_cons.1 hleft
      cases right with
      | nil =>
          simp only [List.sum_nil, List.sum_cons] at hsum
          omega
      | cons y right =>
          by_cases hxy : x = y
          · subst hxy
            obtain ⟨common, a, b, leftRest, rightRest, hl, hr, hab⟩ :=
              ih hrest (List.forall_mem_cons.1 hright).2
                (by simpa using hsum) (by simpa using hne)
            exact ⟨x :: common, a, b, leftRest, rightRest, by simp [hl],
              by simp [hr], hab⟩
          · exact ⟨[], x, y, left, right, rfl, rfl, hxy⟩

theorem streamOf_append_cons (common rest : List Nat) (size : Nat)
    (packets : List AudioPacket) :
    streamOf (common ++ size :: rest) packets = streamOf common packets ++
      ((AudioMixer.mix ((packets.drop common.sum).take size)).data ++
        streamOf rest ((packets.drop common.sum).drop size)) := by
  simp only [streamOf, splitLengths_append, List.splitLengths_cons,
    List.flatMap_append, List.flatMap_cons]

/-- A group that reaches past the clicking packet. -/
theorem take_clicked (before after : List Nat) (packet : AudioPacket)
    (more : Nat) :
    (before.map silence ++ packet :: after.map silence).take
        (before.length + 1 + more) =
      before.map silence ++ packet :: (after.take more).map silence := by
  have hlength : (before.map silence).length = before.length :=
    List.length_map ..
  rw [List.take_append, hlength, List.take_of_length_le (by omega),
    show before.length + 1 + more - before.length = more + 1 by omega,
    List.take_succ_cons, List.map_take]

/-- Where one grouping ends a group and the other goes on, a click in the next
packet is heard at once by one listener only. -/
theorem exists_streamOf_ne {counts common leftRest rightRest : List Nat}
    {x y : Nat} (hpos : ∀ n ∈ counts, 0 < n) (hx : 0 < x) (hxy : x < y)
    (hy : y ≤ maxBufferSize)
    (hsum : (common ++ y :: rightRest).sum = counts.length) :
    ∃ packets : List AudioPacket,
      packets.map (fun packet => packet.data.length) = counts.map (2 * ·) ∧
        streamOf (common ++ x :: leftRest) packets ≠
          streamOf (common ++ y :: rightRest) packets := by
  rw [List.sum_append, List.sum_cons] at hsum
  -- The packets of the common groups, of the shorter group, and the rest.
  obtain ⟨shared, later, rfl, hshared⟩ : ∃ shared later,
      counts = shared ++ later ∧ shared.length = common.sum :=
    ⟨counts.take common.sum, counts.drop common.sum,
      (List.take_append_drop ..).symm, by rw [List.length_take]; omega⟩
  rw [List.length_append] at hsum
  obtain ⟨before, n, after, rfl, hbefore⟩ : ∃ before n after,
      later = before ++ n :: after ∧ before.length = x := by
    have hlt : x < later.length := by omega
    exact ⟨later.take x, later[x], later.drop (x + 1),
      by rw [← List.drop_eq_getElem_cons hlt, List.take_append_drop],
      by rw [List.length_take]; omega⟩
  simp only [List.mem_append, List.mem_cons] at hpos
  let rest := before.map silence ++
    click n (UInt8.ofNat (2 * y)) :: after.map silence
  refine ⟨shared.map silence ++ rest, ?_, fun hsame => ?_⟩
  · have hdata : ∀ list : List Nat, (list.map silence).map
        (fun packet => packet.data.length) = list.map (2 * ·) := by
      intro list
      simp [silence]
    simp only [rest, List.map_append, List.map_cons, hdata, click,
      List.length_set, List.length_replicate]
  · have hdrop : (shared.map silence ++ rest).drop common.sum = rest :=
      List.drop_left' (by rw [List.length_map, hshared])
    rw [streamOf_append_cons, streamOf_append_cons, hdrop,
      List.append_cancel_left_eq] at hsame
    have hshort : rest.take x = before.map silence :=
      List.take_left' (by rw [List.length_map, hbefore])
    obtain ⟨more, rfl⟩ : ∃ more, y = x + 1 + more := ⟨y - (x + 1), by omega⟩
    have hlong : rest.take (x + 1 + more) = before.map silence ++
        click n (UInt8.ofNat (2 * (x + 1 + more))) ::
          (after.take more).map silence := by
      have htake := take_clicked before after
        (click n (UInt8.ofNat (2 * (x + 1 + more)))) more
      rwa [hbefore] at htake
    have hmore : (after.take more).length = more := by
      simp only [List.length_append, List.length_cons] at hsum
      rw [List.length_take]
      omega
    have hbeforeNe : before ≠ [] := by
      rintro rfl
      simp only [List.length_nil] at hbefore
      omega
    obtain ⟨quiet, hquiet⟩ := mix_silence_head
      (fun m hm => hpos m (Or.inr (Or.inl hm))) hbeforeNe
    have hclick := @mix_click_head before (after.take more) n
      (fun m hm => hpos m (Or.inr (Or.inl hm)))
      (hpos n (Or.inr (Or.inr (Or.inl rfl))))
      (fun m hm => hpos m (Or.inr (Or.inr (Or.inr (List.mem_of_mem_take hm)))))
      (by omega)
    rw [hbefore, hmore] at hclick
    obtain ⟨loud, hloud⟩ := hclick
    rw [hshort, hlong, hquiet, hloud] at hsame
    simp at hsame

section Exact

variable {Id : Type u} [DecidableEq Id] {Client : Type v}

/-- For packets of the given numbers of samples, two placements of the ticks
give the same stream whatever the samples are exactly when they group the
packets alike. -/
theorem streams_agree_iff_groups_agree {speaker listener : Id}
    (hne : speaker ≠ listener) (first second : Client) {counts : List Nat}
    (hpos : ∀ n ∈ counts, 0 < n) (left right : Placement counts.length) :
    (∀ packets : List AudioPacket,
      packets.map (fun packet => packet.data.length) = counts.map (2 * ·) →
      StreamsAgree speaker listener first second left.slots right.slots
        packets) ↔
      groupSizes 0 left.slots = groupSizes 0 right.slots := by
  have hagree : ∀ packets : List AudioPacket,
      packets.map (fun packet => packet.data.length) = counts.map (2 * ·) →
      (StreamsAgree speaker listener first second left.slots right.slots
        packets ↔ streamOf (groupSizes 0 left.slots) packets =
          streamOf (groupSizes 0 right.slots) packets) := by
    intro packets hpackets
    apply streamsAgree_iff left right hne first second
    simpa using congrArg List.length hpackets
  constructor
  · intro hall
    by_contra hdiffer
    obtain ⟨common, x, y, leftRest, rightRest, hleft, hright, hxy⟩ :=
      exists_parting (groupSizes_pos left.slots 0) (groupSizes_pos right.slots 0)
        (left.sum_eq.trans right.sum_eq.symm) hdiffer
    have hleftSum := left.sum_eq
    have hrightSum := right.sum_eq
    have hx : 0 < x ∧ x ≤ maxBufferSize := by
      have hmem : x ∈ groupSizes 0 left.slots := by simp [hleft]
      exact ⟨groupSizes_pos left.slots 0 x hmem, left.atMost x hmem⟩
    have hy : 0 < y ∧ y ≤ maxBufferSize := by
      have hmem : y ∈ groupSizes 0 right.slots := by simp [hright]
      exact ⟨groupSizes_pos right.slots 0 y hmem, right.atMost y hmem⟩
    rcases Nat.lt_or_gt_of_ne hxy with hlt | hgt
    · rw [hright] at hrightSum
      obtain ⟨packets, hpackets, hstreams⟩ :=
        @exists_streamOf_ne counts common leftRest rightRest x y hpos hx.1 hlt
          hy.2 hrightSum
      apply hstreams
      rw [← hleft, ← hright]
      exact (hagree packets hpackets).1 (hall packets hpackets)
    · rw [hleft] at hleftSum
      obtain ⟨packets, hpackets, hstreams⟩ :=
        @exists_streamOf_ne counts common rightRest leftRest y x hpos hy.1 hgt
          hx.2 hleftSum
      apply hstreams
      rw [← hleft, ← hright]
      exact ((hagree packets hpackets).1 (hall packets hpackets)).symm
  · intro hsame packets hpackets
    rw [hagree packets hpackets, hsame]

end Exact

/-- Two packets 20 ms apart, a tick after each. -/
def tickEach : Placement 2 where
  slots := [.packet 0, .tick 10000000, .packet 20000000, .tick 30000000]
  arrivals := rfl
  ended := ⟨[.packet 0, .tick 10000000, .packet 20000000], 30000000, rfl⟩
  atMost := by decide
  neverSilent := by simp [NeverSilent, activityTimeout]

/-- The same packets, and a single tick. -/
def tickOnce : Placement 2 where
  slots := [.packet 0, .packet 20000000, .tick 30000000]
  arrivals := rfl
  ended := ⟨[.packet 0, .packet 20000000], 30000000, rfl⟩
  atMost := by decide
  neverSilent := by simp [NeverSilent, activityTimeout]

theorem streams_agree_iff_groups_agree_two :
    (∀ packets : List AudioPacket,
      packets.map (fun packet => packet.data.length) = [1, 1].map (2 * ·) →
      StreamsAgree 1 2 () () tickEach.slots tickOnce.slots packets) ↔
      groupSizes 0 tickEach.slots = groupSizes 0 tickOnce.slots :=
  @streams_agree_iff_groups_agree Nat _ Unit 1 2 (by decide) () () [1, 1]
    (by decide) tickEach tickOnce

/-- Samples 100 and 200 are heard as 50 and 100, or as a single 75. -/
theorem streams_not_agree :
    ¬ ∀ (packets : List AudioPacket)
      (left right : Placement packets.length),
      (∀ packet ∈ packets,
        packet.data ≠ [] ∧ 2 ∣ packet.data.length) →
      StreamsAgree 1 2 () () left.slots right.slots packets := by
  intro hclaim
  have hagree := hclaim [⟨[100, 0]⟩, ⟨[200, 0]⟩] tickEach tickOnce (by decide)
  rw [streamsAgree_iff tickEach tickOnce (by decide) () () rfl] at hagree
  have heach : streamOf (groupSizes 0 tickEach.slots)
      [⟨[100, 0]⟩, ⟨[200, 0]⟩] = [50, 0, 100, 0] := by
    decide +kernel
  have honce : streamOf (groupSizes 0 tickOnce.slots)
      [⟨[100, 0]⟩, ⟨[200, 0]⟩] = [75, 0] := by
    decide +kernel
  rw [heach, honce] at hagree
  exact absurd hagree (by decide)

end RoomManager

end VoiceServer

/-
What the client receives, on its way to the sound card: through the jitter
buffer, through the queue of the audio manager, out in blocks.  The network
strand and the callback of the sound card take turns in any order.
-/
import VoiceServer.DropOldest
import VoiceServer.JitterBuffer
import VoiceServer.Projection
import VoiceServer.Smoothing

namespace VoiceServer

open AudioMixer

/-- `outputBuffer` of a stream that is opened for blocks of `FRAMES_PER_BUFFER`
samples. -/
structure CardMemory where
  bytes : List UInt8
  length_eq : bytes.length = 2 * framesPerBuffer

def CardMemory.block (memory : CardMemory) : OutputBlock :=
  ⟨framesPerBuffer, memory.bytes, memory.length_eq⟩

/-- The client, with both halves of its audio manager. -/
structure PlayingClient where
  client : VoiceChatClient
  output : AudioOutput
deriving DecidableEq, Repr

inductive PlayingEvent where
  | client (event : ClientEvent)
  | outputCallback (memory : CardMemory)

inductive PlayingCall where
  | sendTo (datagram : Datagram)
  | played (block : PlayedBlock)
deriving DecidableEq, Repr

namespace PlayingClient

def new (resolved : Endpoint) : PlayingClient :=
  ⟨VoiceChatClient.new resolved, AudioOutput.new⟩

/-- The closure that `start` passes to the network manager. -/
def receiveCallback (output : AudioOutput) : ClientCall → AudioOutput
  | .receiveCallback packet => output.addOutputData packet
  | .sendTo _ => output

def sendIn : ClientCall → Option PlayingCall
  | .receiveCallback _ => none
  | .sendTo datagram => some (.sendTo datagram)

def step (next : Int → Int → Int) (playing : PlayingClient) :
    PlayingEvent → Option (PlayingClient × List PlayingCall)
  | .client event =>
      (playing.client.step event).map fun done =>
        (⟨done.1, done.2.foldl receiveCallback playing.output⟩,
          done.2.filterMap sendIn)
  | .outputCallback memory =>
      let done := playing.output.outputCallback next memory.block
      some ({ playing with output := done.1 }, [.played done.2])

/-- The events of the network strand. -/
def clientEvents (events : List PlayingEvent) : List ClientEvent :=
  events.filterMap fun
    | .client event => some event
    | .outputCallback _ => none

def playedBlocks (calls : List PlayingCall) : List PlayedBlock :=
  calls.filterMap fun
    | .sendTo _ => none
    | .played block => some block

/-- The memory that the sound card gave to each callback. -/
def cardMemories (events : List PlayingEvent) : List CardMemory :=
  events.filterMap fun
    | .client _ => none
    | .outputCallback memory => some memory

/-- What a step does to the queue of the audio manager. -/
def queueEvents (playing : PlayingClient) :
    PlayingEvent → List (QueueEvent AudioPacket)
  | .client event =>
      (playing.client.step event).elim [] fun done =>
        (VoiceChatClient.callbacks done.2).map .push
  | .outputCallback _ => [.pop]

/-- The samples of a packet that a block has room for. -/
def heard (packet : AudioPacket) : List Int :=
  (samples packet.data).take framesPerBuffer

/-- The memory after a callback that takes a packet, or finds none: the samples of
the packet, each smoothed from the one before it, and silence.  The last byte of a
packet of odd size is neither written nor cleared. -/
def cardAfter (next : Int → Int → Int) (memory : CardMemory) :
    Option AudioPacket → List UInt8
  | none => List.replicate (2 * framesPerBuffer) 0
  | some packet =>
      let written := (smoothing next 0 (heard packet)).flatMap sampleBytes
      let copied := min packet.data.length (2 * framesPerBuffer)
      written ++ (memory.bytes.drop written.length).take (copied % 2) ++
        List.replicate (2 * framesPerBuffer - copied) 0

section Step

variable {next : Int → Int → Int} {playing after : PlayingClient}
  {calls : List PlayingCall}

/-- The calls of one step of the network strand, on the queue. -/
theorem run_receiveCallback (done : List ClientCall) (output : AudioOutput) :
    ∃ left, run (DropOldest.step AudioOutput.maxBufferSize) output.outputBuffer
        ((VoiceChatClient.callbacks done).map .push) =
        some ((done.foldl receiveCallback output).outputBuffer, left) ∧
      DropOldest.popped left = [] ∧
      DropOldest.pushes ((VoiceChatClient.callbacks done).map .push) =
        VoiceChatClient.callbacks done := by
  induction done generalizing output with
  | nil => exact ⟨[], rfl, rfl, rfl⟩
  | cons call rest ih =>
      cases call with
      | sendTo datagram => exact ih output
      | receiveCallback packet =>
          obtain ⟨left, hrun, hpopped, hpushes⟩ := ih (output.addOutputData packet)
          refine ⟨_, (run_cons_eq_some _).2 ⟨_, _, left, rfl, hrun, rfl⟩, ?_,
            congrArg (packet :: ·) hpushes⟩
          rw [DropOldest.popped_append, hpopped, List.append_nil]
          exact DropOldest.popped_map_dropped _

/-- A callback of the sound card, on the queue and on the memory. -/
theorem outputCallback_spec (next : Int → Int → Int) (output : AudioOutput)
    (memory : CardMemory) :
    run (DropOldest.step AudioOutput.maxBufferSize) output.outputBuffer [.pop] =
        some ((output.outputCallback next memory.block).1.outputBuffer,
          output.outputBuffer.head?.toList.map (·, .popped)) ∧
      (output.outputCallback next memory.block).2.current =
        output.outputBuffer.head?.toList.flatMap heard ∧
      (output.outputCallback next memory.block).2.memory =
        cardAfter next memory output.outputBuffer.head? := by
  obtain ⟨buffer⟩ := output
  cases buffer with
  | nil =>
      refine ⟨rfl, rfl, ?_⟩
      exact congrArg (List.replicate · 0) (Nat.mul_comm framesPerBuffer 2)
  | cons packet rest =>
      have hlength := length_samples packet.data
      have hcurrent : (samples packet.data).take
          (min packet.data.length (framesPerBuffer * 2) / 2) = heard packet := by
        rw [heard]
        rcases Nat.le_total packet.data.length (framesPerBuffer * 2) with
          hshort | hlong
        · rw [Nat.min_eq_left hshort, List.take_of_length_le hlength.le,
            List.take_of_length_le (by omega)]
        · rw [Nat.min_eq_right hlong, Nat.mul_div_cancel _ (by decide)]
      have hwritten : ((smoothing next 0 (heard packet)).flatMap
          sampleBytes).length = min packet.data.length (2 * framesPerBuffer) / 2 * 2 := by
        rw [length_flatMap_sampleBytes, length_smoothing, heard, List.length_take,
          hlength]
        omega
      have hodd : min packet.data.length (2 * framesPerBuffer) -
          min packet.data.length (2 * framesPerBuffer) / 2 * 2 =
          min packet.data.length (2 * framesPerBuffer) % 2 := by
        omega
      refine ⟨rfl, ?_, ?_⟩
      · simp only [AudioOutput.outputCallback, Option.toList_some,
          List.head?_cons, List.flatMap_cons, List.flatMap_nil, List.append_nil]
        exact hcurrent
      · simp only [AudioOutput.outputCallback, CardMemory.block, List.head?_cons,
          cardAfter, hcurrent]
        rw [Nat.mul_comm framesPerBuffer 2, hwritten, hodd]

/-- Where everything received is: it has left the queue, or waits in it, or
waits in the jitter buffer. -/
structure Accounted (next : Int → Int → Int) (resolved : Endpoint)
    (past : List PlayingEvent) (playing : PlayingClient)
    (calls : List PlayingCall) (left : List (AudioPacket × Leave)) : Prop where
  queue : run (DropOldest.step AudioOutput.maxBufferSize) []
      (partEvents (step next) queueEvents (new resolved) past) =
    some (playing.output.outputBuffer, left)
  arrivals : DropOldest.pushes
      (partEvents (step next) queueEvents (new resolved) past) ++
      playing.client.network.jitterBuffer =
    VoiceChatClient.arrivals (clientEvents past)
  played : AudioOutput.played (playedBlocks calls) =
    (DropOldest.popped left).flatMap heard
  callbacks : (DropOldest.takes AudioOutput.maxBufferSize
      (partEvents (step next) queueEvents (new resolved) past)).length =
    (cardMemories past).length
  memory : (playedBlocks calls).map PlayedBlock.memory =
    List.zipWith (cardAfter next) (cardMemories past)
      (DropOldest.takes AudioOutput.maxBufferSize
        (partEvents (step next) queueEvents (new resolved) past))

theorem accounted_new (next : Int → Int → Int) (resolved : Endpoint) :
    Accounted next resolved [] (new resolved) [] [] :=
  ⟨rfl, rfl, rfl, rfl, rfl⟩

/-- Packets that are handed over are not what a callback finds. -/
theorem takes_map_push (packets : List AudioPacket) (queue : List AudioPacket) :
    partEvents (DropOldest.step AudioOutput.maxBufferSize) DropOldest.taken queue
      (packets.map .push) = [] := by
  induction packets generalizing queue with
  | nil => rfl
  | cons packet rest ih => exact ih _

theorem Accounted.step {resolved : Endpoint} {past : List PlayingEvent}
    {left : List (AudioPacket × Leave)}
    (hrun : run (PlayingClient.step next) (new resolved) past =
      some (playing, calls))
    (haccounted : Accounted next resolved past playing calls left)
    {event : PlayingEvent} {more : List PlayingCall}
    (hstep : playing.step next event = some (after, more)) :
    ∃ new, Accounted next resolved (past ++ [event]) after (calls ++ more)
      (left ++ new) := by
  obtain ⟨hqueue, harrivals, hplayed, hcallbacks, hmemory⟩ := haccounted
  have hblocks : playedBlocks (calls ++ more) =
      playedBlocks calls ++ playedBlocks more := List.filterMap_append ..
  have hmemories : cardMemories (past ++ [event]) =
      cardMemories past ++ cardMemories [event] := List.filterMap_append ..
  have htakes : DropOldest.takes AudioOutput.maxBufferSize
      (partEvents (PlayingClient.step next) queueEvents (new resolved)
        (past ++ [event])) =
      DropOldest.takes AudioOutput.maxBufferSize
        (partEvents (PlayingClient.step next) queueEvents (new resolved) past) ++
      partEvents (DropOldest.step AudioOutput.maxBufferSize) DropOldest.taken
        playing.output.outputBuffer (queueEvents playing event) := by
    rw [partEvents_concat _ _ hrun, DropOldest.takes_append hqueue]
  cases event with
  | client event =>
      simp only [PlayingClient.step, Option.map_eq_some_iff,
        Prod.mk.injEq] at hstep
      obtain ⟨⟨client, done⟩, hdone, rfl, rfl⟩ := hstep
      obtain ⟨new, hnew, hpopped, hpushes⟩ :=
        run_receiveCallback done playing.output
      have hevents : queueEvents playing (.client event) =
          (VoiceChatClient.callbacks done).map .push := by
        rw [queueEvents, hdone]
        rfl
      have hfound := takes_map_push (VoiceChatClient.callbacks done)
        playing.output.outputBuffer
      rw [← hevents] at hnew hpushes hfound
      rw [hfound, List.append_nil] at htakes
      have hclient : clientEvents (past ++ [.client event]) =
          clientEvents past ++ [event] := List.filterMap_append ..
      have hnone : playedBlocks (done.filterMap sendIn) = [] := by
        rw [playedBlocks, List.filterMap_filterMap, List.filterMap_eq_nil_iff]
        intro call _
        cases call <;> rfl
      have hgiven : cardMemories [.client event] = [] := rfl
      rw [hgiven, List.append_nil] at hmemories
      refine ⟨new, run_part_concat hrun hqueue hnew, ?_, ?_, ?_, ?_⟩
      · rw [partEvents_concat _ _ hrun, DropOldest.pushes_append, hpushes,
          hclient, VoiceChatClient.arrivals_append, ← harrivals,
          List.append_assoc, List.append_assoc]
        exact congrArg _ (VoiceChatClient.step_jitterBuffer hdone)
      · rw [hblocks, hnone, List.append_nil, DropOldest.popped_append, hpopped,
          List.append_nil]
        exact hplayed
      · rw [htakes, hmemories, hcallbacks]
      · rw [hblocks, hnone, List.append_nil, htakes, hmemories, hmemory]
  | outputCallback memory =>
      obtain ⟨rfl, rfl⟩ : _ = after ∧ _ = more := by
        simpa only [PlayingClient.step, Option.some.injEq,
          Prod.mk.injEq] using hstep
      obtain ⟨hnew, hcurrent, hleft⟩ :=
        outputCallback_spec next playing.output memory
      have hpop : DropOldest.pushes (queueEvents playing
          (.outputCallback memory)) = [] := rfl
      have hclient : clientEvents (past ++ [.outputCallback memory]) =
          clientEvents past := by
        simp [clientEvents]
      have hone : ∀ block, playedBlocks [.played block] = [block] :=
        fun _ => rfl
      have hgiven : cardMemories [.outputCallback memory] = [memory] := rfl
      have hfound : partEvents (DropOldest.step AudioOutput.maxBufferSize)
          DropOldest.taken playing.output.outputBuffer
          (queueEvents playing (.outputCallback memory)) =
          [playing.output.outputBuffer.head?] := rfl
      rw [hfound] at htakes
      rw [hgiven] at hmemories
      refine ⟨_, run_part_concat hrun hqueue hnew, ?_, ?_, ?_, ?_⟩
      · rw [partEvents_concat _ _ hrun, DropOldest.pushes_append, hpop,
          List.append_nil, hclient]
        exact harrivals
      · rw [hblocks, hone, AudioOutput.played_append, hplayed,
          DropOldest.popped_append, DropOldest.popped_map_popped,
          List.flatMap_append, ← hcurrent]
        simp [AudioOutput.played]
      · rw [htakes, hmemories, List.length_append, List.length_append,
          hcallbacks]
        rfl
      · rw [hblocks, hone, List.map_append, hmemory, htakes, hmemories,
          List.zipWith_append hcallbacks.symm, List.map_singleton, hleft]
        rfl

theorem accounted_of_run {resolved : Endpoint} {events : List PlayingEvent}
    (hrun : run (PlayingClient.step next) (new resolved) events =
      some (playing, calls)) :
    ∃ left, Accounted next resolved events playing calls left := by
  refine run_induction _ (motive := fun past state outs =>
    ∃ left, Accounted next resolved past state outs left)
    ⟨[], accounted_new next resolved⟩ ?_ hrun
  rintro past state outs event after more hpast ⟨left, haccounted⟩ hstep
  obtain ⟨new, hnew⟩ := haccounted.step hpast hstep
  exact ⟨left ++ new, hnew⟩

end Step

/-- The queue of the audio manager is a queue of ten that drops its oldest.  Every
packet received is, in order of arrival: taken by a callback or dropped; or one of
at most ten in the queue; or in the jitter buffer.  A callback leaves in the memory
of the sound card the packet that it finds in front, smoothed and up to a block, or
silence; and the ten newest packets handed to the queue are never dropped. -/
theorem playback_accounts {next : Int → Int → Int} {resolved : Endpoint}
    {events : List PlayingEvent} {final : PlayingClient}
    {calls : List PlayingCall}
    (hrun : run (step next) (new resolved) events = some (final, calls)) :
    ∃ (left : List (AudioPacket × Leave)) (found : List (Option AudioPacket)),
      run (DropOldest.step AudioOutput.maxBufferSize) []
          (partEvents (step next) queueEvents (new resolved) events) =
          some (final.output.outputBuffer, left) ∧
      left.map Prod.fst ++ final.output.outputBuffer ++
        final.client.network.jitterBuffer =
        VoiceChatClient.arrivals (clientEvents events) ∧
      final.output.outputBuffer.length ≤ AudioOutput.maxBufferSize ∧
      found = DropOldest.takes AudioOutput.maxBufferSize
        (partEvents (step next) queueEvents (new resolved) events) ∧
      found.reduceOption = DropOldest.popped left ∧
      found.length = (cardMemories events).length ∧
      (playedBlocks calls).map PlayedBlock.memory =
        List.zipWith (cardAfter next) (cardMemories events) found ∧
      AudioOutput.played (playedBlocks calls) =
        (DropOldest.popped left).flatMap heard ∧
      ∀ before packet after, left = before ++ (packet, .dropped) :: after →
        before.length + AudioOutput.maxBufferSize <
          left.length + final.output.outputBuffer.length := by
  obtain ⟨left, hqueue, harrivals, hplayed, hcallbacks, hmemory⟩ :=
    accounted_of_run hrun
  have hall := DropOldest.left_append_queue hqueue
  refine ⟨left, _, hqueue, ?_, DropOldest.length_le hqueue, rfl,
    (DropOldest.popped_eq_reduceOption hqueue).symm, hcallbacks, hmemory, hplayed,
    ?_⟩
  · rw [hall]
    exact harrivals
  · intro before packet after hleft
    have hcount := congrArg List.length hall
    rw [List.length_append, List.length_map] at hcount
    rw [hcount]
    exact DropOldest.dropped_old hqueue hleft

/-- What the sound card may have left in its memory. -/
def usedMemory : CardMemory :=
  ⟨List.replicate (2 * framesPerBuffer) 7, List.length_replicate ..⟩

/-- Twelve packets arrive, eleven are handed over before the sound card calls
back, and it calls back twice. -/
def crowdedEvents : List PlayingEvent :=
  (List.range 11).flatMap (fun k =>
      [.client (.received VoiceChatClient.serverAddress [UInt8.ofNat k, 1]),
        .client .jitterTick]) ++
    [.client (.received VoiceChatClient.serverAddress [1, 2, 3]),
      .outputCallback usedMemory, .outputCallback usedMemory]

/-- The first packet handed over is dropped, the next two are played. -/
theorem crowdedEvents_run :
    ∃ final calls, run (step AudioOutput.smoothingStep)
        (new VoiceChatClient.serverAddress) crowdedEvents = some (final, calls) ∧
      ((playedBlocks calls).map fun block =>
        (block.current, block.memory.take 4)) =
        [([257], [25, 0, 0, 0]), ([258], [25, 0, 0, 0])] := by
  have hplays : ((run (step AudioOutput.smoothingStep)
      (new VoiceChatClient.serverAddress) crowdedEvents).map fun done =>
        (playedBlocks done.2).map fun block =>
          (block.current, block.memory.take 4)) =
      some [([257], [25, 0, 0, 0]), ([258], [25, 0, 0, 0])] := by
    decide +kernel
  obtain ⟨⟨final, calls⟩, hrun, hblocks⟩ := Option.map_eq_some_iff.1 hplays
  exact ⟨final, calls, hrun, hblocks⟩

theorem playback_accounts_crowded :
    ∃ final calls,
      run (step AudioOutput.smoothingStep) (new VoiceChatClient.serverAddress)
        crowdedEvents = some (final, calls) ∧
      ((playedBlocks calls).map fun block =>
        (block.current, block.memory.take 4)) =
        [([257], [25, 0, 0, 0]), ([258], [25, 0, 0, 0])] ∧
      ∃ (left : List (AudioPacket × Leave)) (found : List (Option AudioPacket)),
        run (DropOldest.step AudioOutput.maxBufferSize) []
            (partEvents (step AudioOutput.smoothingStep) queueEvents
              (new VoiceChatClient.serverAddress) crowdedEvents) =
            some (final.output.outputBuffer, left) ∧
        left.map Prod.fst ++ final.output.outputBuffer ++
          final.client.network.jitterBuffer =
          VoiceChatClient.arrivals (clientEvents crowdedEvents) ∧
        final.output.outputBuffer.length ≤ AudioOutput.maxBufferSize ∧
        found = DropOldest.takes AudioOutput.maxBufferSize
          (partEvents (step AudioOutput.smoothingStep) queueEvents
            (new VoiceChatClient.serverAddress) crowdedEvents) ∧
        found.reduceOption = DropOldest.popped left ∧
        found.length = (cardMemories crowdedEvents).length ∧
        (playedBlocks calls).map PlayedBlock.memory =
          List.zipWith (cardAfter AudioOutput.smoothingStep)
            (cardMemories crowdedEvents) found ∧
        AudioOutput.played (playedBlocks calls) =
          (DropOldest.popped left).flatMap heard ∧
        ∀ before packet after, left = before ++ (packet, .dropped) :: after →
          before.length + AudioOutput.maxBufferSize <
            left.length + final.output.outputBuffer.length := by
  obtain ⟨final, calls, hrun, hblocks⟩ := crowdedEvents_run
  exact ⟨final, calls, hrun, hblocks, playback_accounts hrun⟩

/-- Nothing is lost between the jitter buffer and the sound card exactly if in no
stretch of the run the timer hands over more than ten packets beyond the
callbacks of the sound card. -/
theorem none_dropped_iff {next : Int → Int → Int} {resolved : Endpoint}
    {events : List PlayingEvent} {final : PlayingClient}
    {calls : List PlayingCall}
    (hrun : run (step next) (new resolved) events = some (final, calls)) :
    ∃ left : List (AudioPacket × Leave),
      run (DropOldest.step AudioOutput.maxBufferSize) []
          (partEvents (step next) queueEvents (new resolved) events) =
          some (final.output.outputBuffer, left) ∧
      AudioOutput.played (playedBlocks calls) =
        (DropOldest.popped left).flatMap heard ∧
      ((∀ item ∈ left, item.2 = .popped) ↔
        ∀ stretch, stretch <:+:
          partEvents (step next) queueEvents (new resolved) events →
          DropOldest.excess stretch ≤ AudioOutput.maxBufferSize) := by
  obtain ⟨left, hqueue, -, hplayed⟩ := accounted_of_run hrun
  exact ⟨left, hqueue, hplayed, DropOldest.all_popped_iff hqueue⟩

theorem none_dropped_iff_crowded :
    ∃ final calls,
      run (step AudioOutput.smoothingStep) (new VoiceChatClient.serverAddress)
        crowdedEvents = some (final, calls) ∧
      ∃ left : List (AudioPacket × Leave),
        run (DropOldest.step AudioOutput.maxBufferSize) []
            (partEvents (step AudioOutput.smoothingStep) queueEvents
              (new VoiceChatClient.serverAddress) crowdedEvents) =
            some (final.output.outputBuffer, left) ∧
        AudioOutput.played (playedBlocks calls) =
          (DropOldest.popped left).flatMap heard ∧
        ((∀ item ∈ left, item.2 = .popped) ↔
          ∀ stretch, stretch <:+:
            partEvents (step AudioOutput.smoothingStep) queueEvents
              (new VoiceChatClient.serverAddress) crowdedEvents →
            DropOldest.excess stretch ≤ AudioOutput.maxBufferSize) := by
  obtain ⟨final, calls, hrun, -⟩ := crowdedEvents_run
  exact ⟨final, calls, hrun, none_dropped_iff hrun⟩

end PlayingClient

end VoiceServer

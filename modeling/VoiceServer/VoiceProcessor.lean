/-
The web client's `VoiceProcessor`: one ring for the samples that the microphone
gives, posted in packets, and one for those that come back from the network.
-/
import VoiceServer.PartialRun

namespace VoiceServer

/-- What the processor does with floating-point samples and with its clock:
`Math.floor(x * 32767)` stored in an `Int16Array`, `x / 32768`, one step of the
smoothing, and the test of `currentTime` against `lastPacketTime`.  A read past
the end of a ring stores `nan`. -/
structure ProcessorArithmetic (F Clock : Type) where
  quantise : F → Int16
  scale : Int16 → F
  smooth : F → F → F
  zero : F
  nan : F
  origin : Clock
  intervalPassed : Clock → Clock → Bool

structure VoiceProcessor (F Clock : Type) where
  channels : Nat
  inputBuffer : List Int16
  inputBufferIndex : Nat
  outputBuffer : List F
  outputBufferIndex : Nat
  lastPacketTime : Clock

/-- `port.onmessage`, or a call of the renderer with the channels of its first
input, the lengths of the channels of its first output, and `currentTime`. -/
inductive ProcessorEvent (F Clock : Type) where
  | remoteAudio (data : List Int16)
  | process (input : List (List F)) (output : List Nat) (currentTime : Clock)

/-- `port.postMessage`, or the output of a call: each channel as it was copied,
and as it was left. -/
inductive ProcessorCall (F : Type) where
  | postMessage (buffer : List Int16)
  | rendered (copied output : List (List F))

namespace VoiceProcessor

variable {F Clock : Type} (arithmetic : ProcessorArithmetic F Clock)

/-- The constructor. -/
def new (framesPerBuffer channels : Nat) : VoiceProcessor F Clock where
  channels := channels
  inputBuffer := List.replicate (framesPerBuffer * channels) 0
  inputBufferIndex := 0
  outputBuffer := List.replicate (framesPerBuffer * channels) arithmetic.zero
  outputBufferIndex := 0
  lastPacketTime := arithmetic.origin

/-- One round of the loop of `handleRemoteAudio`. -/
def writeSample (processor : VoiceProcessor F Clock) (sample : Int16) :
    VoiceProcessor F Clock :=
  let index := processor.outputBufferIndex + 1
  { processor with
    outputBuffer := processor.outputBuffer.set processor.outputBufferIndex
      (arithmetic.scale sample)
    outputBufferIndex :=
      if processor.outputBuffer.length ≤ index then 0 else index }

def handleRemoteAudio (processor : VoiceProcessor F Clock)
    (remoteAudio : List Int16) : VoiceProcessor F Clock :=
  remoteAudio.foldl (writeSample arithmetic) processor

/-- The buffer that `sendInputBuffer` posts. -/
def sendInputBuffer (processor : VoiceProcessor F Clock) : List Int16 :=
  processor.inputBuffer.take processor.inputBufferIndex

/-- `this.inputBuffer[this.inputBufferIndex++] = ...` for an input sample. -/
def storeSample (processor : VoiceProcessor F Clock) (sample : F) :
    VoiceProcessor F Clock :=
  { processor with
    inputBuffer := processor.inputBuffer.set processor.inputBufferIndex
      (arithmetic.quantise sample)
    inputBufferIndex := processor.inputBufferIndex + 1 }

/-- The loop over an input block, with the buffers it posts. -/
def handleInput (processor : VoiceProcessor F Clock) :
    List F → VoiceProcessor F Clock × List (List Int16)
  | [] => (processor, [])
  | sample :: rest =>
      let stored := processor.storeSample arithmetic sample
      if stored.inputBuffer.length ≤ stored.inputBufferIndex then
        let later := handleInput { stored with inputBufferIndex := 0 } rest
        (later.1, stored.sendInputBuffer :: later.2)
      else handleInput stored rest

/-- `output[channel][i] = this.outputBuffer[i]`. -/
def copyOutput (processor : VoiceProcessor F Clock) (length : Nat) : List F :=
  (List.range length).map fun i =>
    processor.outputBuffer[i]?.getD arithmetic.nan

/-- The smoothing loop, after a sample `previous`. -/
def smoothAfter (smooth : F → F → F) : F → List F → List F
  | _, [] => []
  | previous, current :: rest =>
      smooth previous current ::
        smoothAfter smooth (smooth previous current) rest

/-- Smoothing of the first channel; its first sample stays. -/
def smoothOutput (smooth : F → F → F) : List F → List F
  | [] => []
  | first :: rest => first :: smoothAfter smooth first rest

/-- What is left in the buffer is posted once the interval has passed. -/
def flush (processor : VoiceProcessor F Clock) (currentTime : Clock) :
    VoiceProcessor F Clock × List (List Int16) :=
  if arithmetic.intervalPassed currentTime processor.lastPacketTime then
    if 0 < processor.inputBufferIndex then
      ({ processor with inputBufferIndex := 0, lastPacketTime := currentTime },
        [processor.sendInputBuffer])
    else ({ processor with lastPacketTime := currentTime }, [])
  else (processor, [])

/-- A call throws if the output has fewer channels than the processor. -/
def process (processor : VoiceProcessor F Clock) (input : List (List F))
    (output : List Nat) (currentTime : Clock) :
    Option (VoiceProcessor F Clock × List (ProcessorCall F)) :=
  if output.length < max processor.channels 1 then none
  else
    let captured := handleInput arithmetic processor (input.headD [])
    let copied := (output.take processor.channels).map
      (captured.1.copyOutput arithmetic)
    let smoothed := match copied with
      | first :: others => smoothOutput arithmetic.smooth first :: others
      | [] => []
    let flushed := captured.1.flush arithmetic currentTime
    some (flushed.1, captured.2.map .postMessage ++ [.rendered copied smoothed] ++
      flushed.2.map .postMessage)

def step (processor : VoiceProcessor F Clock) :
    ProcessorEvent F Clock →
      Option (VoiceProcessor F Clock × List (ProcessorCall F))
  | .remoteAudio data => some (processor.handleRemoteAudio arithmetic data, [])
  | .process input output currentTime =>
      processor.process arithmetic input output currentTime

/-- The samples of all input blocks, as they are stored. -/
def captured : List (ProcessorEvent F Clock) → List Int16
  | [] => []
  | .remoteAudio _ :: rest => captured rest
  | .process input _ _ :: rest =>
      (input.headD []).map arithmetic.quantise ++ captured rest

def posted : List (ProcessorCall F) → List (List Int16)
  | [] => []
  | .postMessage buffer :: rest => buffer :: posted rest
  | .rendered _ _ :: rest => posted rest

/-- A buffer that is worth a message. -/
def Sendable (framesPerBuffer : Nat) (buffer : List Int16) : Prop :=
  buffer ≠ [] ∧ buffer.length ≤ framesPerBuffer

/-- The input ring between two calls. -/
structure InputReady (framesPerBuffer : Nat)
    (processor : VoiceProcessor F Clock) : Prop where
  length_eq : processor.inputBuffer.length = framesPerBuffer
  index_lt : processor.inputBufferIndex < framesPerBuffer

variable {arithmetic}

theorem captured_append (first second : List (ProcessorEvent F Clock)) :
    captured arithmetic (first ++ second) =
      captured arithmetic first ++ captured arithmetic second := by
  induction first with
  | nil => rfl
  | cons event rest ih =>
      cases event with
      | remoteAudio data => exact ih
      | process input output currentTime => simp [captured, ih]

theorem posted_append (first second : List (ProcessorCall F)) :
    posted (first ++ second) = posted first ++ posted second := by
  induction first with
  | nil => rfl
  | cons call rest ih =>
      cases call with
      | postMessage buffer => exact congrArg (buffer :: ·) ih
      | rendered copied output => exact ih

@[simp] theorem posted_map_postMessage (buffers : List (List Int16)) :
    posted (buffers.map fun buffer =>
      (.postMessage buffer : ProcessorCall F)) = buffers := by
  induction buffers with
  | nil => rfl
  | cons buffer rest ih => exact congrArg (buffer :: ·) ih

/-- One sample stored behind those before it. -/
theorem sendInputBuffer_storeSample {processor : VoiceProcessor F Clock}
    (hindex : processor.inputBufferIndex < processor.inputBuffer.length)
    (sample : F) :
    (processor.storeSample arithmetic sample).sendInputBuffer =
      processor.sendInputBuffer ++ [arithmetic.quantise sample] := by
  simp only [sendInputBuffer, storeSample]
  rw [List.take_add_one, List.take_set_of_le (Nat.le_refl _),
    List.getElem?_set_self hindex]
  rfl

@[simp] theorem length_storeSample (processor : VoiceProcessor F Clock)
    (sample : F) :
    (processor.storeSample arithmetic sample).inputBuffer.length =
      processor.inputBuffer.length :=
  List.length_set

@[simp] theorem index_storeSample (processor : VoiceProcessor F Clock)
    (sample : F) :
    (processor.storeSample arithmetic sample).inputBufferIndex =
      processor.inputBufferIndex + 1 :=
  rfl

/-- A message has as many samples as the index says. -/
theorem length_sendInputBuffer {processor : VoiceProcessor F Clock}
    (hindex : processor.inputBufferIndex ≤ processor.inputBuffer.length) :
    processor.sendInputBuffer.length = processor.inputBufferIndex :=
  List.length_take_of_le hindex

theorem sendable_sendInputBuffer {processor : VoiceProcessor F Clock}
    (hindex : processor.inputBufferIndex ≤ processor.inputBuffer.length)
    (hpos : 0 < processor.inputBufferIndex) :
    Sendable processor.inputBuffer.length processor.sendInputBuffer := by
  have hcount := length_sendInputBuffer hindex
  constructor
  · intro hempty
    rw [hempty, List.length_nil] at hcount
    omega
  · omega

/-- The loop over a block keeps the ring ready.  What it posts and what it
leaves is what was there and the block behind it. -/
theorem handleInput_spec {framesPerBuffer : Nat}
    {processor : VoiceProcessor F Clock}
    (hready : processor.InputReady framesPerBuffer) (block : List F) :
    (handleInput arithmetic processor block).1.InputReady framesPerBuffer ∧
      (handleInput arithmetic processor block).2.flatten ++
          (handleInput arithmetic processor block).1.sendInputBuffer =
        processor.sendInputBuffer ++ block.map arithmetic.quantise ∧
      ∀ buffer ∈ (handleInput arithmetic processor block).2,
        Sendable framesPerBuffer buffer := by
  induction block generalizing processor with
  | nil => exact ⟨hready, by simp [handleInput], by simp [handleInput]⟩
  | cons sample rest ih =>
      obtain ⟨hlength, hindex⟩ := hready
      have hinside : processor.inputBufferIndex <
          processor.inputBuffer.length := by omega
      have hstored := @sendInputBuffer_storeSample _ _ arithmetic processor
        hinside sample
      rw [handleInput, length_storeSample, index_storeSample]
      by_cases hfull : processor.inputBuffer.length ≤
          processor.inputBufferIndex + 1
      · have hreset : InputReady framesPerBuffer
            { processor.storeSample arithmetic sample with
              inputBufferIndex := 0 } :=
          ⟨(length_storeSample processor sample).trans hlength, by
            simp only
            omega⟩
        obtain ⟨hkept, hsamples, hbuffers⟩ := ih hreset
        rw [if_pos hfull]
        refine ⟨hkept, ?_, ?_⟩
        · rw [List.flatten_cons, List.append_assoc, hsamples, hstored]
          simp [sendInputBuffer]
        · have hsend := @sendable_sendInputBuffer _ _
            (processor.storeSample arithmetic sample)
            (by rw [length_storeSample, index_storeSample]; omega)
            (Nat.succ_pos _)
          rw [length_storeSample, hlength] at hsend
          exact List.forall_mem_cons.2 ⟨hsend, hbuffers⟩
      · have hnext : InputReady framesPerBuffer
            (processor.storeSample arithmetic sample) :=
          ⟨(length_storeSample processor sample).trans hlength, by
            rw [index_storeSample]
            omega⟩
        obtain ⟨hkept, hsamples, hbuffers⟩ := ih hnext
        rw [if_neg hfull]
        refine ⟨hkept, ?_, hbuffers⟩
        rw [hsamples, hstored]
        simp

/-- Flushing posts what the ring holds, if anything, and empties it. -/
theorem flush_spec {framesPerBuffer : Nat} {processor : VoiceProcessor F Clock}
    (hready : processor.InputReady framesPerBuffer) (currentTime : Clock) :
    (processor.flush arithmetic currentTime).1.InputReady framesPerBuffer ∧
      (processor.flush arithmetic currentTime).2.flatten ++
          (processor.flush arithmetic currentTime).1.sendInputBuffer =
        processor.sendInputBuffer ∧
      ∀ buffer ∈ (processor.flush arithmetic currentTime).2,
        Sendable framesPerBuffer buffer := by
  obtain ⟨hlength, hindex⟩ := hready
  rw [flush]
  by_cases hpassed :
      arithmetic.intervalPassed currentTime processor.lastPacketTime = true
  · rw [if_pos hpassed]
    by_cases hsome : 0 < processor.inputBufferIndex
    · rw [if_pos hsome]
      refine ⟨⟨hlength, by simp only; omega⟩, by simp [sendInputBuffer], ?_⟩
      have hsend := sendable_sendInputBuffer
        (hindex.le.trans_eq hlength.symm) hsome
      rw [hlength] at hsend
      exact List.forall_mem_singleton.2 hsend
    · rw [if_neg hsome]
      exact ⟨⟨hlength, hindex⟩, rfl, by simp⟩
  · rw [if_neg hpassed]
    exact ⟨⟨hlength, hindex⟩, rfl, by simp⟩

/-- Samples from the network do not touch the capturing half. -/
theorem handleRemoteAudio_input (processor : VoiceProcessor F Clock)
    (data : List Int16) :
    (processor.handleRemoteAudio arithmetic data).inputBuffer =
        processor.inputBuffer ∧
      (processor.handleRemoteAudio arithmetic data).inputBufferIndex =
        processor.inputBufferIndex := by
  induction data generalizing processor with
  | nil => exact ⟨rfl, rfl⟩
  | cons sample rest ih => exact ih (processor.writeSample arithmetic sample)

/-- One event, in terms of what is captured. -/
theorem step_capture {framesPerBuffer : Nat}
    {processor next : VoiceProcessor F Clock}
    (hready : processor.InputReady framesPerBuffer)
    {event : ProcessorEvent F Clock} {calls : List (ProcessorCall F)}
    (hstep : processor.step arithmetic event = some (next, calls)) :
    next.InputReady framesPerBuffer ∧
      (posted calls).flatten ++ next.sendInputBuffer =
        processor.sendInputBuffer ++ captured arithmetic [event] ∧
      ∀ buffer ∈ posted calls, Sendable framesPerBuffer buffer := by
  cases event with
  | remoteAudio data =>
      obtain ⟨rfl, rfl⟩ :
          processor.handleRemoteAudio arithmetic data = next ∧ [] = calls := by
        simpa [step] using hstep
      obtain ⟨hbuffer, hindex⟩ :=
        @handleRemoteAudio_input _ _ arithmetic processor data
      refine ⟨⟨?_, ?_⟩, ?_, ?_⟩
      · rw [hbuffer]
        exact hready.length_eq
      · rw [hindex]
        exact hready.index_lt
      · simp [posted, captured, sendInputBuffer, hbuffer, hindex]
      · simp [posted]
  | process input output currentTime =>
      simp only [step, process, Option.ite_none_left_eq_some,
        Option.some.injEq, Prod.mk.injEq] at hstep
      obtain ⟨-, rfl, rfl⟩ := hstep
      obtain ⟨hkept, hsamples, hbuffers⟩ :=
        @handleInput_spec _ _ arithmetic _ _ hready (input.headD [])
      obtain ⟨hready', hflushed, hlast⟩ :=
        @flush_spec _ _ arithmetic _ _ hkept currentTime
      have hposted : ∀ copied smoothed : List (List F), posted
          ((handleInput arithmetic processor (input.headD [])).2.map
              .postMessage ++ [.rendered copied smoothed] ++
            ((handleInput arithmetic processor (input.headD [])).1.flush
              arithmetic currentTime).2.map .postMessage) =
          (handleInput arithmetic processor (input.headD [])).2 ++
            ((handleInput arithmetic processor (input.headD [])).1.flush
              arithmetic currentTime).2 := by
        intro copied smoothed
        rw [posted_append, posted_append, posted_map_postMessage,
          posted_map_postMessage]
        simp [posted]
      rw [hposted]
      refine ⟨hready', ?_, ?_⟩
      · rw [List.flatten_append, List.append_assoc, hflushed, hsamples]
        simp [captured]
      · exact List.forall_mem_append.2 ⟨hbuffers, hlast⟩

variable (arithmetic)

/-- Every sample captured is posted once, in order, or waits in the ring; every
message carries samples, and never more than a ring holds. -/
theorem posted_captured {framesPerBuffer : Nat} (hpos : 1 ≤ framesPerBuffer)
    {events : List (ProcessorEvent F Clock)} {final : VoiceProcessor F Clock}
    {calls : List (ProcessorCall F)}
    (hrun : run (step arithmetic) (new arithmetic framesPerBuffer 1) events =
      some (final, calls)) :
    (posted calls).flatten ++ final.inputBuffer.take final.inputBufferIndex =
        captured arithmetic events ∧
      (∀ buffer ∈ posted calls,
        buffer ≠ [] ∧ buffer.length ≤ framesPerBuffer) ∧
      final.inputBufferIndex < framesPerBuffer := by
  have hall : final.InputReady framesPerBuffer ∧
      (posted calls).flatten ++ final.sendInputBuffer =
        captured arithmetic events ∧
      ∀ buffer ∈ posted calls, Sendable framesPerBuffer buffer := by
    apply run_induction (step arithmetic)
      (motive := fun past processor calls =>
        processor.InputReady framesPerBuffer ∧
        (posted calls).flatten ++ processor.sendInputBuffer =
          captured arithmetic past ∧
        ∀ buffer ∈ posted calls, Sendable framesPerBuffer buffer)
      ?_ ?_ hrun
    · exact ⟨⟨by simp [new], hpos⟩, rfl, by simp [posted]⟩
    · rintro past processor calls event next new _ ⟨hready, hsamples, hsent⟩ hstep
      obtain ⟨hnext, hfresh, hbuffers⟩ := step_capture hready hstep
      refine ⟨hnext, ?_, ?_⟩
      · rw [posted_append, List.flatten_append, List.append_assoc, hfresh,
          ← List.append_assoc, hsamples, captured_append]
      · rw [posted_append]
        exact List.forall_mem_append.2 ⟨hsent, hbuffers⟩
  obtain ⟨hready, hsamples, hsent⟩ := hall
  exact ⟨hsamples, hsent, hready.index_lt⟩

/-- Whole numbers for samples, milliseconds for the clock. -/
def wholeArithmetic : ProcessorArithmetic Int Int where
  quantise sample := Int16.ofInt sample
  scale sample := sample.toInt
  smooth previous current := previous + (current - previous) / 10
  zero := 0
  nan := 0
  origin := 0
  intervalPassed currentTime lastPacketTime :=
    20 ≤ currentTime - lastPacketTime

/-- A block longer than the ring, an empty one, and one that is flushed. -/
theorem posted_captured_three :
    let events : List (ProcessorEvent Int Int) :=
      [.process [[1, 2, 3, 4, 5]] [1] 3, .process [] [1] 6,
        .process [[6]] [1] 20]
    ∃ final calls, run (step wholeArithmetic) (new wholeArithmetic 2 1) events =
        some (final, calls) ∧
      ((posted calls).flatten ++
          final.inputBuffer.take final.inputBufferIndex =
        captured wholeArithmetic events ∧
      (∀ buffer ∈ posted calls, buffer ≠ [] ∧ buffer.length ≤ 2) ∧
      final.inputBufferIndex < 2) := by
  intro events
  have hsome : ∃ final calls, run (step wholeArithmetic)
      (new wholeArithmetic 2 1) events = some (final, calls) := ⟨_, _, rfl⟩
  obtain ⟨final, calls, hrun⟩ := hsome
  exact ⟨final, calls, hrun, posted_captured wholeArithmetic (by decide) hrun⟩

end VoiceProcessor

end VoiceServer

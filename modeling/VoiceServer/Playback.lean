/-
The half of the client's `AudioManager` that plays: packets wait in a queue,
and every callback of the sound card takes the one in front off it.
-/
import VoiceServer.MixerAverage
import VoiceServer.PartialRun

namespace VoiceServer

/-- `outputBuffer` of a callback: memory for `framesPerBuffer` samples, with
what the sound card left in it. -/
structure OutputBlock where
  framesPerBuffer : Nat
  memory : List UInt8
  length_eq : memory.length = 2 * framesPerBuffer

/-- `output_buffer_`, under `output_mutex_`. -/
structure AudioOutput where
  outputBuffer : List AudioPacket
deriving DecidableEq, Repr

/-- What one callback did: the values of `current`, the number of bytes that
`memset` cleared, and the memory it leaves. -/
structure PlayedBlock where
  current : List Int
  cleared : Nat
  memory : List UInt8
deriving DecidableEq, Repr

/-- The smoothing loop, from the value of `prev`; `next` computes one `out[i]`
from `prev` and `current`. -/
def smoothing (next : Int → Int → Int) : Int → List Int → List Int
  | _, [] => []
  | prev, current :: rest =>
      next prev current :: smoothing next (next prev current) rest

namespace AudioOutput

/-- `MAX_BUFFER_SIZE`. -/
def maxBufferSize : Nat := 10

def new : AudioOutput := ⟨[]⟩

def addOutputData (manager : AudioOutput) (packet : AudioPacket) :
    AudioOutput :=
  let pushed := manager.outputBuffer ++ [packet]
  ⟨pushed.drop (pushed.length - maxBufferSize)⟩

def outputCallback (next : Int → Int → Int) (manager : AudioOutput)
    (block : OutputBlock) : AudioOutput × PlayedBlock :=
  match manager.outputBuffer with
  | packet :: rest =>
      let bytesToCopy := min packet.data.length (block.framesPerBuffer * 2)
      let current := (AudioMixer.samples packet.data).take (bytesToCopy / 2)
      let out := (smoothing next 0 current).flatMap AudioMixer.sampleBytes
      let cleared := block.framesPerBuffer * 2 - bytesToCopy
      -- The last byte of a packet of odd size is neither written nor cleared.
      let left := (block.memory.drop out.length).take (bytesToCopy - out.length)
      (⟨rest⟩, ⟨current, cleared, out ++ left ++ List.replicate cleared 0⟩)
  | [] =>
      let cleared := block.framesPerBuffer * 2
      (manager, ⟨[], cleared, List.replicate cleared 0⟩)

end AudioOutput

inductive PlaybackEvent where
  | addOutputData (packet : AudioPacket)
  | outputCallback (block : OutputBlock)

namespace AudioOutput

def step (next : Int → Int → Int) (manager : AudioOutput) :
    PlaybackEvent → Option (AudioOutput × List PlayedBlock)
  | .addOutputData packet => some (manager.addOutputData packet, [])
  | .outputCallback block =>
      some ((manager.outputCallback next block).1,
        [(manager.outputCallback next block).2])

/-- The samples of all packets added. -/
def added : List PlaybackEvent → List Int
  | [] => []
  | .addOutputData packet :: rest =>
      AudioMixer.samples packet.data ++ added rest
  | .outputCallback _ :: rest => added rest

/-- The samples that went into the smoothing step, over all callbacks. -/
def played (blocks : List PlayedBlock) : List Int :=
  blocks.flatMap PlayedBlock.current

def waiting (manager : AudioOutput) : List Int :=
  manager.outputBuffer.flatMap fun packet => AudioMixer.samples packet.data

/-- Nothing is lost or played twice, and a step that clears memory has played
all that was added before it. -/
def PlaysAll (past : List PlaybackEvent) (_ : AudioOutput)
    (blocks : List PlayedBlock) (event : PlaybackEvent) (next : AudioOutput)
    (new : List PlayedBlock) : Prop :=
  played (blocks ++ new) ++ next.waiting = added (past ++ [event]) ∧
    ∀ block ∈ new, 0 < block.cleared →
      played (blocks ++ new) = added (past ++ [event])

/-- The queue has room for a packet that is added. -/
def HasRoom (manager : AudioOutput) : PlaybackEvent → Prop
  | .addOutputData _ => manager.outputBuffer.length < maxBufferSize
  | .outputCallback _ => True

/-- A callback has room for all samples of the packet in front, and is longer
than the packet only if no sample waits behind it. -/
def TakesPacket (manager : AudioOutput) : PlaybackEvent → Prop
  | .addOutputData _ => True
  | .outputCallback block =>
      ∀ packet rest, manager.outputBuffer = packet :: rest →
        packet.data.length / 2 ≤ block.framesPerBuffer ∧
          (packet.data.length < block.framesPerBuffer * 2 →
            waiting ⟨rest⟩ = [])

@[simp] theorem added_append (first second : List PlaybackEvent) :
    added (first ++ second) = added first ++ added second := by
  induction first with
  | nil => rfl
  | cons event rest ih =>
      cases event with
      | addOutputData packet => simp [added, ih]
      | outputCallback block => exact ih

@[simp] theorem played_append (first second : List PlayedBlock) :
    played (first ++ second) = played first ++ played second :=
  List.flatMap_append

theorem waiting_cons (packet : AudioPacket) (rest : List AudioPacket) :
    waiting ⟨packet :: rest⟩ =
      AudioMixer.samples packet.data ++ waiting ⟨rest⟩ :=
  List.flatMap_cons

/-- Adding to a queue that has room. -/
theorem waiting_addOutputData {manager : AudioOutput} {packet : AudioPacket}
    (hroom : manager.outputBuffer.length < maxBufferSize) :
    (manager.addOutputData packet).waiting =
      manager.waiting ++ AudioMixer.samples packet.data := by
  have hnone : manager.outputBuffer.length + 1 - maxBufferSize = 0 := by omega
  simp [addOutputData, waiting, hnone]

/-- Whether a callback keeps the order of play, by what is in front. -/
theorem takesPacket_iff {next : Int → Int → Int} {manager : AudioOutput}
    {block : OutputBlock} {before : List Int} :
    (before ++ (manager.outputCallback next block).2.current ++
          (manager.outputCallback next block).1.waiting =
        before ++ manager.waiting ∧
      (0 < (manager.outputCallback next block).2.cleared →
        before ++ (manager.outputCallback next block).2.current =
          before ++ manager.waiting)) ↔
      manager.TakesPacket (.outputCallback block) := by
  obtain ⟨queue⟩ := manager
  cases queue with
  | nil => simp [outputCallback, TakesPacket, waiting]
  | cons packet rest =>
      have hlength := AudioMixer.length_samples packet.data
      have htake : (AudioMixer.samples packet.data).take
          (min packet.data.length (block.framesPerBuffer * 2) / 2) =
            AudioMixer.samples packet.data ↔
          packet.data.length / 2 ≤ block.framesPerBuffer := by
        rw [List.take_eq_self_iff, hlength]
        omega
      have hcleared : 0 < block.framesPerBuffer * 2 -
          min packet.data.length (block.framesPerBuffer * 2) ↔
          packet.data.length < block.framesPerBuffer * 2 := by
        omega
      have hshape : TakesPacket ⟨packet :: rest⟩ (.outputCallback block) ↔
          packet.data.length / 2 ≤ block.framesPerBuffer ∧
            (packet.data.length < block.framesPerBuffer * 2 →
              waiting ⟨rest⟩ = []) := by
        simp [TakesPacket]
      simp only [outputCallback, List.append_assoc,
        List.append_cancel_left_eq, waiting_cons, List.append_cancel_right_eq,
        htake, hcleared, hshape]
      apply and_congr_right
      intro hfits
      apply imp_congr_right
      intro _
      rw [htake.2 hfits, List.self_eq_append_right]

theorem playsAll_iff {next : Int → Int → Int} {past : List PlaybackEvent}
    {manager after : AudioOutput} {blocks new : List PlayedBlock}
    (hpast : played blocks ++ manager.waiting = added past)
    {event : PlaybackEvent} (hroom : manager.HasRoom event)
    (hstep : manager.step next event = some (after, new)) :
    PlaysAll past manager blocks event after new ↔
      manager.TakesPacket event := by
  cases event with
  | addOutputData packet =>
      obtain ⟨rfl, rfl⟩ : manager.addOutputData packet = after ∧ [] = new := by
        simpa [step] using hstep
      simp [PlaysAll, TakesPacket, waiting_addOutputData hroom, ← hpast, added]
  | outputCallback block =>
      obtain ⟨rfl, rfl⟩ : (manager.outputCallback next block).1 = after ∧
          [(manager.outputCallback next block).2] = new := by
        simpa [step] using hstep
      rw [← @takesPacket_iff next manager block (played blocks), hpast]
      simp [PlaysAll, added, played]

/-- A session in which the queue always has room plays everything, in order and
without a gap, exactly when every callback has room for all samples of the
packet in front, and is longer only if nothing waits behind it. -/
theorem playsAll_iff_takesPacket {next : Int → Int → Int}
    {events : List PlaybackEvent} {final : AudioOutput}
    {blocks : List PlayedBlock}
    (hrun : run (step next) new events = some (final, blocks))
    (hroom : StepsMeet (step next) HasRoom new events) :
    EachStep (step next) PlaysAll new events ↔
      StepsMeet (step next) TakesPacket new events := by
  apply eachStep_iff
    (fun past manager blocks => played blocks ++ manager.waiting = added past)
    PlaysAll (fun _ manager event => manager.TakesPacket event) rfl ?_ ?_ hrun
  · intro past manager blocks event after fresh hplays
    exact hplays.1
  · intro past manager blocks event after fresh hbefore hpast hinv hstep
    exact playsAll_iff hinv (hroom past event hbefore manager blocks hpast) hstep

/-- The recurrence that the callback writes in `float`, with its quotient taken
exactly and truncated by the cast. -/
def smoothingStep (prev current : Int) : Int :=
  (10 * prev + (current - prev)).tdiv 10

/-- Ten steps cannot fill the queue beyond its limit. -/
theorem stepsMeet_hasRoom {next : Int → Int → Int}
    {events : List PlaybackEvent} (hfew : events.length ≤ maxBufferSize) :
    StepsMeet (step next) HasRoom new events := by
  have hlength : ∀ past manager blocks,
      run (step next) new past = some (manager, blocks) →
      manager.outputBuffer.length ≤ past.length := by
    intro past manager blocks hpast
    apply run_induction (step next)
      (motive := fun past manager _ =>
        manager.outputBuffer.length ≤ past.length) le_rfl ?_ hpast
    intro past manager blocks event after fresh _ hle hstep
    cases event with
    | addOutputData packet =>
        obtain ⟨rfl, -⟩ : manager.addOutputData packet = after ∧ [] = fresh := by
          simpa [step] using hstep
        simp [addOutputData]
        omega
    | outputCallback block =>
        obtain ⟨rfl, -⟩ : (manager.outputCallback next block).1 = after ∧
            [(manager.outputCallback next block).2] = fresh := by
          simpa [step] using hstep
        obtain ⟨queue⟩ := manager
        cases queue with
        | nil => simp [outputCallback]
        | cons packet rest =>
            simp [outputCallback] at hle ⊢
            omega
  intro past event hpast manager blocks hmanager
  have hcount := hpast.length_le
  rw [List.length_append, List.length_singleton] at hcount
  cases event with
  | addOutputData packet =>
      exact (hlength past manager blocks hmanager).trans_lt (by omega)
  | outputCallback block => exact True.intro

/-- Two packets of two samples, the second with an odd byte, played in blocks
of two. -/
theorem playsAll_iff_takesPacket_two :
    let events : List PlaybackEvent :=
      [.addOutputData ⟨[1, 0, 2, 0]⟩, .addOutputData ⟨[3, 0, 4, 0, 9]⟩,
        .outputCallback ⟨2, [7, 7, 7, 7], rfl⟩,
        .outputCallback ⟨2, [7, 7, 7, 7], rfl⟩]
    EachStep (step smoothingStep) PlaysAll new events ↔
      StepsMeet (step smoothingStep) TakesPacket new events :=
  playsAll_iff_takesPacket rfl (stepsMeet_hasRoom (by decide))

/-- The block that the client asks the sound card for. -/
def cardBlock : OutputBlock :=
  ⟨4096, List.replicate 8192 0, List.length_replicate ..⟩

/-- Silence follows a short packet although another one waits. -/
theorem playback_gap :
    ¬ ∀ (next : Int → Int → Int) (events : List PlaybackEvent)
      (final : AudioOutput) (blocks : List PlayedBlock),
      run (step next) new events = some (final, blocks) →
      StepsMeet (step next) HasRoom new events →
      EachStep (step next) PlaysAll new events := by
  intro hclaim
  have hplays := hclaim smoothingStep
    [.addOutputData ⟨[1, 0]⟩, .addOutputData ⟨[2, 0]⟩,
      .outputCallback cardBlock] _ _ rfl (stepsMeet_hasRoom (by decide))
    [.addOutputData ⟨[1, 0]⟩, .addOutputData ⟨[2, 0]⟩]
    (.outputCallback cardBlock) List.prefix_rfl _ _ _ _ rfl rfl
  have hsilent := hplays.2 _ (List.mem_singleton_self _) (by decide)
  exact absurd hsilent (by decide)

end AudioOutput

end VoiceServer

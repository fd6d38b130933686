/-
The voice client: what the sound card captures is sent in datagrams, and what
the socket receives waits in the jitter buffer until it is played.
-/
import VoiceServer.VoiceChatServer

namespace VoiceServer

/-- `FRAMES_PER_BUFFER`. -/
def framesPerBuffer : Nat := 4096

/-- The input of one `inputCallback`. -/
structure InputBlock where
  samples : List Int16
  length_eq : samples.length = framesPerBuffer

/-- The samples as they lie in memory. -/
def InputBlock.bytes (block : InputBlock) : List UInt8 :=
  block.samples.flatMap fun sample => AudioMixer.sampleBytes sample.toInt

/-- The half of `AudioManager` that captures. -/
structure AudioManager where
  inputBuffer : List UInt8
deriving DecidableEq, Repr

namespace AudioManager

def inputCallback (manager : AudioManager) (block : InputBlock) :
    AudioManager :=
  { manager with inputBuffer := manager.inputBuffer ++ block.bytes }

def getInputData (manager : AudioManager) : AudioPacket × AudioManager :=
  (⟨manager.inputBuffer⟩, { manager with inputBuffer := [] })

end AudioManager

/-- The endpoint is where the socket sends to, and where asio puts the source
of each datagram received. -/
structure NetworkManager where
  serverEndpoint : Endpoint
  jitterBuffer : List AudioPacket
deriving DecidableEq, Repr

/-- A datagram sent, or a call of `receive_callback_`. -/
inductive ClientCall where
  | sendTo (datagram : Datagram)
  | receiveCallback (packet : AudioPacket)
deriving DecidableEq, Repr

namespace NetworkManager

/-- `recv_buffer_`. -/
def recvBufferSize : Nat := 16384

/-- The constructor, with the endpoint that `resolve` found. -/
def new (resolved : Endpoint) : NetworkManager := ⟨resolved, []⟩

/-- The handler of `start_receive`. -/
def receive (manager : NetworkManager) (source : Endpoint)
    (bytes : List UInt8) : NetworkManager :=
  let stored := bytes.take recvBufferSize
  { manager with
    serverEndpoint := source
    jitterBuffer :=
      if 0 < stored.length then manager.jitterBuffer ++ [⟨stored⟩]
      else manager.jitterBuffer }

/-- As on the server, `async_send_to` gets the memory of a packet that is local to
the handler of `start_send`; that its bytes outlive the call is assumed. -/
def send (manager : NetworkManager) (packet : AudioPacket) : ClientCall :=
  .sendTo ⟨manager.serverEndpoint, packet⟩

/-- The handler of `start_jitter_buffer`. -/
def playNext (manager : NetworkManager) : NetworkManager × List ClientCall :=
  match manager.jitterBuffer with
  | [] => (manager, [])
  | packet :: rest =>
      ({ manager with jitterBuffer := rest }, [.receiveCallback packet])

end NetworkManager

structure VoiceChatClient where
  audio : AudioManager
  network : NetworkManager
deriving DecidableEq, Repr

/-- The callback of the sound card, the completions of the socket, and the
expiries of the two timers. -/
inductive ClientEvent where
  | captured (block : InputBlock)
  | sendTick
  | received (source : Endpoint) (bytes : List UInt8)
  | receiveFailed
  | jitterTick

namespace VoiceChatClient

def new (resolved : Endpoint) : VoiceChatClient :=
  ⟨⟨[]⟩, NetworkManager.new resolved⟩

/-- The handler of `start_send`. -/
def sendTick (client : VoiceChatClient) : VoiceChatClient × List ClientCall :=
  let (packet, audio) := client.audio.getInputData
  ({ client with audio := audio },
    if packet.data.isEmpty then [] else [client.network.send packet])

def step (client : VoiceChatClient) :
    ClientEvent → Option (VoiceChatClient × List ClientCall)
  | .captured block =>
      some ({ client with audio := client.audio.inputCallback block }, [])
  | .sendTick => some client.sendTick
  | .received source bytes =>
      some ({ client with network := client.network.receive source bytes }, [])
  | .receiveFailed => some (client, [])
  | .jitterTick =>
      some ({ client with network := client.network.playNext.1 },
        client.network.playNext.2)

end VoiceChatClient

/-- The blocks captured since the last send tick; histories are newest first. -/
def unsent : List ClientEvent → List InputBlock
  | [] => []
  | .captured block :: older => unsent older ++ [block]
  | .sendTick :: _ => []
  | .received _ _ :: older => unsent older
  | .receiveFailed :: older => unsent older
  | .jitterTick :: older => unsent older

/-- Where the last datagram received came from. -/
def lastSource : List ClientEvent → Option Endpoint
  | [] => none
  | .received source _ :: _ => some source
  | .captured _ :: older => lastSource older
  | .sendTick :: older => lastSource older
  | .receiveFailed :: older => lastSource older
  | .jitterTick :: older => lastSource older

@[simp] theorem InputBlock.length_bytes (block : InputBlock) :
    block.bytes.length = 2 * framesPerBuffer := by
  have hbytes : block.bytes =
      (block.samples.map Int16.toInt).flatMap AudioMixer.sampleBytes :=
    (List.flatMap_map ..).symm
  rw [hbytes, AudioMixer.length_flatMap_sampleBytes, List.length_map,
    block.length_eq, Nat.mul_comm]

namespace VoiceChatClient

/-- The capture buffer and the endpoint of a client, from its history. -/
structure Follows (resolved : Endpoint) (client : VoiceChatClient)
    (history : List ClientEvent) : Prop where
  inputBuffer : client.audio.inputBuffer =
    (unsent history).flatMap InputBlock.bytes
  serverEndpoint :
    client.network.serverEndpoint = (lastSource history).getD resolved

theorem follows_new (resolved : Endpoint) :
    Follows resolved (new resolved) [] where
  inputBuffer := rfl
  serverEndpoint := rfl

theorem Follows.step {resolved : Endpoint} {client next : VoiceChatClient}
    {history : List ClientEvent} (hfollows : Follows resolved client history)
    {event : ClientEvent} {calls : List ClientCall}
    (hstep : client.step event = some (next, calls)) :
    Follows resolved next (event :: history) := by
  obtain ⟨hbuffer, hendpoint⟩ := hfollows
  cases event with
  | captured block =>
      obtain ⟨rfl, -⟩ : _ = next ∧ [] = calls := by
        simpa [VoiceChatClient.step] using hstep
      refine ⟨?_, hendpoint⟩
      simp [AudioManager.inputCallback, hbuffer, unsent]
  | sendTick =>
      obtain rfl : client.sendTick.1 = next := by
        simpa [VoiceChatClient.step] using congrArg (Option.map Prod.fst) hstep
      exact ⟨rfl, hendpoint⟩
  | received source bytes =>
      obtain ⟨rfl, -⟩ : _ = next ∧ [] = calls := by
        simpa [VoiceChatClient.step] using hstep
      exact ⟨hbuffer, rfl⟩
  | receiveFailed =>
      obtain ⟨rfl, -⟩ : client = next ∧ [] = calls := by
        simpa [VoiceChatClient.step] using hstep
      exact ⟨hbuffer, hendpoint⟩
  | jitterTick =>
      obtain ⟨rfl, -⟩ : _ = next ∧ _ = calls := by
        simpa [VoiceChatClient.step] using hstep
      refine ⟨hbuffer, ?_⟩
      simp only [NetworkManager.playNext]
      cases client.network.jitterBuffer <;> exact hendpoint

/-- Every run follows its own events, newest first. -/
theorem follows_of_run {resolved : Endpoint} {events : List ClientEvent}
    {final : VoiceChatClient} {calls : List ClientCall}
    (hrun : run step (new resolved) events = some (final, calls)) :
    Follows resolved final events.reverse := by
  refine run_induction step
    (motive := fun past state _ => Follows resolved state past.reverse)
    (follows_new resolved) ?_ hrun
  intro past state outs event next new _ hpast hstep
  rw [List.reverse_concat]
  exact hpast.step hstep

theorem length_flatMap_bytes (blocks : List InputBlock) :
    (blocks.flatMap InputBlock.bytes).length =
      2 * framesPerBuffer * blocks.length := by
  induction blocks with
  | nil => rfl
  | cons block rest ih =>
      rw [List.flatMap_cons, List.length_append, ih, block.length_bytes,
        List.length_cons, Nat.mul_succ, Nat.add_comm]

theorem flatMap_bytes_eq_nil_iff (blocks : List InputBlock) :
    blocks.flatMap InputBlock.bytes = [] ↔ blocks = [] := by
  rw [← List.length_eq_zero_iff, length_flatMap_bytes,
    ← List.length_eq_zero_iff, Nat.mul_eq_zero]
  simp [framesPerBuffer]

/-- What a step sends: at a tick all that was captured, to the endpoint of the
last datagram received. -/
theorem sendTo_mem_step_iff {resolved : Endpoint}
    {client next : VoiceChatClient} {history : List ClientEvent}
    (hfollows : Follows resolved client history) {event : ClientEvent}
    {calls : List ClientCall} (hstep : client.step event = some (next, calls))
    (datagram : Datagram) :
    .sendTo datagram ∈ calls ↔
      event = .sendTick ∧ unsent history ≠ [] ∧
        datagram = ⟨(lastSource history).getD resolved,
          ⟨(unsent history).flatMap InputBlock.bytes⟩⟩ := by
  obtain ⟨hbuffer, hendpoint⟩ := hfollows
  cases event with
  | sendTick =>
      obtain rfl : client.sendTick.2 = calls := by
        simpa [VoiceChatClient.step] using congrArg (Option.map Prod.snd) hstep
      simp only [sendTick, AudioManager.getInputData, NetworkManager.send,
        hbuffer, hendpoint, List.isEmpty_iff, flatMap_bytes_eq_nil_iff]
      by_cases hunsent : unsent history = []
      · simp [hunsent]
      · simp [hunsent]
  | jitterTick =>
      obtain ⟨-, rfl⟩ : _ = next ∧ client.network.playNext.2 = calls := by
        simpa [VoiceChatClient.step] using hstep
      simp only [NetworkManager.playNext]
      cases client.network.jitterBuffer <;> simp
  | captured block =>
      obtain ⟨-, rfl⟩ : _ = next ∧ [] = calls := by
        simpa [VoiceChatClient.step] using hstep
      simp
  | received source bytes =>
      obtain ⟨-, rfl⟩ : _ = next ∧ [] = calls := by
        simpa [VoiceChatClient.step] using hstep
      simp
  | receiveFailed =>
      obtain ⟨-, rfl⟩ : _ = next ∧ [] = calls := by
        simpa [VoiceChatClient.step] using hstep
      simp

/-- The client sends only to the endpoint the constructor resolved exactly when
no send tick with audio to send comes while the last datagram received is that
of another endpoint. -/
theorem sends_to_resolved_iff {resolved : Endpoint} {events : List ClientEvent}
    {final : VoiceChatClient} {calls : List ClientCall}
    (hrun : run step (new resolved) events = some (final, calls)) :
    (∀ datagram, .sendTo datagram ∈ calls → datagram.endpoint = resolved) ↔
      ∀ past, past ++ [.sendTick] <+: events → unsent past.reverse ≠ [] →
        ∀ source ∈ lastSource past.reverse, source = resolved := by
  have hcalls := forall_output_iff step
    (P := fun call => ∀ datagram, call = .sendTo datagram →
      datagram.endpoint = resolved)
    (G := fun past event => event = .sendTick → unsent past.reverse ≠ [] →
      ∀ source ∈ lastSource past.reverse, source = resolved) ?_ hrun
  · constructor
    · intro hall past hpast
      exact hcalls.1 (fun call hcall datagram hsend =>
        hall datagram (hsend ▸ hcall)) past .sendTick hpast rfl
    · intro hall datagram hcall
      refine hcalls.2 ?_ _ hcall datagram rfl
      rintro past _ hpast rfl
      exact hall past hpast
  · intro past client outs event next new hpast hstep
    have hsent := sendTo_mem_step_iff (follows_of_run hpast) hstep
    constructor
    · rintro hall htick hunsent source hsource
      have hendpoint := hall _ ((hsent _).2 ⟨htick, hunsent, rfl⟩) _ rfl
      rwa [Option.mem_def.1 hsource] at hendpoint
    · rintro hsource _ hcall datagram rfl
      obtain ⟨htick, hunsent, rfl⟩ := (hsent datagram).1 hcall
      cases hlast : lastSource past.reverse with
      | none => rfl
      | some source => exact hsource htick hunsent source hlast

/-- A captured block of silence. -/
def silentBlock : InputBlock :=
  ⟨List.replicate framesPerBuffer 0, List.length_replicate ..⟩

def serverAddress : Endpoint := ⟨10, 0, 0, 1, 12345⟩

def strangerAddress : Endpoint := ⟨192, 168, 0, 9, 4000⟩

theorem sends_to_resolved_iff_stranger :
    let events : List ClientEvent :=
      [.captured silentBlock, .sendTick, .received strangerAddress [0, 0]]
    ∃ final calls,
      run step (new serverAddress) events = some (final, calls) ∧
      ((∀ datagram, .sendTo datagram ∈ calls →
        datagram.endpoint = serverAddress) ↔
      ∀ past, past ++ [.sendTick] <+: events → unsent past.reverse ≠ [] →
        ∀ source ∈ lastSource past.reverse, source = serverAddress) := by
  intro events
  have hsome : ∃ final calls, run step (new serverAddress) events =
      some (final, calls) := ⟨_, _, rfl⟩
  obtain ⟨final, calls, hrun⟩ := hsome
  exact ⟨final, calls, hrun, sends_to_resolved_iff hrun⟩

/-- One foreign datagram between two ticks. -/
theorem sends_to_stranger :
    ¬ ∀ resolved events final calls,
      run step (new resolved) events = some (final, calls) →
      ∀ datagram, .sendTo datagram ∈ calls → datagram.endpoint = resolved := by
  intro hclaim
  have hunsent : unsent [.captured silentBlock,
      .received strangerAddress [0, 0]] ≠ [] := by
    simp [unsent]
  have hrun : ∃ final calls, run step (new serverAddress)
      [.received strangerAddress [0, 0], .captured silentBlock, .sendTick] =
        some (final, calls) := ⟨_, _, rfl⟩
  obtain ⟨final, calls, hrun⟩ := hrun
  obtain ⟨client, first, later, hpast, hstep, rfl⟩ :=
    (@run_concat_eq_some _ _ _ step _ _ [.received strangerAddress [0, 0],
      .captured silentBlock] .sendTick _).1 hrun
  have hsent := (sendTo_mem_step_iff (follows_of_run hpast) hstep _).2
    ⟨rfl, hunsent, rfl⟩
  have hsame := hclaim serverAddress _ final _ hrun _
    (List.mem_append_right _ hsent)
  exact absurd hsame (by decide)

end VoiceChatClient

end VoiceServer

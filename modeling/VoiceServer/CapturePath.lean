/-
From the sound card of a client to the server: a send tick puts all that was
captured since the last one into one datagram, and the server keeps what fits
its receive buffer.
-/
import VoiceServer.VoiceChatClient

namespace VoiceServer

namespace VoiceChatServer

/-- The packet that `handle_receive` builds from a datagram. -/
def receivedPacket (bytes : List UInt8) : Option AudioPacket :=
  let stored := bytes.take recvBufferSize
  if 0 < stored.length then some ⟨stored⟩ else none

/-- The server handles the packet built, and nothing else. -/
theorem step_received (generateWebsocketAccept : List UInt8 → List UInt8)
    (server : VoiceChatServer) (now : Int) (endpoint : Endpoint)
    (bytes : List UInt8) :
    server.step generateWebsocketAccept (.received now endpoint bytes) =
      some ((receivedPacket bytes).elim server fun packet =>
        server.handleReceive now endpoint packet.data, []) := by
  simp only [step, receivedPacket]
  split <;> rfl

end VoiceChatServer

/-- A client, the datagrams on their way, oldest first, and the server. -/
structure CapturePath where
  client : VoiceChatClient
  address : Endpoint
  inFlight : List Datagram
  server : VoiceChatServer

/-- `arrived` is the arrival of the oldest datagram: none is lost or
overtaken. -/
inductive CaptureEvent where
  | captured (block : InputBlock)
  | sendTick
  | arrived (now : Int)

def ClientCall.datagram : ClientCall → Option Datagram
  | .sendTo datagram => some datagram
  | .receiveCallback _ => none

namespace CapturePath

def new (resolved address : Endpoint) (server : VoiceChatServer) :
    CapturePath :=
  ⟨VoiceChatClient.new resolved, address, [], server⟩

/-- What a step of the client does to the path. -/
def clientStep (path : CapturePath) (event : ClientEvent) :
    Option (CapturePath × List AudioPacket) :=
  (path.client.step event).map fun done =>
    ({ path with
      client := done.1
      inFlight := path.inFlight ++ done.2.filterMap ClientCall.datagram }, [])

/-- The outputs are the packets built by the server. -/
def step (generateWebsocketAccept : List UInt8 → List UInt8)
    (path : CapturePath) :
    CaptureEvent → Option (CapturePath × List AudioPacket)
  | .captured block => path.clientStep (.captured block)
  | .sendTick => path.clientStep .sendTick
  | .arrived now =>
      match path.inFlight with
      | [] => none
      | datagram :: rest =>
          let bytes := datagram.packet.data
          (path.server.step generateWebsocketAccept
            (.received now path.address bytes)).map fun done =>
              ({ path with inFlight := rest, server := done.1 },
                (VoiceChatServer.receivedPacket bytes).toList)

/-- All blocks captured; histories are newest first. -/
def capturedBlocks : List CaptureEvent → List InputBlock
  | [] => []
  | .captured block :: older => capturedBlocks older ++ [block]
  | .sendTick :: older => capturedBlocks older
  | .arrived _ :: older => capturedBlocks older

/-- The blocks captured up to the last send tick. -/
def capturedAtTick : List CaptureEvent → List InputBlock
  | [] => []
  | .sendTick :: older => capturedBlocks older
  | .captured _ :: older => capturedAtTick older
  | .arrived _ :: older => capturedAtTick older

/-- The blocks captured since the last send tick. -/
def capturedSince : List CaptureEvent → List InputBlock
  | [] => []
  | .sendTick :: _ => []
  | .captured block :: older => capturedSince older ++ [block]
  | .arrived _ :: older => capturedSince older

/-- The blocks of each datagram sent. -/
def sentGroups : List CaptureEvent → List (List InputBlock)
  | [] => []
  | .sendTick :: older =>
      if capturedSince older = [] then sentGroups older
      else sentGroups older ++ [capturedSince older]
  | .captured _ :: older => sentGroups older
  | .arrived _ :: older => sentGroups older

def groupBytes (group : List InputBlock) : List UInt8 :=
  group.flatMap InputBlock.bytes

theorem capturedBlocks_eq (history : List CaptureEvent) :
    capturedBlocks history = capturedAtTick history ++ capturedSince history := by
  induction history with
  | nil => rfl
  | cons event older ih =>
      cases event with
      | captured block =>
          rw [capturedBlocks, ih, capturedAtTick, capturedSince,
            List.append_assoc]
      | sendTick => rw [capturedBlocks, capturedAtTick, capturedSince,
          List.append_nil]
      | arrived now => exact ih

theorem flatten_sentGroups (history : List CaptureEvent) :
    (sentGroups history).flatten = capturedAtTick history := by
  induction history with
  | nil => rfl
  | cons event older ih =>
      cases event with
      | captured block => exact ih
      | sendTick =>
          rw [sentGroups, capturedAtTick, capturedBlocks_eq, ← ih]
          by_cases hnone : capturedSince older = []
          · rw [if_pos hnone, hnone, List.append_nil]
          · rw [if_neg hnone, List.flatten_append, List.flatten_singleton]
      | arrived now => exact ih

theorem ne_nil_of_mem_sentGroups {history : List CaptureEvent}
    {group : List InputBlock} (hgroup : group ∈ sentGroups history) :
    group ≠ [] := by
  induction history with
  | nil => simp [sentGroups] at hgroup
  | cons event older ih =>
      cases event with
      | captured block => exact ih hgroup
      | sendTick =>
          rw [sentGroups] at hgroup
          split at hgroup
          · exact ih hgroup
          · next hsome =>
            rcases List.mem_append.1 hgroup with hold | hnew
            · exact ih hold
            · rwa [List.mem_singleton.1 hnew]
      | arrived now => exact ih hgroup

/-- The groups sent are those that some tick found. -/
theorem forall_mem_sentGroups_iff {P : List InputBlock → Prop} (hnil : P [])
    (events : List CaptureEvent) :
    (∀ group ∈ sentGroups events.reverse, P group) ↔
      ∀ past event, past ++ [event] <+: events → event = .sendTick →
        P (capturedSince past.reverse) := by
  induction events using List.reverseRecOn with
  | nil => simp [sentGroups]
  | append_singleton earlier event ih =>
      rw [forall_isPrefix_concat_iff, ← ih, List.reverse_concat]
      cases event with
      | captured block => simp [sentGroups]
      | arrived now => simp [sentGroups]
      | sendTick =>
          rw [sentGroups]
          by_cases hnone : capturedSince earlier.reverse = []
          · simp [hnone, hnil]
          · rw [if_neg hnone, List.forall_mem_append]
            simp

/-- The datagrams in flight are those of the last groups sent, and the packets
built so far those of the groups before them. -/
structure Carries (path : CapturePath) (history : List CaptureEvent)
    (built : List AudioPacket) : Prop where
  inputBuffer :
    path.client.audio.inputBuffer = groupBytes (capturedSince history)
  groups : ∃ arrived waiting, sentGroups history = arrived ++ waiting ∧
    path.inFlight.map (fun datagram => datagram.packet.data) =
      waiting.map groupBytes ∧
    built = arrived.map fun group =>
      ⟨(groupBytes group).take recvBufferSize⟩

theorem length_groupBytes (group : List InputBlock) :
    (groupBytes group).length = 2 * framesPerBuffer * group.length :=
  VoiceChatClient.length_flatMap_bytes group

theorem receivedPacket_group {group : List InputBlock} (hne : group ≠ []) :
    VoiceChatServer.receivedPacket (groupBytes group) =
      some ⟨(groupBytes group).take recvBufferSize⟩ := by
  have hlength := List.length_pos_iff.2 hne
  rw [VoiceChatServer.receivedPacket, if_pos]
  rw [List.length_take, length_groupBytes, framesPerBuffer, recvBufferSize]
  omega

section Step

variable {generateWebsocketAccept : List UInt8 → List UInt8}
  {path next : CapturePath} {history : List CaptureEvent}
  {built new : List AudioPacket}

theorem Carries.step (hcarries : path.Carries history built)
    {event : CaptureEvent}
    (hstep : path.step generateWebsocketAccept event = some (next, new)) :
    next.Carries (event :: history) (built ++ new) := by
  obtain ⟨hbuffer, arrived, waiting, hgroups, hflight, hbuilt⟩ := hcarries
  cases event with
  | captured block =>
      obtain ⟨rfl, rfl⟩ : _ = next ∧ [] = new := by
        simpa [CapturePath.step, clientStep, VoiceChatClient.step] using hstep
      refine ⟨?_, arrived, waiting, hgroups, ?_, ?_⟩
      · simp [AudioManager.inputCallback, hbuffer, capturedSince, groupBytes]
      · simpa using hflight
      · rw [List.append_nil, hbuilt]
  | sendTick =>
      obtain ⟨rfl, rfl⟩ : _ = next ∧ [] = new := by
        simpa [CapturePath.step, clientStep, VoiceChatClient.step] using hstep
      rw [List.append_nil]
      simp only [VoiceChatClient.sendTick, AudioManager.getInputData, hbuffer,
        NetworkManager.send, List.isEmpty_iff]
      by_cases hnone : capturedSince history = []
      · refine ⟨rfl, arrived, waiting, ?_, ?_, hbuilt⟩
        · rw [sentGroups, if_pos hnone, hgroups]
        · rw [hnone]
          simpa [groupBytes] using hflight
      · refine ⟨rfl, arrived, waiting ++ [capturedSince history], ?_, ?_,
          hbuilt⟩
        · rw [sentGroups, if_neg hnone, hgroups, List.append_assoc]
        · have hbytes : groupBytes (capturedSince history) ≠ [] :=
            mt (VoiceChatClient.flatMap_bytes_eq_nil_iff _).1 hnone
          simp [hbytes, ClientCall.datagram, hflight]
  | arrived now =>
      simp only [CapturePath.step] at hstep
      cases hfirst : path.inFlight with
      | nil => simp [hfirst] at hstep
      | cons datagram rest =>
          rw [hfirst, List.map_cons, eq_comm, List.map_eq_cons_iff] at hflight
          obtain ⟨group, later, rfl, hdata, hrest⟩ := hflight
          have hsent : group ∈ sentGroups history := by simp [hgroups]
          have hne : group ≠ [] := ne_nil_of_mem_sentGroups hsent
          simp only [hfirst, VoiceChatServer.step_received, Option.map_some,
            ← hdata, receivedPacket_group hne, Option.toList_some,
            Option.some.injEq, Prod.mk.injEq] at hstep
          obtain ⟨rfl, rfl⟩ := hstep
          refine ⟨hbuffer, arrived ++ [group], later, ?_, hrest.symm, ?_⟩
          · rw [sentGroups, hgroups, List.append_assoc]
            rfl
          · rw [hbuilt, List.map_append]
            rfl

end Step

theorem carries_new (resolved address : Endpoint) (server : VoiceChatServer) :
    (new resolved address server).Carries [] [] where
  inputBuffer := rfl
  groups := ⟨[], [], rfl, rfl, rfl⟩

theorem length_flatMap_take_le {α β : Type} (f : α → List β) (bound : Nat)
    (parts : List α) :
    (parts.flatMap fun part => (f part).take bound).length ≤
      (parts.flatMap f).length := by
  induction parts with
  | nil => exact Nat.le_refl 0
  | cons part rest ih =>
      rw [List.flatMap_cons, List.flatMap_cons, List.length_append,
        List.length_append]
      exact Nat.add_le_add (List.length_take_le' ..) ih

theorem flatMap_take_eq_iff {α β : Type} (f : α → List β) (bound : Nat)
    (parts : List α) :
    (parts.flatMap fun part => (f part).take bound) = parts.flatMap f ↔
      ∀ part ∈ parts, (f part).length ≤ bound := by
  induction parts with
  | nil => simp
  | cons part rest ih =>
      rw [List.flatMap_cons, List.flatMap_cons, List.forall_mem_cons, ← ih,
        ← List.take_eq_self_iff]
      constructor
      · intro hsame
        have hlength := congrArg List.length hsame
        have hfirst : ((f part).take bound).length ≤ (f part).length :=
          List.length_take_le' ..
        have hrest := length_flatMap_take_le f bound rest
        refine List.append_inj hsame ?_
        simp only [List.length_append] at hlength
        omega
      · rintro ⟨hpart, hrest⟩
        rw [hpart, hrest]

theorem run_captured (generateWebsocketAccept : List UInt8 → List UInt8)
    (blocks : List InputBlock) (path : CapturePath) :
    run (step generateWebsocketAccept) path (blocks.map .captured) =
      some ({ path with client := { path.client with
        audio := ⟨path.client.audio.inputBuffer ++ groupBytes blocks⟩ } },
        []) := by
  induction blocks generalizing path with
  | nil => simp [groupBytes]
  | cons block rest ih =>
      rw [List.map_cons, run]
      simp [step, clientStep, VoiceChatClient.step, ih, groupBytes,
        AudioManager.inputCallback]

/-- Blocks captured between two ticks arrive in one datagram. -/
theorem run_sentTogether (generateWebsocketAccept : List UInt8 → List UInt8)
    (resolved address : Endpoint) (server : VoiceChatServer) (now : Int)
    {blocks : List InputBlock} (hne : blocks ≠ []) :
    ∃ final built, run (step generateWebsocketAccept)
        (new resolved address server)
        (blocks.map .captured ++ [.sendTick, .arrived now]) =
          some (final, built) ∧
      final.inFlight = [] := by
  have hbytes : groupBytes blocks ≠ [] :=
    mt (VoiceChatClient.flatMap_bytes_eq_nil_iff _).1 hne
  have hsent : ∀ path : CapturePath,
      path.client.audio.inputBuffer = groupBytes blocks → path.inFlight = [] →
      ∃ final built, run (step generateWebsocketAccept) path
          [.sendTick, .arrived now] = some (final, built) ∧
        final.inFlight = [] := by
    intro path hbuffer hflight
    simp [run, step, clientStep, VoiceChatClient.step,
      VoiceChatClient.sendTick, AudioManager.getInputData, NetworkManager.send,
      ClientCall.datagram, hbuffer, hbytes, hflight,
      VoiceChatServer.step_received]
  obtain ⟨final, built, hrun, hflight⟩ := hsent
    { new resolved address server with
      client := { VoiceChatClient.new resolved with
        audio := ⟨groupBytes blocks⟩ } } rfl rfl
  exact ⟨final, _, (run_append_eq_some _).2
    ⟨_, _, _, run_captured generateWebsocketAccept blocks _, hrun, rfl⟩,
    hflight⟩

section Run

variable {generateWebsocketAccept : List UInt8 → List UInt8}
  {resolved address : Endpoint} {server : VoiceChatServer}
  {events : List CaptureEvent} {final : CapturePath}
  {built : List AudioPacket}

theorem carries_of_run
    (hrun : run (step generateWebsocketAccept) (new resolved address server)
      events = some (final, built)) :
    final.Carries events.reverse built := by
  refine run_induction (step generateWebsocketAccept)
    (motive := fun past path built => path.Carries past.reverse built)
    (carries_new resolved address server) ?_ hrun
  intro past path built event next new _ hpast hstep
  rw [List.reverse_concat]
  exact hpast.step hstep

/-- With nothing in flight, the server has built one packet for each group. -/
theorem built_of_run
    (hrun : run (step generateWebsocketAccept) (new resolved address server)
      events = some (final, built)) (hflight : final.inFlight = []) :
    built = (sentGroups events.reverse).map fun group =>
      ⟨(groupBytes group).take recvBufferSize⟩ := by
  obtain ⟨-, arrived, waiting, hgroups, hwaiting, hbuilt⟩ :=
    carries_of_run hrun
  rw [hflight, List.map_nil, eq_comm, List.map_eq_nil_iff] at hwaiting
  rw [hbuilt, hgroups, hwaiting, List.append_nil]

/-- When all datagrams have arrived, the server has built what was captured up
to the last send tick exactly when no tick found more than two blocks. -/
theorem captured_arrives_iff
    (hrun : run (step generateWebsocketAccept) (new resolved address server)
      events = some (final, built)) (hflight : final.inFlight = []) :
    built.flatMap AudioPacket.data =
        groupBytes (capturedAtTick events.reverse) ↔
      ∀ past, past ++ [.sendTick] <+: events →
        (capturedSince past.reverse).length ≤ 2 := by
  have hcaptured : groupBytes (capturedAtTick events.reverse) =
      (sentGroups events.reverse).flatMap groupBytes := by
    rw [← flatten_sentGroups, List.flatten_eq_flatMap, groupBytes,
      List.flatMap_assoc]
    rfl
  have hsize : ∀ group,
      (groupBytes group).length ≤ recvBufferSize ↔ group.length ≤ 2 := by
    intro group
    rw [length_groupBytes, framesPerBuffer, recvBufferSize]
    omega
  rw [built_of_run hrun hflight, List.flatMap_map, hcaptured,
    flatMap_take_eq_iff]
  simp only [hsize]
  rw [forall_mem_sentGroups_iff (by simp)]
  constructor
  · intro hall past hpast
    exact hall past .sendTick hpast rfl
  · rintro hall past _ hpast rfl
    exact hall past hpast

end Run

def clientAddress : Endpoint := ⟨10, 0, 0, 7, 50000⟩

theorem captured_arrives_iff_pair :
    let events : List CaptureEvent :=
      [VoiceChatClient.silentBlock, VoiceChatClient.silentBlock].map .captured ++
        [.sendTick, .arrived 0]
    ∃ final built, run (step fun _ => [])
        (new VoiceChatClient.serverAddress clientAddress
          (VoiceChatServer.new false)) events = some (final, built) ∧
      (built.flatMap AudioPacket.data =
          groupBytes (capturedAtTick events.reverse) ↔
        ∀ past, past ++ [.sendTick] <+: events →
          (capturedSince past.reverse).length ≤ 2) := by
  intro events
  obtain ⟨final, built, hrun, hflight⟩ := run_sentTogether (fun _ => [])
    VoiceChatClient.serverAddress clientAddress (VoiceChatServer.new false) 0
    (List.cons_ne_nil VoiceChatClient.silentBlock
      [VoiceChatClient.silentBlock])
  exact ⟨final, built, hrun, captured_arrives_iff hrun hflight⟩

/-- Three blocks between two ticks make 24576 bytes, of which the server keeps
16384. -/
theorem captured_cut_off :
    ¬ ∀ resolved address server events final built,
      run (step fun _ => []) (new resolved address server) events =
        some (final, built) → final.inFlight = [] →
      built.flatMap AudioPacket.data =
        groupBytes (capturedAtTick events.reverse) := by
  intro hclaim
  obtain ⟨final, built, hrun, hflight⟩ := run_sentTogether (fun _ => [])
    VoiceChatClient.serverAddress clientAddress (VoiceChatServer.new false) 0
    (List.cons_ne_nil VoiceChatClient.silentBlock
      [VoiceChatClient.silentBlock, VoiceChatClient.silentBlock])
  have hsame := hclaim _ _ _ _ _ _ hrun hflight
  rw [built_of_run hrun hflight, List.flatMap_map] at hsame
  have hgroups : sentGroups [.arrived 0, .sendTick,
      .captured VoiceChatClient.silentBlock,
      .captured VoiceChatClient.silentBlock,
      .captured VoiceChatClient.silentBlock] = [[VoiceChatClient.silentBlock,
        VoiceChatClient.silentBlock, VoiceChatClient.silentBlock]] := by
    simp [sentGroups, capturedSince]
  have hlength := congrArg List.length hsame
  simp [hgroups, capturedAtTick, capturedBlocks, length_groupBytes,
    framesPerBuffer, recvBufferSize] at hlength

end CapturePath

end VoiceServer

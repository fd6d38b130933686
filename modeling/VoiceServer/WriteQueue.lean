/-
The write queue of a session.  While no write fails, the write in flight is
that of the front of the queue, so the frames leave whole and in the order of
the calls of `send`.  A failed write leaves the queue without a write in flight
for good.
-/
import VoiceServer.WebSocketSession

namespace VoiceServer

open Rfc6455

namespace WebSocketSession

/-- The write in flight is that of the front of the queue. -/
def InStep (session : WebSocketSession) : Prop :=
  session.writing = session.writeQueue.take 1

/-- Nothing queued and no write outstanding. -/
structure Quiet (session : WebSocketSession) : Prop where
  queue : session.writeQueue = []
  writing : session.writing = []
  responding : session.responding = []

variable {generateWebsocketAccept : List UInt8 → List UInt8}
  {session next : WebSocketSession} {event : SessionEvent}

theorem inStep_new (uuid : String) (useSsl : Bool) :
    (new uuid useSsl).start.InStep := by
  cases useSsl <;> rfl

theorem InStep.front (hinStep : session.InStep) {bytes : List UInt8}
    (hop : bytes ∈ session.writing) :
    ∃ rest, session.writing = [bytes] ∧
      session.writeQueue = bytes :: rest := by
  unfold InStep at hinStep
  cases hqueue : session.writeQueue with
  | nil => simp [hinStep, hqueue] at hop
  | cons front rest =>
      rw [hinStep, hqueue, List.take_succ_cons, List.take_zero,
        List.mem_singleton] at hop
      subst hop
      exact ⟨rest, by simp [hinStep, hqueue], rfl⟩

/-- Only a failed frame write puts the two out of step. -/
theorem InStep.step (hinStep : session.InStep)
    (hstep : Stepped session event next)
    (hok : ∀ bytes, event ≠ .complete (.frame bytes false)) :
    next.InStep := by
  cases hstep with
  | started message opcode hidle =>
      simp [InStep, hidle] at hinStep ⊢
      exact hinStep
  | queued message opcode hbusy =>
      have hlength : 1 ≤ session.writeQueue.length :=
        List.length_pos_iff.2 hbusy
      change session.writing = _
      rw [List.take_append_of_le_length hlength]
      exact hinStep
  | drained bytes hop hlast =>
      obtain ⟨rest, hwriting, -⟩ := hinStep.front hop
      simp [InStep, hwriting]
  | continued bytes front rest hop hmore =>
      obtain ⟨old, hwriting, -⟩ := hinStep.front hop
      simp [InStep, hwriting]
  | frameFailed bytes hop => exact absurd rfl (hok bytes)
  | _ => exact hinStep

/-- A failed frame write leaves a queue and no write. -/
theorem InStep.stranded (hinStep : session.InStep) {bytes : List UInt8}
    (hstep : Stepped session (.complete (.frame bytes false)) next) :
    next.writeQueue ≠ [] ∧ next.writing = [] := by
  cases hstep with
  | frameFailed bytes hop =>
      obtain ⟨rest, hwriting, hqueue⟩ := hinStep.front hop
      exact ⟨by simp [hqueue], by simp [hwriting]⟩
  | readFailed op completion error hop hfailed hread =>
      exact absurd rfl (hread bytes false)

/-- The accept value for the key of `sampleRequest`. -/
def sampleAccept (_ : List UInt8) : List UInt8 :=
  ascii "s3pPLMBiTxaQ9kYGzzhZRbK+xOo="

def sampleRequest : List UInt8 :=
  ascii "GET / HTTP/1.1\r\nSec-WebSocket-Key: dGhlIHNhbXBsZSBub25jZQ==\r\n\r\n"

/-- The completions of a handshake that succeeds. -/
def sampleUpgrade : List SessionEvent :=
  [.complete (.request (some sampleRequest)),
    .complete (.response (handshakeResponse (sampleAccept [])) true)]

/-- A session right after it. -/
def sampleSession : WebSocketSession where
  uuid := "a"
  useSsl := false
  reading := [.frames]
  responding := []
  writing := []
  writeQueue := []
  written := [.response (handshakeResponse (sampleAccept []))]
  errors := []

example : run (step sampleAccept) (new "a" false).start sampleUpgrade =
    some (sampleSession, []) := by
  decide +kernel

/-- Whenever frames are queued a write is in flight, all along a run, exactly
when no frame write of the run fails. -/
theorem queue_in_flight_iff {uuid : String} {useSsl : Bool}
    {events : List SessionEvent} {final : WebSocketSession}
    {calls : List Message}
    (hrun : run (step generateWebsocketAccept) (new uuid useSsl).start events =
      some (final, calls)) :
    Along (step generateWebsocketAccept)
        (fun session => session.writeQueue ≠ [] → session.writing ≠ [])
        (new uuid useSsl).start events ↔
      ∀ event ∈ events, ∀ bytes, event ≠ .complete (.frame bytes false) := by
  rw [← stepsMeet_iff_forall_mem hrun]
  refine along_iff_stepsMeet ?_ ?_ ?_ (inStep_new ..) hrun
  · intro session hinStep hqueue hwriting
    rw [hinStep, List.take_eq_nil_iff] at hwriting
    exact hwriting.elim (by decide) hqueue
  · intro session event next outs hinStep hok hstep
    exact hinStep.step (stepped_of_step hstep) hok
  · intro session event next outs hinStep hfails hstep hflight
    simp only [not_forall, not_not] at hfails
    obtain ⟨bytes, rfl⟩ := hfails
    obtain ⟨hqueue, hwriting⟩ := hinStep.stranded (stepped_of_step hstep)
    exact hflight hqueue hwriting

/-- A handshake, and two frames that are written. -/
theorem queue_in_flight_iff_two :
    let events := sampleUpgrade ++
      [.send [1] .binary, .send [2] .binary,
        .complete (.frame [0x82, 1, 1] true), .complete (.frame [0x82, 1, 2] true)]
    Along (step sampleAccept)
        (fun session => session.writeQueue ≠ [] → session.writing ≠ [])
        (new "a" false).start events ↔
      ∀ event ∈ events, ∀ bytes, event ≠ .complete (.frame bytes false) := by
  intro events
  have hrun : run (step sampleAccept) (new "a" false).start events =
      some ({ sampleSession with
        written := sampleSession.written ++
          [.frame [0x82, 1, 1], .frame [0x82, 1, 2]] }, []) := by
    decide +kernel
  exact queue_in_flight_iff hrun

/-- A handshake, one frame, and its write fails. -/
theorem queue_not_in_flight :
    ¬ ∀ events final calls,
      run (step sampleAccept) (new "a" false).start events =
        some (final, calls) →
      final.writeQueue ≠ [] → final.writing ≠ [] := by
  intro hclaim
  have hrun : run (step sampleAccept) (new "a" false).start
      (sampleUpgrade ++
        [.send [1] .binary, .complete (.frame [0x82, 1, 1] false)]) =
      some ({ sampleSession with
        writeQueue := [[0x82, 1, 1]]
        errors := [.write] }, []) := by
    decide +kernel
  exact hclaim _ _ _ hrun (by simp) rfl

/-- From then on every call of `send` only makes the queue longer. -/
theorem stranded_forever {events : List SessionEvent}
    {final : WebSocketSession} {calls : List Message}
    (hqueue : session.writeQueue ≠ []) (hwriting : session.writing = [])
    (hrun : run (step generateWebsocketAccept) session events =
      some (final, calls)) :
    final.writing = [] ∧ session.writeQueue <+: final.writeQueue := by
  have hkeep : ∀ state event next outs,
      (state.writing = [] ∧ session.writeQueue <+: state.writeQueue) →
      step generateWebsocketAccept state event = some (next, outs) →
      next.writing = [] ∧ session.writeQueue <+: next.writeQueue := by
    rintro state event next outs ⟨hwriting, hlonger⟩ hstep
    have hbusy : state.writeQueue ≠ [] := by
      intro hempty
      rw [hempty, List.prefix_nil] at hlonger
      exact hqueue hlonger
    cases stepped_of_step hstep with
    | started message opcode hidle => exact absurd hidle hbusy
    | queued message opcode hbusy =>
        exact ⟨hwriting, hlonger.trans (List.prefix_append _ _)⟩
    | drained bytes hop hlast => simp [hwriting] at hop
    | continued bytes front rest hop hmore => simp [hwriting] at hop
    | frameFailed bytes hop => simp [hwriting] at hop
    | _ => exact ⟨hwriting, hlonger⟩
  exact run_preserves _ hkeep ⟨hwriting, List.prefix_rfl⟩ hrun

/-- A `std::vector<uint8_t>`, whose size is at most `PTRDIFF_MAX`. -/
structure ByteVector where
  bytes : List UInt8
  fits : bytes.length < 2 ^ 63

/-- What happens to the write queue after the handshake while no write fails. -/
inductive WriteEvent where
  | send (message : ByteVector) (opcode : WebSocketOpCode)
  | written (frame : List UInt8)

def WriteEvent.toEvent : WriteEvent → SessionEvent
  | .send message opcode => .send message.bytes opcode
  | .written frame => .complete (.frame frame true)

def writeStep (generateWebsocketAccept : List UInt8 → List UInt8)
    (session : WebSocketSession) (event : WriteEvent) :
    Option (WebSocketSession × List Message) :=
  session.step generateWebsocketAccept event.toEvent

def WriteEvent.sent : WriteEvent → List Message
  | .send message opcode => [(opcode, message.bytes)]
  | .written _ => []

/-- The arguments of the calls of `send`, in order. -/
def sends (events : List WriteEvent) : List Message :=
  events.flatMap WriteEvent.sent

def frameOf (message : Message) : List UInt8 :=
  createWebsocketFrame message.2 message.1

/-- The messages written so far and those still queued. -/
structure Outgoing (start session : WebSocketSession)
    (done queued : List Message) : Prop where
  inStep : session.InStep
  responding : session.responding = []
  written : session.written =
    start.written ++ done.map fun message => .frame (frameOf message)
  writeQueue : session.writeQueue = queued.map frameOf

theorem Quiet.outgoing (hquiet : session.Quiet) :
    Outgoing session session [] [] where
  inStep := by rw [InStep, hquiet.writing, hquiet.queue]; rfl
  responding := hquiet.responding
  written := by simp
  writeQueue := hquiet.queue

/-- One step moves a message from the queued to the written, or adds one. -/
theorem Outgoing.step {start : WebSocketSession} {done queued : List Message}
    (hout : Outgoing start session done queued) {event : WriteEvent}
    (hstep : Stepped session event.toEvent next) :
    ∃ done' queued', done' ++ queued' = done ++ queued ++ event.sent ∧
      Outgoing start next done' queued' := by
  have hinStep : next.InStep := hout.inStep.step hstep (by
    intro bytes
    cases event <;> simp [WriteEvent.toEvent])
  obtain ⟨hprev, hresponding, hwritten, hqueue⟩ := hout
  cases event with
  | send message opcode =>
      refine ⟨done, queued ++ [(opcode, message.bytes)],
        (List.append_assoc ..).symm, hinStep, ?_, ?_, ?_⟩
      · cases hstep <;> exact hresponding
      · cases hstep <;> exact hwritten
      · cases hstep with
        | started _ _ hidle =>
            rw [hidle] at hqueue
            rw [List.map_append, ← hqueue]
            rfl
        | queued _ _ hbusy =>
            rw [List.map_append, ← hqueue]
            rfl
  | written frame =>
      have hfront : frame ∈ session.writing ∧
          next.written = session.written ++ [.frame frame] ∧
          next.writeQueue = session.writeQueue.tail ∧
          next.responding = session.responding := by
        cases hstep with
        | drained _ hop hlast => exact ⟨hop, rfl, hlast.symm, rfl⟩
        | continued _ front rest hop hmore => exact ⟨hop, rfl, hmore.symm, rfl⟩
        | readFailed op completion error hop hfailed hread =>
            exact absurd rfl (hread frame true)
      obtain ⟨hop, hnextWritten, hnextQueue, hnextResponding⟩ := hfront
      obtain ⟨rest, -, hcons⟩ := hprev.front hop
      -- The frame written is that of the oldest message still queued.
      rw [hqueue, List.map_eq_cons_iff] at hcons
      obtain ⟨message, later, rfl, rfl, rfl⟩ := hcons
      refine ⟨done ++ [message], later, ?_, hinStep, ?_, ?_, ?_⟩
      · simp [WriteEvent.sent]
      · rw [hnextResponding, hresponding]
      · rw [hnextWritten, hwritten]
        simp
      · rw [hnextQueue, hqueue]
        rfl

theorem length_sends_lt (events : List WriteEvent) :
    ∀ message ∈ sends events, message.2.length < 2 ^ 63 := by
  intro message hmessage
  obtain ⟨event, -, hsent⟩ := List.mem_flatMap.1 hmessage
  cases event with
  | send vector opcode =>
      obtain rfl : message = (opcode, vector.bytes) := by
        simpa [WriteEvent.sent] using hsent
      exact vector.fits
  | written frame => simp [WriteEvent.sent] at hsent

/-- The frames of messages, one after the other, parse back to the messages. -/
theorem parseStream_frames {messages : List Message}
    (hlength : ∀ message ∈ messages, message.2.length < 2 ^ 63) :
    parseStream (messages.flatMap frameOf) =
      some (messages.map fun message => (message.1.nibble, message.2)) := by
  have hparse := @parseStream_encode
    (messages.map fun message => (message.1.nibble, message.2))
    (List.forall_mem_map.2 hlength)
  have hframes : frameOf =
      fun message : Message => encode message.1.nibble none message.2 :=
    funext fun message => createWebsocketFrame_eq_encode ..
  rw [List.flatMap_map] at hparse
  rw [hframes]
  exact hparse

/-- After the handshake and while no write fails: at most one write is in
flight, the frames leave in the order of the calls of `send`, and what has been
written parses to the messages of the first of them. -/
theorem outgoing_faithful {start final : WebSocketSession}
    (hquiet : start.Quiet) {events : List WriteEvent} {calls : List Message}
    (hrun : run (writeStep generateWebsocketAccept) start events =
      some (final, calls)) :
    final.responding.length + final.writing.length ≤ 1 ∧
      ∃ done queued, done ++ queued = sends events ∧
        final.written =
          start.written ++ done.map (fun message => .frame (frameOf message)) ∧
        final.writeQueue = queued.map frameOf ∧
        done.flatMap frameOf ++ final.writeQueue.flatten =
          (sends events).flatMap frameOf ∧
        parseStream (done.flatMap frameOf) =
          some (done.map fun message => (message.1.nibble, message.2)) := by
  have hall : ∃ done queued, done ++ queued = sends events ∧
      Outgoing start final done queued := by
    refine run_induction _ ?_ ?_ hrun
      (motive := fun past state _ => ∃ done queued,
        done ++ queued = sends past ∧ Outgoing start state done queued)
    · exact ⟨[], [], rfl, hquiet.outgoing⟩
    · rintro past state outs event next new - ⟨done, queued, hsends, hout⟩ hstep
      obtain ⟨done', queued', hsame, hnext⟩ :=
        hout.step (stepped_of_step hstep)
      refine ⟨done', queued', ?_, hnext⟩
      rw [hsame, hsends, sends, sends, List.flatMap_append]
      simp
  obtain ⟨done, queued, hsends, hout⟩ := hall
  constructor
  · rw [hout.responding, hout.inStep, List.length_nil, Nat.zero_add]
    exact List.length_take_le ..
  · refine ⟨done, queued, hsends, hout.written, hout.writeQueue, ?_,
      parseStream_frames fun message hmessage =>
        length_sends_lt events message ?_⟩
    · rw [hout.writeQueue, ← List.flatMap_def, ← List.flatMap_append, hsends]
    · rw [← hsends]
      exact List.mem_append_left _ hmessage

theorem outgoing_faithful_two :
    let message : ByteVector := ⟨[1], by decide⟩
    let events : List WriteEvent :=
      [.send message .binary, .send message .text, .written [0x82, 1, 1]]
    let final := { sampleSession with
      writing := [[0x81, 1, 1]]
      writeQueue := [[0x81, 1, 1]]
      written := sampleSession.written ++ [StreamWrite.frame [0x82, 1, 1]] }
    final.responding.length + final.writing.length ≤ 1 ∧
      ∃ done queued, done ++ queued = sends events ∧
        final.written = sampleSession.written ++
          done.map (fun message => .frame (frameOf message)) ∧
        final.writeQueue = queued.map frameOf ∧
        done.flatMap frameOf ++ final.writeQueue.flatten =
          (sends events).flatMap frameOf ∧
        parseStream (done.flatMap frameOf) =
          some (done.map fun message => (message.1.nibble, message.2)) := by
  intro message events final
  have hrun : run (writeStep sampleAccept) sampleSession events =
      some (final, []) := by
    decide +kernel
  exact outgoing_faithful ⟨rfl, rfl, rfl⟩ hrun

end WebSocketSession

end VoiceServer

/-
A session of a server whose handlers run on several threads.  It has no strand
and its queue no lock, so the handler that calls `send` and those of its writes
can take turns at every operation on the queue: here each is a step of its own, but
for the look and the front of `do_write`, which are one, with the look of a write
handler that calls it.  What C++ leaves undefined, two operations at once or the
front of a queue that has been emptied, is left out.
-/
import VoiceServer.Projection
import VoiceServer.WriteQueue

namespace VoiceServer

open WebSocketSession

/-- Where the call of `send` stands: there is none, it has seen whether a write
is in progress, or it is in front of its `do_write`. -/
inductive SendCall where
  | idle
  | looked (message : ByteVector) (opcode : WebSocketOpCode)
      (writeInProgress : Bool)
  | pushed

/-- A session gives its messages out one at a time, so there is one call of
`send`.  The handlers of writes that have popped their frame and not looked at
the queue again are counted. -/
structure ThreadedSession where
  session : WebSocketSession
  sending : SendCall
  popped : Nat

/-- The operations on the queue: of `send`, and of the handler of a write.
`do_write` looks at the queue and takes its front in one. -/
inductive ThreadedEvent where
  | look (message : ByteVector) (opcode : WebSocketOpCode)
  | push
  | startWrite
  | completed (frame : List UInt8) (ok : Bool)
  | lookAgain

namespace ThreadedSession

/-- No handler of the session is running. -/
def resting (session : WebSocketSession) : ThreadedSession :=
  ⟨session, .idle, 0⟩

/-- The outputs are the frames that have been written.  To pop an empty queue is
undefined, and no step. -/
def step (threads : ThreadedSession) :
    ThreadedEvent → Option (ThreadedSession × List (List UInt8))
  | .look message opcode =>
      match threads.sending with
      | .idle => some ({ threads with
          sending := .looked message opcode
            (!threads.session.writeQueue.isEmpty) }, [])
      | _ => none
  | .push =>
      match threads.sending with
      | .looked message opcode writeInProgress =>
          let frame := createWebsocketFrame message.bytes opcode
          some ({ threads with
            session := { threads.session with
              writeQueue := threads.session.writeQueue ++ [frame] }
            sending := if writeInProgress then .idle else .pushed }, [])
      | _ => none
  | .startWrite =>
      match threads.sending with
      | .pushed => some ({ threads with
          session := threads.session.doWrite
          sending := .idle }, [])
      | _ => none
  | .completed frame ok =>
      if threads.session.writing.contains frame then
        let session := { threads.session with
          writing := threads.session.writing.erase frame }
        if ok then
          if session.writeQueue.isEmpty then none
          else some ({ threads with
            session := { session with
              written := session.written ++ [StreamWrite.frame frame]
              writeQueue := session.writeQueue.tail }
            popped := threads.popped + 1 }, [frame])
        else some ({ threads with session := session.log .write }, [])
      else none
  | .lookAgain =>
      if 0 < threads.popped then
        some ({ threads with
          session := if threads.session.writeQueue.isEmpty then threads.session
            else threads.session.doWrite
          popped := threads.popped - 1 }, [])
      else none

/-- The calls of the handlers that run one after the other: a push is a `send`,
and a pop the handler of a write. -/
def handlerEvents (threads : ThreadedSession) : ThreadedEvent → List WriteEvent
  | .push =>
      match threads.sending with
      | .looked message opcode _ => [.send message opcode]
      | _ => []
  | .completed frame true => [.written frame]
  | _ => []

/-- The arguments of the calls of `send`. -/
def messages (events : List ThreadedEvent) : List Message :=
  events.flatMap fun
    | .look message opcode => [(opcode, message.bytes)]
    | _ => []

/-- No write fails, and none is started over one that is outstanding. -/
def Clean (threads : ThreadedSession) : ThreadedEvent → Prop
  | .startWrite =>
      threads.session.writing = [] ∨ threads.session.writeQueue = []
  | .lookAgain =>
      threads.session.writing = [] ∨ threads.session.writeQueue = []
  | .completed _ ok => ok = true
  | _ => True

/-- The last handler of a write finds the queue empty, when a `send` that counts
on it has not pushed its frame yet. -/
def Overtakes (threads : ThreadedSession) : ThreadedEvent → Prop
  | .lookAgain => threads.session.writeQueue = [] ∧
      threads.session.writing = [] ∧ threads.popped = 1 ∧
      ∃ message opcode, threads.sending = .looked message opcode true
  | _ => False

inductive Stepped (threads : ThreadedSession) :
    ThreadedEvent → ThreadedSession → List (List UInt8) → Prop
  | looked (message : ByteVector) (opcode : WebSocketOpCode)
      (hidle : threads.sending = .idle) :
      Stepped threads (.look message opcode) { threads with
        sending := .looked message opcode
          (!threads.session.writeQueue.isEmpty) } []
  | pushed (message : ByteVector) (opcode : WebSocketOpCode)
      (writeInProgress : Bool)
      (hlooked : threads.sending = .looked message opcode writeInProgress) :
      Stepped threads .push { threads with
        session := { threads.session with
          writeQueue := threads.session.writeQueue ++
            [createWebsocketFrame message.bytes opcode] }
        sending := if writeInProgress then .idle else .pushed } []
  | started (hpushed : threads.sending = .pushed) :
      Stepped threads .startWrite { threads with
        session := threads.session.doWrite
        sending := .idle } []
  | wrote (frame front : List UInt8) (rest : List (List UInt8))
      (hop : frame ∈ threads.session.writing)
      (hqueue : threads.session.writeQueue = front :: rest) :
      Stepped threads (.completed frame true) { threads with
        session := { threads.session with
          writing := threads.session.writing.erase frame
          written := threads.session.written ++ [.frame frame]
          writeQueue := rest }
        popped := threads.popped + 1 } [frame]
  | failed (frame : List UInt8) (hop : frame ∈ threads.session.writing) :
      Stepped threads (.completed frame false) { threads with
        session := { threads.session with
          writing := threads.session.writing.erase frame
          errors := threads.session.errors ++ [.write] } } []
  | finished (hpopped : 0 < threads.popped) :
      Stepped threads .lookAgain { threads with
        session := threads.session.doWrite
        popped := threads.popped - 1 } []

variable {threads next : ThreadedSession} {event : ThreadedEvent}
  {outs : List (List UInt8)}

theorem doWrite_of_empty {session : WebSocketSession}
    (hqueue : session.writeQueue = []) : session.doWrite = session := by
  rw [doWrite, hqueue]

theorem step_eq_some_iff :
    threads.step event = some (next, outs) ↔
      Stepped threads event next outs := by
  constructor
  · intro hstep
    cases event with
    | look message opcode =>
        cases hsending : threads.sending with
        | idle =>
            simp only [step, hsending, Option.some.injEq, Prod.mk.injEq] at hstep
            obtain ⟨rfl, rfl⟩ := hstep
            exact .looked message opcode hsending
        | looked _ _ _ => simp [step, hsending] at hstep
        | pushed => simp [step, hsending] at hstep
    | push =>
        cases hsending : threads.sending with
        | idle => simp [step, hsending] at hstep
        | looked message opcode writeInProgress =>
            simp only [step, hsending, Option.some.injEq, Prod.mk.injEq] at hstep
            obtain ⟨rfl, rfl⟩ := hstep
            exact .pushed message opcode writeInProgress hsending
        | pushed => simp [step, hsending] at hstep
    | startWrite =>
        cases hsending : threads.sending with
        | idle => simp [step, hsending] at hstep
        | looked _ _ _ => simp [step, hsending] at hstep
        | pushed =>
            simp only [step, hsending, Option.some.injEq, Prod.mk.injEq] at hstep
            obtain ⟨rfl, rfl⟩ := hstep
            exact .started hsending
    | completed frame ok =>
        simp only [step, List.contains_iff_mem,
          Option.ite_none_right_eq_some] at hstep
        obtain ⟨hop, hstep⟩ := hstep
        cases ok with
        | false =>
            simp only [Bool.false_eq_true, ↓reduceIte, Option.some.injEq,
              Prod.mk.injEq] at hstep
            obtain ⟨rfl, rfl⟩ := hstep
            exact .failed frame hop
        | true =>
            cases hqueue : threads.session.writeQueue with
            | nil => simp [hqueue] at hstep
            | cons front rest =>
                simp only [hqueue, ↓reduceIte, List.isEmpty_cons,
                  Bool.false_eq_true, List.tail_cons, Option.some.injEq,
                  Prod.mk.injEq] at hstep
                obtain ⟨rfl, rfl⟩ := hstep
                exact .wrote frame front rest hop hqueue
    | lookAgain =>
        simp only [step, Option.ite_none_right_eq_some, Option.some.injEq,
          Prod.mk.injEq] at hstep
        obtain ⟨hpopped, rfl, rfl⟩ := hstep
        have hfinished := Stepped.finished hpopped
        rcases hqueue : threads.session.writeQueue with - | ⟨front, rest⟩
        · rwa [doWrite_of_empty hqueue] at hfinished
        · exact hfinished
  · intro hstepped
    cases hstepped with
    | looked message opcode hidle => simp [step, hidle]
    | pushed message opcode writeInProgress hlooked => simp [step, hlooked]
    | started hpushed => simp [step, hpushed]
    | wrote frame front rest hop hqueue => simp [step, hop, hqueue]
    | failed frame hop => simp [step, hop, log]
    | finished hpopped =>
        rcases hqueue : threads.session.writeQueue with - | ⟨front, rest⟩
        · simp [step, hpopped, hqueue, doWrite_of_empty hqueue]
        · simp [step, hpopped, hqueue]

theorem writing_doWrite {session : WebSocketSession}
    (hqueue : session.writeQueue ≠ []) : session.doWrite.writing ≠ [] := by
  obtain ⟨front, rest, hcons⟩ := List.exists_cons_of_ne_nil hqueue
  simp [doWrite, hcons]

@[simp] theorem writeQueue_doWrite (session : WebSocketSession) :
    session.doWrite.writeQueue = session.writeQueue := by
  unfold doWrite
  split <;> rfl

/-- No write is outstanding, or that of the front. -/
def Fronted (threads : ThreadedSession) : Prop :=
  threads.session.writing = [] ∨ threads.session.InStep

theorem fronted_doWrite {session : WebSocketSession}
    (hclean : session.writing = [] ∨ session.writeQueue = [])
    (hfronted : session.writing = [] ∨ session.InStep) :
    session.doWrite.writing = [] ∨ session.doWrite.InStep := by
  rcases hqueue : session.writeQueue with - | ⟨front, rest⟩
  · rwa [doWrite_of_empty hqueue]
  · right
    have hwriting : session.writing = [] :=
      hclean.resolve_right (by simp [hqueue])
    simp [doWrite, InStep, hqueue, hwriting]

theorem Fronted.step (hfronted : threads.Fronted) (hclean : threads.Clean event)
    (hstepped : Stepped threads event next outs) : next.Fronted := by
  cases hstepped with
  | looked message opcode hidle => exact hfronted
  | pushed message opcode writeInProgress hlooked =>
      rcases hfronted with hwriting | hinStep
      · exact .inl hwriting
      · rcases hqueue : threads.session.writeQueue with - | ⟨front, rest⟩
        · left
          rw [InStep, hqueue] at hinStep
          exact hinStep
        · right
          rw [InStep, hqueue] at hinStep
          simp [InStep, hinStep]
  | started hpushed => exact fronted_doWrite hclean hfronted
  | wrote frame front rest hop hqueue =>
      left
      have hinStep := hfronted.resolve_left (List.ne_nil_of_mem hop)
      obtain ⟨-, hwriting, -⟩ := hinStep.front hop
      simp [hwriting]
  | failed frame hop => exact absurd hclean Bool.false_ne_true
  | finished hpopped => exact fronted_doWrite hclean hfronted

/-- Someone is going to write what is queued, and what is about to be. -/
structure Served (threads : ThreadedSession) : Prop where
  queue : threads.session.writeQueue ≠ [] → threads.session.writing ≠ [] ∨
    0 < threads.popped ∨ threads.sending = .pushed
  relied : ∀ message opcode, threads.sending = .looked message opcode true →
    threads.session.writing ≠ [] ∨ 0 < threads.popped

theorem Served.step (hserved : threads.Served) (hclean : threads.Clean event)
    (hkept : ¬ threads.Overtakes event)
    (hstepped : Stepped threads event next outs) : next.Served := by
  cases hstepped with
  | looked message opcode hidle =>
      have hidleQueue : threads.session.writeQueue ≠ [] →
          threads.session.writing ≠ [] ∨ 0 < threads.popped := by
        intro hqueue
        simpa [hidle] using hserved.queue hqueue
      refine ⟨fun hqueue => (hidleQueue hqueue).imp_right .inl, ?_⟩
      intro _ _ hlooked
      simp only [SendCall.looked.injEq] at hlooked
      exact hidleQueue (by simpa using hlooked.2.2)
  | pushed message opcode writeInProgress hlooked =>
      cases writeInProgress with
      | false => exact ⟨fun _ => .inr (.inr rfl), by simp⟩
      | true =>
          have hrelied := hserved.relied message opcode hlooked
          exact ⟨fun _ => hrelied.imp_right .inl, by simp⟩
  | started hpushed =>
      refine ⟨fun hqueue => .inl (writing_doWrite ?_), by simp⟩
      simpa using hqueue
  | wrote frame front rest hop hqueue =>
      exact ⟨fun _ => .inr (.inl (Nat.succ_pos _)),
        fun _ _ _ => .inr (Nat.succ_pos _)⟩
  | failed frame hop => exact absurd hclean Bool.false_ne_true
  | finished hpopped =>
      refine ⟨fun hqueue => .inl (writing_doWrite (by simpa using hqueue)), ?_⟩
      intro message opcode hlooked
      by_cases hqueue : threads.session.writeQueue = []
      · -- The queue is empty: another handler or write is left, as the step
        -- does not overtake the call.
        simp only [doWrite_of_empty hqueue]
        by_contra hnone
        rw [not_or, not_not] at hnone
        exact hkept ⟨hqueue, hnone.1, by omega, message, opcode, hlooked⟩
      · exact .inl (writing_doWrite hqueue)

/-- Nobody is going to write, and a frame is queued or about to be. -/
structure Silent (threads : ThreadedSession) : Prop where
  writing : threads.session.writing = []
  popped : threads.popped = 0
  sending : (threads.sending = .idle ∧ threads.session.writeQueue ≠ []) ∨
    ∃ message opcode, threads.sending = .looked message opcode true

theorem silent_of_overtakes (hovertakes : threads.Overtakes event)
    (hstepped : Stepped threads event next outs) : next.Silent := by
  cases hstepped with
  | finished hpopped =>
      obtain ⟨hqueue, hwriting, hlast, hlooked⟩ := hovertakes
      rw [doWrite_of_empty hqueue]
      exact ⟨hwriting, by simp [hlast], .inr hlooked⟩
  | _ => exact hovertakes.elim

theorem Silent.step (hsilent : threads.Silent)
    (hstepped : Stepped threads event next outs) : next.Silent ∧ outs = [] := by
  obtain ⟨hwriting, hpopped, hsending⟩ := hsilent
  cases hstepped with
  | looked message opcode hidle =>
      have hqueue : threads.session.writeQueue ≠ [] := by
        simpa [hidle] using hsending
      refine ⟨⟨hwriting, hpopped, .inr ⟨message, opcode, ?_⟩⟩, rfl⟩
      simp [hqueue]
  | pushed message opcode writeInProgress hlooked =>
      obtain rfl : writeInProgress = true := by
        simpa [hlooked] using hsending
      exact ⟨⟨hwriting, hpopped, .inl ⟨rfl, by simp⟩⟩, rfl⟩
  | started hpushed => simp [hpushed] at hsending
  | wrote frame front rest hop hqueue => simp [hwriting] at hop
  | failed frame hop => simp [hwriting] at hop
  | finished hlast => omega

/-- Some way to go on ends a write. -/
def CanWrite (threads : ThreadedSession) : Prop :=
  ∃ later last outs, run step threads later = some (last, outs) ∧ outs ≠ []

theorem CanWrite.of_step (hstepped : Stepped threads event next outs)
    (hcan : next.CanWrite) : threads.CanWrite := by
  obtain ⟨later, last, more, hrun, hmore⟩ := hcan
  refine ⟨event :: later, last, outs ++ more, ?_, by simp [hmore]⟩
  exact (run_cons_eq_some step).2
    ⟨next, outs, more, step_eq_some_iff.2 hstepped, hrun, rfl⟩

theorem canWrite_of_outs (hstepped : Stepped threads event next outs)
    (houts : outs ≠ []) : threads.CanWrite := by
  refine ⟨[event], next, outs ++ [], ?_, by simpa using houts⟩
  exact (run_cons_eq_some step).2
    ⟨next, outs, [], step_eq_some_iff.2 hstepped, rfl, rfl⟩

theorem Fronted.canWrite (hfronted : threads.Fronted)
    (hwriting : threads.session.writing ≠ []) : threads.CanWrite := by
  obtain ⟨frame, others, hcons⟩ := List.exists_cons_of_ne_nil hwriting
  have hop : frame ∈ threads.session.writing := by simp [hcons]
  obtain ⟨rest, -, hqueue⟩ := (hfronted.resolve_left hwriting).front hop
  exact canWrite_of_outs (.wrote frame frame rest hop hqueue) (by simp)

theorem canWrite_of_queue (hfronted : threads.Fronted)
    (hqueue : threads.session.writeQueue ≠ [])
    (hsomeone : 0 < threads.popped ∨ threads.sending = .pushed) :
    threads.CanWrite := by
  by_cases hwriting : threads.session.writing = []
  · have hstarts : Fronted { threads with session := threads.session.doWrite } :=
      fronted_doWrite (.inl hwriting) hfronted
    rcases hsomeone with hpopped | hpushed
    · exact .of_step (.finished hpopped)
        (Fronted.canWrite hstarts (writing_doWrite hqueue))
    · exact .of_step (.started hpushed)
        (Fronted.canWrite hstarts (writing_doWrite hqueue))
  · exact hfronted.canWrite hwriting

theorem canWrite_of_looked (hfronted : threads.Fronted) {message : ByteVector}
    {opcode : WebSocketOpCode} {writeInProgress : Bool}
    (hlooked : threads.sending = .looked message opcode writeInProgress)
    (hsomeone : writeInProgress = false ∨ 0 < threads.popped) :
    threads.CanWrite := by
  have hpushed := Stepped.pushed message opcode writeInProgress hlooked
  apply CanWrite.of_step hpushed
  apply canWrite_of_queue (hfronted.step (by trivial) hpushed) (by simp)
  rcases hsomeone with rfl | hpopped
  · exact .inr rfl
  · exact .inl hpopped

theorem canWrite_of_idle (hfronted : threads.Fronted)
    (hidle : threads.sending = .idle)
    (hqueue : threads.session.writeQueue = []) : threads.CanWrite := by
  have hlooked := Stepped.looked ⟨[], by decide⟩ .text hidle
  apply CanWrite.of_step hlooked
  exact canWrite_of_looked (hfronted.step (by trivial) hlooked) rfl
    (.inl (by simp [hqueue]))

theorem Served.canWrite (hserved : threads.Served)
    (hfronted : threads.Fronted) : threads.CanWrite := by
  by_cases hwriting : threads.session.writing = []
  · by_cases hqueue : threads.session.writeQueue = []
    · cases hsending : threads.sending with
      | idle => exact canWrite_of_idle hfronted hsending hqueue
      | looked message opcode writeInProgress =>
          refine canWrite_of_looked hfronted hsending ?_
          cases writeInProgress with
          | false => exact .inl rfl
          | true =>
              exact .inr ((hserved.relied message opcode hsending).resolve_left
                (not_not.2 hwriting))
      | pushed =>
          have hstarted := Stepped.started hsending
          rw [doWrite_of_empty hqueue] at hstarted
          exact .of_step hstarted (canWrite_of_idle hfronted rfl hqueue)
    · exact canWrite_of_queue hfronted hqueue
        ((hserved.queue hqueue).resolve_left (not_not.2 hwriting))
  · exact hfronted.canWrite hwriting

theorem silent_later (hsilent : threads.Silent) {later : List ThreadedEvent}
    {last : ThreadedSession} (hrun : run step threads later = some (last, outs)) :
    last.Silent ∧ outs = [] := by
  refine run_induction step (motive := fun _ state outs =>
    state.Silent ∧ outs = []) ⟨hsilent, rfl⟩ ?_ hrun
  rintro past state outs event next new - ⟨hstate, rfl⟩ hstep
  obtain ⟨hnext, rfl⟩ := hstate.step (step_eq_some_iff.1 hstep)
  exact ⟨hnext, rfl⟩

section Runs

variable {start : WebSocketSession} {events : List ThreadedEvent}
  {final : ThreadedSession}

theorem fronted_of_run (hquiet : start.Quiet)
    (hclean : StepsMeet step Clean (resting start) events)
    (hrun : run step (resting start) events = some (final, outs)) :
    final.Fronted :=
  hclean.invariant (fun _ _ _ _ hfronted hclean hstep =>
    hfronted.step hclean (step_eq_some_iff.1 hstep)) (.inl hquiet.writing) hrun

theorem served_of_run (hquiet : start.Quiet)
    (hclean : StepsMeet step Clean (resting start) events)
    (hkept : ¬ SomeStepMeets step Overtakes (resting start) events)
    (hrun : run step (resting start) events = some (final, outs)) :
    final.Served := by
  rw [not_someStepMeets_iff] at hkept
  have hboth : StepsMeet step (fun state event =>
      state.Clean event ∧ ¬ state.Overtakes event) (resting start) events :=
    fun past event hpast state outs hstate =>
      ⟨hclean past event hpast state outs hstate,
        hkept past event hpast state outs hstate⟩
  refine hboth.invariant (fun _ _ _ _ hserved hguard hstep =>
    hserved.step hguard.1 hguard.2 (step_eq_some_iff.1 hstep)) ?_ hrun
  exact ⟨fun hqueue => absurd hquiet.queue hqueue, by simp [resting]⟩

theorem silent_of_run
    (hovertaken : SomeStepMeets step Overtakes (resting start) events)
    (hrun : run step (resting start) events = some (final, outs)) :
    final.Silent := by
  obtain ⟨past, event, ⟨later, rfl⟩, state, first, hstate, hovertakes⟩ :=
    hovertaken
  rw [List.append_assoc, List.singleton_append] at hrun
  obtain ⟨middle, before, after, hmiddle, hrest, -⟩ :=
    (run_append_eq_some step).1 hrun
  rw [hstate, Option.some.injEq, Prod.mk.injEq] at hmiddle
  obtain ⟨rfl, -⟩ := hmiddle
  obtain ⟨next, new, more, hstep, hlater, -⟩ := (run_cons_eq_some step).1 hrest
  have hnext := silent_of_overtakes hovertakes (step_eq_some_iff.1 hstep)
  exact (silent_later hnext hlater).1

/-- However the handlers take turns, as long as no write fails and none starts
over another: nothing will ever be written again exactly if once, between the
look and the push of a `send`, the last handler of a write found the queue
empty. -/
theorem silent_iff (hquiet : start.Quiet)
    (hclean : StepsMeet step Clean (resting start) events)
    (hrun : run step (resting start) events = some (final, outs)) :
    (∀ later last more, run step final later = some (last, more) → more = []) ↔
      SomeStepMeets step Overtakes (resting start) events := by
  constructor
  · intro hnever
    by_contra hkept
    have hserved := served_of_run hquiet hclean hkept hrun
    obtain ⟨later, last, more, hlater, hmore⟩ :=
      hserved.canWrite (fronted_of_run hquiet hclean hrun)
    exact hmore (hnever later last more hlater)
  · intro hovertaken later last more hlater
    exact (silent_later (silent_of_run hovertaken hrun) hlater).2

/-- Two messages; the first write ends while the second `send` is looking. -/
def overtaken : List ThreadedEvent :=
  let message : ByteVector := ⟨[1], by decide⟩
  [.look message .binary, .push, .startWrite, .look message .text,
    .completed [0x82, 1, 1] true, .lookAgain, .push]

def overtakenSession : ThreadedSession :=
  resting { sampleSession with
    writeQueue := [[0x81, 1, 1]]
    written := sampleSession.written ++ [StreamWrite.frame [0x82, 1, 1]] }

theorem overtaken_run : run step (resting sampleSession) overtaken =
    some (overtakenSession, [[0x82, 1, 1]]) := by
  rfl

theorem overtaken_clean :
    StepsMeet step Clean (resting sampleSession) overtaken :=
  .cons trivial rfl <| .cons trivial rfl <| .cons (.inl rfl) rfl <|
    .cons trivial rfl <| .cons rfl rfl <| .cons (.inl rfl) rfl <|
    .cons trivial rfl <| stepsMeet_nil _ _

theorem silent_iff_overtaken :
    (∀ later last more,
        run step overtakenSession later = some (last, more) → more = []) ↔
      SomeStepMeets step Overtakes (resting sampleSession) overtaken :=
  silent_iff ⟨rfl, rfl, rfl⟩ overtaken_clean overtaken_run

end Runs

theorem inStep_of_writeStep {generateWebsocketAccept : List UInt8 → List UInt8}
    {session after : WebSocketSession} {event : WriteEvent}
    {calls : List Message} (hinStep : session.InStep)
    (hstep : writeStep generateWebsocketAccept session event =
      some (after, calls)) : after.InStep := by
  apply hinStep.step (stepped_of_step hstep)
  intro bytes
  cases event <;> simp [WriteEvent.toEvent]

/-- The session, as if the write of the front had been started. -/
def settled (threads : ThreadedSession) : WebSocketSession :=
  { threads.session with writing := threads.session.writeQueue.take 1 }

/-- The message of a call of `send` that has not pushed its frame yet. -/
def unpushed (threads : ThreadedSession) : List Message :=
  match threads.sending with
  | .looked message opcode _ => [(opcode, message.bytes)]
  | _ => []

theorem settled_eq_iff :
    threads.settled = threads.session ↔ threads.session.InStep := by
  obtain ⟨session, sending, popped⟩ := threads
  cases session
  simp [settled, InStep, eq_comm]

theorem settled_doWrite (session : WebSocketSession) (sending : SendCall)
    (popped : Nat) :
    settled ⟨session.doWrite, sending, popped⟩ =
      settled ⟨session, sending, popped⟩ := by
  unfold settled doWrite
  split <;> rfl

theorem send_settled (message : List UInt8) (opcode : WebSocketOpCode)
    (sending : SendCall) :
    threads.settled.send message opcode =
      settled { threads with
        session := { threads.session with
          writeQueue := threads.session.writeQueue ++
            [createWebsocketFrame message opcode] }
        sending := sending } := by
  rcases hqueue : threads.session.writeQueue with - | ⟨front, rest⟩
  · simp [settled, send, doWrite, hqueue]
  · simp [settled, send, hqueue]

/-- Where a push or a pop takes place, the handler that makes it can be taken to
run as a whole. -/
theorem run_handlerEvents
    (generateWebsocketAccept : List UInt8 → List UInt8)
    (hfronted : threads.Fronted) (hclean : threads.Clean event)
    (hstepped : Stepped threads event next outs) :
    run (writeStep generateWebsocketAccept) threads.settled
      (threads.handlerEvents event) = some (next.settled, []) := by
  cases hstepped with
  | looked message opcode hidle => rfl
  | pushed message opcode writeInProgress hlooked =>
      simp only [handlerEvents, hlooked]
      rw [← send_settled]
      rfl
  | started hpushed =>
      rw [settled_doWrite]
      rfl
  | wrote frame front rest hop hqueue =>
      have hinStep := hfronted.resolve_left (List.ne_nil_of_mem hop)
      obtain ⟨others, -, hfront⟩ := hinStep.front hop
      obtain ⟨rfl, rfl⟩ := List.cons.inj (hqueue.symm.trans hfront)
      cases rest <;>
        simp [handlerEvents, run, writeStep, WriteEvent.toEvent,
          WebSocketSession.step, complete, onFrame, doWrite, settled, hqueue]
  | failed frame hop => exact absurd hclean Bool.false_ne_true
  | finished hpopped =>
      rw [settled_doWrite]
      rfl

theorem sends_handlerEvents (hstepped : Stepped threads event next outs) :
    threads.unpushed ++ messages [event] =
      sends (threads.handlerEvents event) ++ next.unpushed := by
  cases hstepped with
  | looked message opcode hidle =>
      simp [unpushed, messages, handlerEvents, sends, hidle]
  | pushed message opcode writeInProgress hlooked =>
      cases writeInProgress <;>
        simp [unpushed, messages, handlerEvents, sends, hlooked,
          WriteEvent.sent]
  | started hpushed =>
      simp [unpushed, messages, handlerEvents, sends, hpushed]
  | wrote frame front rest hop hqueue =>
      simp [unpushed, messages, handlerEvents, sends, WriteEvent.sent]
  | failed frame hop => simp [unpushed, messages, handlerEvents, sends]
  | finished hpopped => simp [unpushed, messages, handlerEvents, sends]

section Runs

variable {generateWebsocketAccept : List UInt8 → List UInt8}
  {start : WebSocketSession} {events : List ThreadedEvent}
  {final : ThreadedSession}

theorem sends_of_run
    (hrun : run step (resting start) events = some (final, outs)) :
    sends (partEvents step handlerEvents (resting start) events) ++
      final.unpushed = messages events := by
  refine run_induction step (motive := fun past state _ =>
    sends (partEvents step handlerEvents (resting start) past) ++
      state.unpushed = messages past) rfl ?_ hrun
  intro past state first event next new hpast hstate hstep
  have hone := sends_handlerEvents (step_eq_some_iff.1 hstep)
  rw [partEvents_concat step handlerEvents hpast, sends, List.flatMap_append,
    List.append_assoc]
  calc
    sends (partEvents step handlerEvents (resting start) past) ++
          (sends (state.handlerEvents event) ++ next.unpushed) =
        messages past ++ messages [event] := by
      rw [← hone, ← List.append_assoc, hstate]
    _ = messages (past ++ [event]) := List.flatMap_append.symm

theorem settled_of_run (hquiet : start.Quiet)
    (hclean : StepsMeet step Clean (resting start) events)
    (hrun : run step (resting start) events = some (final, outs)) :
    run (writeStep generateWebsocketAccept) start
      (partEvents step handlerEvents (resting start) events) =
        some (final.settled, []) := by
  induction events using List.reverseRecOn generalizing final outs with
  | nil =>
      obtain ⟨rfl, -⟩ := (run_nil_eq_some step).1 hrun
      have hsettled : (resting start).settled = start :=
        settled_eq_iff.2 (by rw [InStep]; simp [resting, hquiet.writing, hquiet.queue])
      rw [hsettled]
      rfl
  | append_singleton past event ih =>
      obtain ⟨state, first, new, hpast, hstep, -⟩ :=
        (run_concat_eq_some step).1 hrun
      have hbefore := hclean.of_isPrefix (List.prefix_append past [event])
      have hone := run_handlerEvents generateWebsocketAccept
        (fronted_of_run hquiet hbefore hpast)
        (hclean past event List.prefix_rfl state first hpast)
        (step_eq_some_iff.1 hstep)
      exact run_part_concat hpast (ih hbefore hpast) hone

/-- As long as no write fails and none starts over another, a session whose
handlers have all returned is one that they make one after the other, for the
same messages, exactly if no call of `send` was overtaken. -/
theorem serializable_iff (hquiet : start.Quiet)
    (hclean : StepsMeet step Clean (resting start) events)
    (hrun : run step (resting start) events = some (final, outs))
    (hidle : final.sending = .idle) (hpopped : final.popped = 0) :
    (∃ handlers, sends handlers = messages events ∧
        run (writeStep generateWebsocketAccept) start handlers =
          some (final.session, [])) ↔
      ¬ SomeStepMeets step Overtakes (resting start) events := by
  constructor
  · rintro ⟨handlers, -, hhandlers⟩ hovertaken
    have hsilent := silent_of_run hovertaken hrun
    have hinStep : final.session.InStep :=
      run_preserves _ (fun _ _ _ _ => inStep_of_writeStep)
        hquiet.outgoing.inStep hhandlers
    have hqueue : final.session.writeQueue ≠ [] := by
      simpa [hidle] using hsilent.sending
    rw [InStep, hsilent.writing, eq_comm, List.take_eq_nil_iff] at hinStep
    exact hinStep.elim (by decide) hqueue
  · intro hkept
    have hserved := served_of_run hquiet hclean hkept hrun
    have hinStep : final.session.InStep := by
      rcases fronted_of_run hquiet hclean hrun with hwriting | hinStep
      · by_contra hout
        have hqueue : final.session.writeQueue ≠ [] := by
          intro hempty
          exact hout (by simp [InStep, hwriting, hempty])
        simpa [hwriting, hpopped, hidle] using hserved.queue hqueue
      · exact hinStep
    refine ⟨partEvents step handlerEvents (resting start) events, ?_, ?_⟩
    · have hsends := sends_of_run hrun
      simpa [unpushed, hidle] using hsends
    · rw [settled_of_run hquiet hclean hrun, settled_eq_iff.2 hinStep]

theorem serializable_iff_overtaken :
    (∃ handlers, sends handlers = messages overtaken ∧
        run (writeStep sampleAccept) sampleSession handlers =
          some (overtakenSession.session, [])) ↔
      ¬ SomeStepMeets step Overtakes (resting sampleSession) overtaken :=
  serializable_iff ⟨rfl, rfl, rfl⟩ overtaken_clean overtaken_run rfl rfl

end Runs

/-- The operations of a handler that runs on its own. -/
def turns (session : WebSocketSession) : WriteEvent → List ThreadedEvent
  | .send message opcode =>
      [.look message opcode, .push] ++
        if session.writeQueue.isEmpty then [.startWrite] else []
  | .written frame => [.completed frame true, .lookAgain]

theorem run_turns {generateWebsocketAccept : List UInt8 → List UInt8}
    {session after : WebSocketSession} {event : WriteEvent}
    {calls : List Message} (hinStep : session.InStep)
    (hstep : writeStep generateWebsocketAccept session event =
      some (after, calls)) :
    ∃ outs, run step (resting session) (turns session event) =
      some (resting after, outs) := by
  cases event with
  | send message opcode =>
      simp only [writeStep, WriteEvent.toEvent, WebSocketSession.step,
        Option.some.injEq, Prod.mk.injEq] at hstep
      obtain ⟨rfl, -⟩ := hstep
      rcases hqueue : session.writeQueue with - | ⟨front, rest⟩
      · exact ⟨[], by simp [turns, run, step, resting, send, hqueue]⟩
      · exact ⟨[], by simp [turns, run, step, resting, send, hqueue]⟩
  | written frame =>
      have hop : frame ∈ session.writing := by
        by_contra hnone
        simp [writeStep, WriteEvent.toEvent, WebSocketSession.step, complete,
          hnone] at hstep
      obtain ⟨rest, hwriting, hqueue⟩ := hinStep.front hop
      simp only [writeStep, WriteEvent.toEvent, WebSocketSession.step, complete,
        hop, ↓reduceIte, Option.some.injEq, Prod.mk.injEq] at hstep
      obtain ⟨rfl, -⟩ := hstep
      exact ⟨[frame], by
        simp [turns, run, step, resting, onFrame, hop, hqueue]⟩

/-- Handlers that run one after the other are one of the orders. -/
theorem run_resting {generateWebsocketAccept : List UInt8 → List UInt8}
    {start final : WebSocketSession} {handlers : List WriteEvent}
    {calls : List Message} (hquiet : start.Quiet)
    (hrun : run (writeStep generateWebsocketAccept) start handlers =
      some (final, calls)) :
    ∃ outs, run step (resting start)
      (partEvents (writeStep generateWebsocketAccept) turns start handlers) =
        some (resting final, outs) := by
  have hall : final.InStep ∧ ∃ outs, run step (resting start)
      (partEvents (writeStep generateWebsocketAccept) turns start handlers) =
        some (resting final, outs) := by
    refine run_induction _ (motive := fun past state _ =>
      state.InStep ∧ ∃ outs, run step (resting start)
        (partEvents (writeStep generateWebsocketAccept) turns start past) =
          some (resting state, outs)) ⟨hquiet.outgoing.inStep, [], rfl⟩ ?_ hrun
    rintro past state outs event next new hpast ⟨hinStep, shown, hshown⟩ hstep
    obtain ⟨more, hmore⟩ := run_turns hinStep hstep
    exact ⟨inStep_of_writeStep hinStep hstep, shown ++ more,
      run_part_concat hpast hshown hmore⟩
  exact hall.2

/-- No write fails, and no call of `send` looks at an empty queue when a handler
of a write still has to. -/
def Apart (threads : ThreadedSession) : ThreadedEvent → Prop
  | .look _ _ => threads.session.writeQueue = [] → threads.popped = 0
  | .completed _ ok => ok = true
  | _ => True

/-- Whether a call of `send` is going to start a write. -/
def starting : SendCall → Nat
  | .looked _ _ false => 1
  | .pushed => 1
  | _ => 0

/-- At most one of the writes, the handlers and the call of `send` is left to
start the next write. -/
structure Alone (threads : ThreadedSession) : Prop where
  fronted : threads.Fronted
  one : threads.session.writing.length + threads.popped +
    starting threads.sending ≤ 1

theorem length_doWrite_le (session : WebSocketSession) :
    session.doWrite.writing.length ≤ session.writing.length + 1 := by
  unfold doWrite
  split <;> simp

theorem Alone.clean (halone : threads.Alone) (hapart : threads.Apart event)
    (hstepped : Stepped threads event next outs) : threads.Clean event := by
  have hone := halone.one
  cases hstepped with
  | looked message opcode hidle => trivial
  | pushed message opcode writeInProgress hlooked => trivial
  | started hpushed =>
      left
      rw [hpushed, starting] at hone
      exact List.length_eq_zero_iff.1 (by omega)
  | wrote frame front rest hop hqueue => rfl
  | failed frame hop => exact hapart
  | finished hpopped => exact .inl (List.length_eq_zero_iff.1 (by omega))

theorem Alone.step (halone : threads.Alone) (hapart : threads.Apart event)
    (hstepped : Stepped threads event next outs) : next.Alone := by
  refine ⟨halone.fronted.step (halone.clean hapart hstepped) hstepped, ?_⟩
  have hone := halone.one
  cases hstepped with
  | looked message opcode hidle =>
      rcases hqueue : threads.session.writeQueue with - | ⟨front, rest⟩
      · have hwriting : threads.session.writing = [] := by
          rcases halone.fronted with hwriting | hinStep
          · exact hwriting
          · rw [InStep, hqueue] at hinStep
            exact hinStep
        have hpopped : threads.popped = 0 := hapart hqueue
        simp [starting, hwriting, hpopped]
      · simp only [List.isEmpty_cons, Bool.not_false, starting]
        omega
  | pushed message opcode writeInProgress hlooked =>
      rw [hlooked] at hone
      cases writeInProgress <;> exact hone
  | started hpushed =>
      rw [hpushed, starting] at hone
      have hlength := length_doWrite_le threads.session
      simp only [starting]
      omega
  | wrote frame front rest hop hqueue =>
      have hlength := List.length_erase_of_mem hop
      have hpos := List.length_pos_of_mem hop
      simp only [hlength]
      omega
  | failed frame hop => exact absurd hapart Bool.false_ne_true
  | finished hpopped =>
      have hlength := length_doWrite_le threads.session
      simp only
      omega

/-- As long as no write fails, and no call of `send` looks at the empty queue
between a pop and the look behind it, at most one write is outstanding at any
time. -/
theorem one_write_of_apart {start : WebSocketSession}
    {events : List ThreadedEvent} {final : ThreadedSession}
    (hquiet : start.Quiet)
    (hapart : StepsMeet step Apart (resting start) events)
    (hrun : run step (resting start) events = some (final, outs)) :
    Along step (fun state => state.session.writing.length ≤ 1) (resting start)
        events ∧
      StepsMeet step Clean (resting start) events := by
  have halone : Along step Alone (resting start) events := by
    intro past hpast state first hstate
    refine (hapart.of_isPrefix hpast).invariant (fun _ _ _ _ hbefore hguard
      hstep => hbefore.step hguard (step_eq_some_iff.1 hstep)) ?_ hstate
    exact ⟨.inl hquiet.writing, by simp [resting, hquiet.writing, starting]⟩
  constructor
  · intro past hpast state first hstate
    have hone := (halone past hpast state first hstate).one
    omega
  · intro past event hpast state first hstate
    obtain ⟨last, shown, hlast⟩ := run_isPrefix hrun hpast
    obtain ⟨middle, before, new, hmiddle, hstep, -⟩ :=
      (run_concat_eq_some step).1 hlast
    rw [hstate, Option.some.injEq, Prod.mk.injEq] at hmiddle
    obtain ⟨rfl, -⟩ := hmiddle
    exact (halone past ((List.prefix_append _ _).trans hpast) state first
      hstate).clean (hapart past event hpast state first hstate)
      (step_eq_some_iff.1 hstep)

/-- Two messages; the second `send` looks once the handler of the first write has
returned. -/
def apart : List ThreadedEvent :=
  let message : ByteVector := ⟨[1], by decide⟩
  [.look message .binary, .push, .startWrite, .completed [0x82, 1, 1] true,
    .lookAgain, .look message .text, .push, .startWrite]

def apartSession : ThreadedSession :=
  resting { sampleSession with
    writing := [[0x81, 1, 1]]
    writeQueue := [[0x81, 1, 1]]
    written := sampleSession.written ++ [StreamWrite.frame [0x82, 1, 1]] }

theorem one_write_of_apart_two :
    Along step (fun state => state.session.writing.length ≤ 1)
        (resting sampleSession) apart ∧
      StepsMeet step Clean (resting sampleSession) apart := by
  have hrun : run step (resting sampleSession) apart =
      some (apartSession, [[0x82, 1, 1]]) := by
    rfl
  have hapart : StepsMeet step Apart (resting sampleSession) apart :=
    .cons (fun _ => rfl) rfl <| .cons trivial rfl <| .cons trivial rfl <|
      .cons rfl rfl <| .cons trivial rfl <| .cons (fun _ => rfl) rfl <|
      .cons trivial rfl <| .cons trivial rfl <| stepsMeet_nil _ _
  exact one_write_of_apart ⟨rfl, rfl, rfl⟩ hapart hrun

/-- A call of `send` that does look there can have its frame written twice at
the same time. -/
theorem twice_of_overlap (hidle : threads.sending = .idle)
    (hqueue : threads.session.writeQueue = [])
    (hwriting : threads.session.writing = []) (hpopped : 0 < threads.popped)
    (message : ByteVector) (opcode : WebSocketOpCode) :
    ∃ last, run step threads
        [.look message opcode, .push, .lookAgain, .startWrite] =
          some (last, []) ∧
      last.session.writing = [createWebsocketFrame message.bytes opcode,
        createWebsocketFrame message.bytes opcode] := by
  simp [run, step, hidle, hqueue, hwriting, hpopped, doWrite]

end ThreadedSession

end VoiceServer

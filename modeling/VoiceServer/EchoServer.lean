/-
The echo server: `WebSocketServer` with the handler of `basic_text`, which sends
every message back to its session.  Each client gets the messages it got through,
and the broadcasts since it came, and nothing of another client.  Handlers run one
after the other here, as they do on a pool of one thread.
-/
import VoiceServer.AcceptValue
import VoiceServer.ReadOutcome
import VoiceServer.ServerRefinement
import VoiceServer.UpgradeOrder

namespace VoiceServer

namespace WebSocketSession

/-- The buffers written ahead of the response. -/
def beforeResponse (written : List StreamWrite) : List StreamWrite :=
  written.takeWhile fun write => (responseIn write).isNone

/-- The buffers written behind the response, if it has been written. -/
def behindResponse (written : List StreamWrite) : List StreamWrite :=
  (written.dropWhile fun write => (responseIn write).isNone).tail

theorem beforeResponse_append {written : List StreamWrite}
    {response : List UInt8} (hresponse : .response response ∈ written)
    (more : List StreamWrite) :
    beforeResponse (written ++ more) = beforeResponse written := by
  induction written with
  | nil => exact absurd hresponse List.not_mem_nil
  | cons write rest ih =>
      cases write with
      | response bytes => rfl
      | frame bytes =>
          have hrest : .response response ∈ rest := by
            simpa using hresponse
          exact congrArg (StreamWrite.frame bytes :: ·) (ih hrest)

theorem frames_of_no_response {written : List StreamWrite}
    (hnone : written.filterMap responseIn = []) :
    written = (written.filterMap frameIn).map .frame := by
  induction written with
  | nil => rfl
  | cons write rest ih =>
      cases write with
      | response bytes => simp [responseIn] at hnone
      | frame bytes => exact congrArg (StreamWrite.frame bytes :: ·) (ih hnone)

/-- One response at most: all other buffers are frames. -/
theorem written_frames {written : List StreamWrite}
    (hone : (written.filterMap responseIn).length ≤ 1) :
    ∃ early late : List (List UInt8),
      beforeResponse written = early.map .frame ∧
      behindResponse written = late.map .frame ∧
      written.filterMap frameIn = early ++ late := by
  induction written with
  | nil => exact ⟨[], [], rfl, rfl, rfl⟩
  | cons write rest ih =>
      cases write with
      | response bytes =>
          have hrest : (rest.filterMap responseIn).length + 1 ≤ 1 := hone
          have hnone : rest.filterMap responseIn = [] :=
            List.length_eq_zero_iff.1 (by omega)
          exact ⟨[], rest.filterMap frameIn, rfl, frames_of_no_response hnone,
            rfl⟩
      | frame bytes =>
          obtain ⟨early, late, hearly, hlate, hframes⟩ := ih hone
          refine ⟨bytes :: early, late, ?_, hlate, ?_⟩
          · exact congrArg (StreamWrite.frame bytes :: ·) hearly
          · exact congrArg (bytes :: ·) hframes

/-- Frames are read only behind the response. -/
theorem upgraded_of_reading {generateWebsocketAccept : List UInt8 → List UInt8}
    {uuid : String} {useSsl : Bool} {events : List SessionEvent}
    {final : WebSocketSession} {calls : List Message}
    (hrun : run (step generateWebsocketAccept) (new uuid useSsl).start events =
      some (final, calls))
    (hreading : .frames ∈ final.reading) : final.Upgraded := by
  refine run_preserves _ (P := fun session : WebSocketSession =>
    .frames ∈ session.reading → session.Upgraded) ?_ ?_ hrun hreading
  · intro session event next outs hkept hstep
    have hstepped := stepped_of_step hstep
    have hbefore : .frames ∈ session.reading → next.Upgraded :=
      fun hmem => (hkept hmem).step hstepped
    cases hstepped with
    | upgraded bytes hop =>
        exact fun _ => ⟨bytes, List.mem_append_right _ (List.mem_singleton_self _)⟩
    | received bytes hop => exact fun _ => hbefore hop
    | secured hop =>
        intro hmem
        simp only [List.mem_append, List.mem_singleton, reduceCtorEq,
          or_false] at hmem
        exact hbefore (List.mem_of_mem_erase hmem)
    | answered request response hop hkey =>
        exact fun hmem => hbefore (List.mem_of_mem_erase hmem)
    | readFailed op completion error hop hfailed hread =>
        exact fun hmem => hbefore (List.mem_of_mem_erase hmem)
    | _ => exact hbefore
  · cases useSsl <;> simp [new, start, doHandshake, doSslHandshake]

end WebSocketSession

structure EchoServer where
  useSsl : Bool
  sessions : List WebSocketSession
deriving DecidableEq, Repr

/-- The completions the server waits for, and the calls of `broadcast`.  A
`std::string` is shorter than `2 ^ 63` bytes. -/
inductive EchoEvent where
  | accepted (uuid : String)
  | acceptFailed
  | completed (session : Nat) (completion : Completion)
  | broadcast (message : List UInt8) (opcode : WebSocketOpCode)
      (fits : message.length < 2 ^ 63)

/-- A message handed to the handler of `main`, or broadcast to the sessions
accepted so far. -/
inductive EchoCall where
  | received (session : Nat) (message : Message)
  | broadcast (count : Nat) (message : Message)
deriving DecidableEq, Repr

namespace EchoServer

def new (useSsl : Bool) : EchoServer :=
  ⟨useSsl, []⟩

def doAccept (server : EchoServer) (uuid : String) : EchoServer :=
  { server with sessions :=
      server.sessions ++ [(WebSocketSession.new uuid server.useSsl).start] }

/-- The message handler of `main`. -/
def onMessage (session : WebSocketSession) (message : Message) :
    WebSocketSession :=
  session.send message.2 message.1

def sendAll (server : EchoServer) (message : List UInt8)
    (opcode : WebSocketOpCode) : EchoServer :=
  { server with sessions := server.sessions.map (·.send message opcode) }

section Step

variable (generateWebsocketAccept : List UInt8 → List UInt8)

/-- One handler, which runs to its end before the next one starts, or one call of
`broadcast`.  `handle_frame` sends before `do_read` is called again, which touches
nothing that `send` does. -/
def step (server : EchoServer) :
    EchoEvent → Option (EchoServer × List EchoCall)
  | .accepted uuid => some (server.doAccept uuid, [])
  | .acceptFailed => some (server, [])
  | .completed index completion =>
      (server.sessions[index]?).bind fun session =>
        (session.complete generateWebsocketAccept completion).map fun done =>
          ({ server with sessions :=
              server.sessions.set index (done.2.foldl onMessage done.1) },
            done.2.map (.received index))
  | .broadcast message opcode _ =>
      some (server.sendAll message opcode,
        [.broadcast server.sessions.length (opcode, message)])

end Step

/-- The message that a call sends to one session. -/
def sentBy (index : Nat) : EchoCall → Option Message
  | .received session message => if session = index then some message else none
  | .broadcast count message => if index < count then some message else none

/-- The messages for one session. -/
def messagesTo (index : Nat) (calls : List EchoCall) : List Message :=
  calls.filterMap (sentBy index)

theorem messagesTo_append (index : Nat) (before after : List EchoCall) :
    messagesTo index (before ++ after) =
      messagesTo index before ++ messagesTo index after :=
  List.filterMap_append ..

theorem messagesTo_received (index other : Nat) (messages : List Message) :
    messagesTo index (messages.map (.received other)) =
      if other = index then messages else [] := by
  induction messages with
  | nil => simp [messagesTo]
  | cons message rest ih =>
      rw [List.map_cons, messagesTo, List.filterMap_cons, ← messagesTo, ih,
        sentBy]
      by_cases hsame : other = index
      · simp only [hsame, if_true]
      · simp only [hsame, if_false]

theorem messagesTo_broadcast (index count : Nat) (message : Message) :
    messagesTo index [.broadcast count message] =
      if index < count then [message] else [] := by
  by_cases hold : index < count
  · simp [messagesTo, sentBy, hold]
  · simp [messagesTo, sentBy, hold]

section Steps

variable {generateWebsocketAccept : List UInt8 → List UInt8}
  {useSsl : Bool} {server next : EchoServer} {calls : List EchoCall}

/-- Ahead of its response a session has nothing to send back: what is written
there was broadcast. -/
structure Early (index : Nat) (calls : List EchoCall)
    (session : WebSocketSession) : Prop where
  silent : ¬ session.Upgraded → ∀ message, .received index message ∉ calls
  broadcast : ∀ message ∈ (messagesTo index calls).take
      (WebSocketSession.beforeResponse session.written).length,
    ∃ count, .broadcast count message ∈ calls

/-- Each session is where a run of its own leads that sends the messages for it
and nothing else; they can all be framed. -/
structure Echoed (generateWebsocketAccept : List UInt8 → List UInt8)
    (useSsl : Bool) (calls : List EchoCall) (server : EchoServer) : Prop where
  useSsl_eq : server.useSsl = useSsl
  future : ∀ index, server.sessions.length ≤ index →
    messagesTo index calls = []
  fed : ∀ index session, server.sessions[index]? = some session →
    ∃ completions, VoiceChatServer.Fed generateWebsocketAccept useSsl
      completions (messagesTo index calls) session
  early : ∀ index session, server.sessions[index]? = some session →
    Early index calls session
  fits : ∀ index, ∀ message ∈ messagesTo index calls,
    message.2.length < 2 ^ 63

/-- The messages of a session: those written ahead of its response, those written
behind it, and those that wait. -/
theorem parts_of_fed {completions : List Completion} {messages : List Message}
    {session : WebSocketSession}
    (hfed : VoiceChatServer.Fed generateWebsocketAccept useSsl completions
      messages session) :
    ∃ early done waiting, early ++ done ++ waiting = messages ∧
      WebSocketSession.beforeResponse session.written =
        early.map (fun message => .frame (WebSocketSession.frameOf message)) ∧
      WebSocketSession.behindResponse session.written =
        done.map (fun message => .frame (WebSocketSession.frameOf message)) ∧
      session.writeQueue = waiting.map WebSocketSession.frameOf := by
  obtain ⟨own, received, hown, -, hsent⟩ := hfed
  have hframes := (WebSocketSession.framesKept_of_run hown).frames
  have hanswered := WebSocketSession.answered_of_run hown
  have hone : (session.written.filterMap WebSocketSession.responseIn).length ≤ 1 :=
    (List.sublist_append_left _ _).length_le.trans hanswered.length_le
  obtain ⟨before, behind, hbefore, hbehind, hwritten⟩ :=
    WebSocketSession.written_frames hone
  rw [hsent, hwritten] at hframes
  obtain ⟨written, waiting, rfl, hsame, hwaiting⟩ :=
    List.map_eq_append_iff.1 hframes.symm
  obtain ⟨early, done, rfl, hearly, hdone⟩ := List.map_eq_append_iff.1 hsame
  refine ⟨early, done, waiting, rfl, ?_, ?_, hwaiting.symm⟩
  · rw [hbefore, ← hearly, List.map_map]
    rfl
  · rw [hbehind, ← hdone, List.map_map]
    rfl

theorem length_beforeResponse_le {completions : List Completion}
    {messages : List Message} {session : WebSocketSession}
    (hfed : VoiceChatServer.Fed generateWebsocketAccept useSsl completions
      messages session) :
    (WebSocketSession.beforeResponse session.written).length ≤
      messages.length := by
  obtain ⟨early, done, waiting, rfl, hearly, -, -⟩ := parts_of_fed hfed
  rw [hearly, List.length_map, List.length_append, List.length_append]
  omega

/-- A step of the session, or a call for another one. -/
theorem Early.step {index : Nat} {session after : WebSocketSession}
    (hearly : Early index calls session)
    (hlength : (WebSocketSession.beforeResponse session.written).length ≤
      (messagesTo index calls).length)
    (hwritten : session.written <+: after.written) {more : List EchoCall}
    (hmore : ¬ session.Upgraded → ∀ message, .received index message ∉ more) :
    Early index (calls ++ more) after := by
  by_cases hupgraded : session.Upgraded
  · refine ⟨fun hnot => absurd (hupgraded.of_isPrefix hwritten) hnot, ?_⟩
    obtain ⟨rest, hrest⟩ := hwritten
    obtain ⟨response, hresponse⟩ := hupgraded
    intro message hmessage
    rw [← hrest, WebSocketSession.beforeResponse_append hresponse,
      messagesTo_append, List.take_append_of_le_length hlength] at hmessage
    obtain ⟨count, hcount⟩ := hearly.broadcast message hmessage
    exact ⟨count, List.mem_append_left _ hcount⟩
  · have hnone : ∀ message, .received index message ∉ calls ++ more := by
      intro message hmem
      rcases List.mem_append.1 hmem with hold | hnew
      · exact hearly.silent hupgraded message hold
      · exact hmore hupgraded message hnew
    refine ⟨fun _ => hnone, ?_⟩
    intro message hmessage
    obtain ⟨call, hcall, hsent⟩ :=
      List.mem_filterMap.1 (List.mem_of_mem_take hmessage)
    cases call with
    | received other one =>
        obtain ⟨rfl, rfl⟩ : other = index ∧ one = message := by
          simpa [sentBy] using hsent
        exact absurd hcall (hnone one)
    | broadcast count one =>
        obtain ⟨-, rfl⟩ : index < count ∧ one = message := by
          simpa [sentBy] using hsent
        exact ⟨count, hcall⟩

/-- The messages of one read, sent back one after the other. -/
theorem fed_foldl_onMessage {completions : List Completion}
    {messages received : List Message} {session : WebSocketSession}
    (hfed : VoiceChatServer.Fed generateWebsocketAccept useSsl completions
      messages session) :
    VoiceChatServer.Fed generateWebsocketAccept useSsl completions
      (messages ++ received) (received.foldl onMessage session) := by
  induction received generalizing messages session with
  | nil => rwa [List.append_nil]
  | cons message rest ih =>
      have hsend : session.step generateWebsocketAccept
          (.send message.2 message.1) = some (onMessage session message, []) :=
        rfl
      have hsent := hfed.step hsend
      rw [SessionEvent.completion, Option.toList_none, List.append_nil] at hsent
      have hrest := ih hsent
      rwa [SessionEvent.sent, Option.toList_some, List.append_assoc,
        List.singleton_append] at hrest

theorem written_foldl_onMessage (received : List Message)
    (session : WebSocketSession) :
    (received.foldl onMessage session).written = session.written := by
  induction received generalizing session with
  | nil => rfl
  | cons message rest ih =>
      rw [List.foldl_cons, ih]
      exact (session.send_frame message.2 message.1).1

/-- Only a read of frames hands messages over. -/
theorem reading_of_complete {session after : WebSocketSession}
    {completion : Completion} {messages : List Message}
    (hcomplete : session.complete generateWebsocketAccept completion =
      some (after, messages)) {message : Message} (hmessage : message ∈ messages) :
    .frames ∈ session.reading := by
  have hnone : messages = [] → .frames ∈ session.reading := by
    rintro rfl
    exact absurd hmessage List.not_mem_nil
  cases completion with
  | sslHandshake ok => exact hnone (by simp_all [WebSocketSession.complete])
  | request bytes => exact hnone (by simp_all [WebSocketSession.complete])
  | response bytes ok => exact hnone (by simp_all [WebSocketSession.complete])
  | frame bytes ok => exact hnone (by simp_all [WebSocketSession.complete])
  | frames bytes =>
      rw [WebSocketSession.complete, Option.ite_none_right_eq_some] at hcomplete
      exact hcomplete.1.1

theorem length_of_complete {session after : WebSocketSession}
    {completion : Completion} {messages : List Message}
    (hcomplete : session.complete generateWebsocketAccept completion =
      some (after, messages)) :
    ∀ message ∈ messages, message.2.length < 2 ^ 63 := by
  have hnone : messages = [] → ∀ message ∈ messages,
      message.2.length < 2 ^ 63 := by
    rintro rfl message hmessage
    exact absurd hmessage List.not_mem_nil
  cases completion with
  | sslHandshake ok => exact hnone (by simp_all [WebSocketSession.complete])
  | request bytes => exact hnone (by simp_all [WebSocketSession.complete])
  | response bytes ok => exact hnone (by simp_all [WebSocketSession.complete])
  | frame bytes ok => exact hnone (by simp_all [WebSocketSession.complete])
  | frames bytes =>
      rw [WebSocketSession.complete, Option.ite_none_right_eq_some] at hcomplete
      cases bytes with
      | none =>
          exact hnone (by simp_all [WebSocketSession.onFrames])
      | some bytes =>
          rcases hcomplete with ⟨⟨-, hsize⟩, hdone⟩
          simp only [WebSocketSession.onFrames, Option.map_eq_some_iff,
            Prod.mk.injEq] at hdone
          rcases hdone with ⟨_, hreads, -, rfl⟩
          intro message hmessage
          have hle := length_of_readCalls (hsize bytes rfl).2 hreads message
            hmessage
          exact Nat.lt_of_le_of_lt hle (by decide)

theorem Echoed.accepted
    (hechoed : Echoed generateWebsocketAccept useSsl calls server)
    (uuid : String) :
    Echoed generateWebsocketAccept useSsl calls (server.doAccept uuid) := by
  have hsessions : (server.doAccept uuid).sessions =
      server.sessions ++ [(WebSocketSession.new uuid useSsl).start] := by
    rw [← hechoed.useSsl_eq]
    rfl
  refine ⟨hechoed.useSsl_eq, ?_, ?_, ?_, hechoed.fits⟩
  · intro index hindex
    rw [hsessions, List.length_append] at hindex
    exact hechoed.future index (by omega)
  · intro index session hsession
    rw [hsessions] at hsession
    rcases Nat.lt_or_ge index server.sessions.length with hold | hnew
    · rw [List.getElem?_append_left hold] at hsession
      exact hechoed.fed index session hsession
    · rw [List.getElem?_append_right hnew] at hsession
      obtain rfl := List.mem_singleton.1 (List.mem_of_getElem? hsession)
      rw [hechoed.future index hnew]
      exact ⟨[], VoiceChatServer.fed_new _ useSsl uuid⟩
  · intro index session hsession
    rw [hsessions] at hsession
    rcases Nat.lt_or_ge index server.sessions.length with hold | hnew
    · rw [List.getElem?_append_left hold] at hsession
      exact hechoed.early index session hsession
    · rw [List.getElem?_append_right hnew] at hsession
      obtain rfl := List.mem_singleton.1 (List.mem_of_getElem? hsession)
      have hfuture := hechoed.future index hnew
      refine ⟨fun _ message hmessage => ?_, ?_⟩
      · have hmem : message ∈ messagesTo index calls :=
          List.mem_filterMap.2 ⟨_, hmessage, if_pos rfl⟩
        rw [hfuture] at hmem
        exact absurd hmem List.not_mem_nil
      · intro message hmessage
        rw [hfuture, List.take_nil] at hmessage
        exact absurd hmessage List.not_mem_nil

theorem Echoed.completed
    (hechoed : Echoed generateWebsocketAccept useSsl calls server)
    {index : Nat} {completion : Completion} {session after : WebSocketSession}
    {messages : List Message}
    (hsession : server.sessions[index]? = some session)
    (hcomplete : session.complete generateWebsocketAccept completion =
      some (after, messages)) :
    Echoed generateWebsocketAccept useSsl
      (calls ++ messages.map (.received index))
      { server with sessions :=
          server.sessions.set index (messages.foldl onMessage after) } := by
  have hindex : index < server.sessions.length :=
    (List.getElem?_eq_some_iff.1 hsession).1
  refine ⟨hechoed.useSsl_eq, ?_, ?_, ?_, ?_⟩
  · intro other hother
    have hlength : server.sessions.length ≤ other := by
      simpa using hother
    rw [messagesTo_append, messagesTo_received,
      if_neg (show index ≠ other by omega), List.append_nil]
    exact hechoed.future other hlength
  · intro other reached hreached
    rw [messagesTo_append, messagesTo_received]
    by_cases hsame : index = other
    · subst hsame
      obtain ⟨completions, hfed⟩ := hechoed.fed index session hsession
      have hstep : session.step generateWebsocketAccept (.complete completion) =
          some (after, messages) := hcomplete
      have hafter := hfed.step hstep
      rw [SessionEvent.sent, Option.toList_none, List.append_nil] at hafter
      have hlast : messages.foldl onMessage after = reached := by
        simpa [hindex] using hreached
      rw [if_pos rfl, ← hlast]
      exact ⟨_, fed_foldl_onMessage hafter⟩
    · rw [List.getElem?_set_ne hsame] at hreached
      rw [if_neg hsame, List.append_nil]
      exact hechoed.fed other reached hreached
  · intro other reached hreached
    by_cases hsame : index = other
    · subst hsame
      obtain ⟨completions, hfed⟩ := hechoed.fed index session hsession
      have hlast : messages.foldl onMessage after = reached := by
        simpa [hindex] using hreached
      have hstep : session.step generateWebsocketAccept (.complete completion) =
          some (after, messages) := hcomplete
      refine (hechoed.early index session hsession).step
        (length_beforeResponse_le hfed) ?_ ?_
      · rw [← hlast, written_foldl_onMessage]
        exact WebSocketSession.written_isPrefix
          (WebSocketSession.stepped_of_step hstep)
      · intro hnot message hmessage
        obtain ⟨one, hone, -⟩ := List.mem_map.1 hmessage
        obtain ⟨own, received, hown, -, -⟩ := hfed
        exact hnot (WebSocketSession.upgraded_of_reading hown
          (reading_of_complete hcomplete hone))
    · rw [List.getElem?_set_ne hsame] at hreached
      obtain ⟨completions, hfed⟩ := hechoed.fed other reached hreached
      refine (hechoed.early other reached hreached).step
        (length_beforeResponse_le hfed) List.prefix_rfl ?_
      intro _ message hmessage
      obtain ⟨one, -, heq⟩ := List.mem_map.1 hmessage
      exact hsame (EchoCall.received.inj heq).1
  · intro other message hmessage
    rw [messagesTo_append, messagesTo_received, List.mem_append] at hmessage
    rcases hmessage with hold | hnew
    · exact hechoed.fits other message hold
    · by_cases hsame : index = other
      · rw [if_pos hsame] at hnew
        exact length_of_complete hcomplete message hnew
      · rw [if_neg hsame] at hnew
        exact absurd hnew List.not_mem_nil

theorem Echoed.broadcast
    (hechoed : Echoed generateWebsocketAccept useSsl calls server)
    {message : List UInt8} (opcode : WebSocketOpCode)
    (hfits : message.length < 2 ^ 63) :
    Echoed generateWebsocketAccept useSsl
      (calls ++ [.broadcast server.sessions.length (opcode, message)])
      (server.sendAll message opcode) := by
  have hlength : (server.sendAll message opcode).sessions.length =
      server.sessions.length := List.length_map ..
  refine ⟨hechoed.useSsl_eq, ?_, ?_, ?_, ?_⟩
  · intro index hindex
    rw [hlength] at hindex
    rw [messagesTo_append, messagesTo_broadcast,
      if_neg (Nat.not_lt.2 hindex), List.append_nil]
    exact hechoed.future index hindex
  · intro index session hsession
    rw [sendAll, List.getElem?_map, Option.map_eq_some_iff] at hsession
    rcases hsession with ⟨before, hbefore, rfl⟩
    have hindex := (List.getElem?_eq_some_iff.1 hbefore).1
    obtain ⟨completions, hfed⟩ := hechoed.fed index before hbefore
    have hsend : before.step generateWebsocketAccept (.send message opcode) =
        some (before.send message opcode, []) := rfl
    rw [messagesTo_append, messagesTo_broadcast, if_pos hindex]
    exact ⟨_, hfed.step hsend⟩
  · intro index session hsession
    rw [sendAll, List.getElem?_map, Option.map_eq_some_iff] at hsession
    rcases hsession with ⟨before, hbefore, rfl⟩
    obtain ⟨completions, hfed⟩ := hechoed.fed index before hbefore
    refine (hechoed.early index before hbefore).step
      (length_beforeResponse_le hfed) ?_ ?_
    · rw [(before.send_frame message opcode).1]
    · simp
  · intro index sent hsent
    rw [messagesTo_append, messagesTo_broadcast, List.mem_append] at hsent
    rcases hsent with hold | hnew
    · exact hechoed.fits index sent hold
    · by_cases hindex : index < server.sessions.length
      · rw [if_pos hindex, List.mem_singleton] at hnew
        rw [hnew]
        exact hfits
      · rw [if_neg hindex] at hnew
        exact absurd hnew List.not_mem_nil

theorem Echoed.step
    (hechoed : Echoed generateWebsocketAccept useSsl calls server)
    {event : EchoEvent} {new : List EchoCall}
    (hstep : server.step generateWebsocketAccept event = some (next, new)) :
    Echoed generateWebsocketAccept useSsl (calls ++ new) next := by
  cases event with
  | accepted uuid =>
      rcases Prod.mk.inj (Option.some.inj hstep) with ⟨rfl, rfl⟩
      rw [List.append_nil]
      exact hechoed.accepted uuid
  | acceptFailed =>
      rcases Prod.mk.inj (Option.some.inj hstep) with ⟨rfl, rfl⟩
      rwa [List.append_nil]
  | completed index completion =>
      simp only [EchoServer.step, Option.bind_eq_some_iff,
        Option.map_eq_some_iff, Prod.mk.injEq] at hstep
      rcases hstep with ⟨session, hsession, ⟨after, messages⟩, hcomplete, rfl,
        rfl⟩
      exact hechoed.completed hsession hcomplete
  | broadcast message opcode fits =>
      rcases Prod.mk.inj (Option.some.inj hstep) with ⟨rfl, rfl⟩
      exact hechoed.broadcast opcode fits

end Steps

end EchoServer

end VoiceServer

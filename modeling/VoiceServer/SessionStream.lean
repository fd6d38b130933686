/-
A session on the bytes of its connection.  The handshake reads until the end of
the request with a stream buffer; the frames are read past it, so the bytes that
came in with the end of the request stay in the stream buffer.
-/
import VoiceServer.AcceptValue
import VoiceServer.HandshakeKey
import VoiceServer.Projection
import VoiceServer.ReadUntil

namespace VoiceServer

open Asio

/-- The delimiter that `do_handshake` reads until. -/
def endOfRequest : List UInt8 :=
  ascii "\r\n\r\n"

/-- The request at the start of a stream, once its end is there. -/
def requestIn (stream : List UInt8) : Option (List UInt8) :=
  (position stream endOfRequest).map fun i =>
    stream.take (i + endOfRequest.length)

theorem endOfRequest_ne_nil : endOfRequest ≠ [] := by
  decide

theorem position_eq_some_iff_firstAt {text pattern : List UInt8} {i : Nat}
    (hpattern : pattern ≠ []) :
    position text pattern = some i ↔ ReadUntil.FirstAt pattern text i := by
  rw [position, List.findIdx?_eq_some_iff_getElem]
  simp only [List.getElem_tails, List.length_tails, List.isPrefixOf_iff_prefix]
  constructor
  · rintro ⟨-, hhere, hbefore⟩
    exact ⟨hhere, hbefore⟩
  · rintro ⟨hhere, hbefore⟩
    refine ⟨?_, hhere, hbefore⟩
    by_contra hover
    rw [List.drop_eq_nil_of_le (by omega), List.prefix_nil] at hhere
    exact hpattern hhere

/-- More text changes nothing about the first place. -/
theorem position_append_of_some {text pattern : List UInt8} {i : Nat}
    (hpattern : pattern ≠ []) (hposition : position text pattern = some i)
    (more : List UInt8) : position (text ++ more) pattern = some i := by
  rw [position_eq_some_iff_firstAt hpattern] at hposition ⊢
  have hfits := hposition.here.length_le
  rw [List.length_drop] at hfits
  have hpos := List.length_pos_iff.2 hpattern
  constructor
  · rw [List.drop_append_of_le_length (by omega)]
    exact hposition.here.trans (List.prefix_append _ _)
  · intro j hj hpre
    rw [List.drop_append_of_le_length (by omega)] at hpre
    refine hposition.before j hj (List.prefix_of_prefix_length_le hpre
      (List.prefix_append _ _) ?_)
    rw [List.length_drop]
    omega

theorem requestIn_append_of_some {stream request : List UInt8}
    (hrequest : requestIn stream = some request) (more : List UInt8) :
    requestIn (stream ++ more) = some request := by
  rw [requestIn, Option.map_eq_some_iff] at hrequest
  rcases hrequest with ⟨i, hposition, rfl⟩
  have hfirst := (position_eq_some_iff_firstAt endOfRequest_ne_nil).1 hposition
  have hfits := hfirst.here.length_le
  rw [List.length_drop] at hfits
  have hpos := List.length_pos_iff.2 endOfRequest_ne_nil
  rw [requestIn, position_append_of_some endOfRequest_ne_nil hposition,
    Option.map_some, List.take_append_of_le_length (by omega)]

/-- The session, with `buffer_` and the operation that fills it. -/
structure StreamedSession where
  session : WebSocketSession
  input : ReadUntil UInt8
deriving DecidableEq, Repr

/-- Bytes arrive for whichever read is outstanding.  The other completions are
those of the handlers that are not handed any bytes. -/
inductive StreamEvent where
  | send (message : List UInt8) (opcode : WebSocketOpCode)
  | arrived (bytes : List UInt8)
  | completed (completion : Completion)
deriving DecidableEq, Repr

/-- The read bytes that a completion hands to its handler. -/
def Completion.bytes : Completion → Option (List UInt8)
  | .sslHandshake _ => none
  | .request bytes => bytes
  | .frames bytes => bytes
  | .response _ _ => none
  | .frame _ _ => none

namespace StreamedSession

def new (uuid : String) (useSsl : Bool) : StreamedSession :=
  ⟨(WebSocketSession.new uuid useSsl).start, ReadUntil.new⟩

section Step

variable (generateWebsocketAccept : List UInt8 → List UInt8)

/-- A read of the handshake, or else of `do_read`, has completed.  The handler
of the handshake takes the request out of the stream buffer. -/
def onArrived (stream : StreamedSession) (bytes : List UInt8) :
    Option (StreamedSession × List Message) :=
  if .request ∈ stream.session.reading then
    let read := stream.input.commit endOfRequest bytes
    if read.2 then
      let length := read.1.searchPosition
      let request := read.1.buffer.take length
      (stream.session.complete generateWebsocketAccept
        (.request (some request))).map fun next =>
          (⟨next.1, ⟨read.1.buffer.drop length, 0⟩⟩, next.2)
    else some (⟨stream.session, read.1⟩, [])
  else
    (stream.session.complete generateWebsocketAccept
      (.frames (some bytes))).map fun next =>
        (⟨next.1, stream.input⟩, next.2)

def step (stream : StreamedSession) :
    StreamEvent → Option (StreamedSession × List Message)
  | .send message opcode =>
      some ({ stream with session := stream.session.send message opcode }, [])
  | .arrived bytes =>
      if bytes ≠ [] ∧ bytes.length ≤ readBufferSize then
        stream.onArrived generateWebsocketAccept bytes
      else none
  | .completed completion =>
      if completion.bytes = none then
        (stream.session.complete generateWebsocketAccept completion).map
          fun next => (⟨next.1, stream.input⟩, next.2)
      else none

end Step

/-- What an arrival completes. -/
def completions (stream : StreamedSession) (bytes : List UInt8) :
    List Completion :=
  if .request ∈ stream.session.reading then
    let read := stream.input.commit endOfRequest bytes
    if read.2 then [.request (some (read.1.buffer.take read.1.searchPosition))]
    else []
  else [.frames (some bytes)]

/-- The events of the session that a step stands for. -/
def sessionEvents (stream : StreamedSession) :
    StreamEvent → List SessionEvent
  | .send message opcode => [.send message opcode]
  | .arrived bytes => (stream.completions bytes).map .complete
  | .completed completion => [.complete completion]

/-- The reads of the connection. -/
def arrivals (events : List StreamEvent) : List (List UInt8) :=
  events.filterMap fun
    | .arrived bytes => some bytes
    | .send _ _ => none
    | .completed _ => none

/-- The requests handed to the handler of the handshake. -/
def requests (events : List SessionEvent) : List (List UInt8) :=
  events.filterMap fun
    | .complete (.request bytes) => bytes
    | _ => none

section Steps

variable {generateWebsocketAccept : List UInt8 → List UInt8}
  {stream next : StreamedSession} {calls : List Message}

/-- A step on the bytes is a run of the session. -/
theorem session_of_step {event : StreamEvent}
    (hstep : stream.step generateWebsocketAccept event = some (next, calls)) :
    run (WebSocketSession.step generateWebsocketAccept) stream.session
      (stream.sessionEvents event) = some (next.session, calls) := by
  have hone : ∀ {completion : Completion} {input : ReadUntil UInt8},
      (stream.session.complete generateWebsocketAccept completion).map
        (fun next => ((⟨next.1, input⟩ : StreamedSession), next.2)) =
        some (next, calls) →
      run (WebSocketSession.step generateWebsocketAccept) stream.session
        [.complete completion] = some (next.session, calls) := by
    intro completion input hmap
    rw [Option.map_eq_some_iff] at hmap
    rcases hmap with ⟨⟨session, outs⟩, hcomplete, hnext⟩
    rcases Prod.mk.inj hnext with ⟨rfl, rfl⟩
    rw [run_cons_eq_some]
    exact ⟨session, outs, [], hcomplete, rfl, (List.append_nil _).symm⟩
  cases event with
  | send message opcode =>
      rcases Prod.mk.inj (Option.some.inj hstep) with ⟨rfl, rfl⟩
      rfl
  | arrived bytes =>
      rw [step, Option.ite_none_right_eq_some] at hstep
      have hstep := hstep.2
      by_cases hop : .request ∈ stream.session.reading
      · cases hread : (stream.input.commit endOfRequest bytes).2 with
        | false =>
            simp only [onArrived, hop, hread, if_true, Bool.false_eq_true,
              if_false, Option.some.injEq, Prod.mk.injEq] at hstep
            rcases hstep with ⟨rfl, rfl⟩
            simp [sessionEvents, completions, hop, hread]
        | true =>
            simp only [onArrived, hop, hread, if_true] at hstep
            simp only [sessionEvents, completions, hop, hread, if_true]
            exact hone hstep
      · simp only [onArrived, hop, if_false] at hstep
        simp only [sessionEvents, completions, hop, if_false]
        exact hone hstep
  | completed completion =>
      rw [step, Option.ite_none_right_eq_some] at hstep
      exact hone hstep.2

/-- A handler that is handed no bytes delivers nothing. -/
theorem calls_of_no_bytes {session after : WebSocketSession}
    {completion : Completion} (hbytes : completion.bytes = none)
    (hcomplete : session.complete generateWebsocketAccept completion =
      some (after, calls)) : calls = [] := by
  cases completion with
  | sslHandshake ok => simp_all [WebSocketSession.complete]
  | request bytes => simp_all [WebSocketSession.complete]
  | frames bytes =>
      cases bytes with
      | none => simp_all [WebSocketSession.complete, WebSocketSession.onFrames]
      | some bytes => exact absurd hbytes (by simp [Completion.bytes])
  | response bytes ok => simp_all [WebSocketSession.complete]
  | frame bytes ok => simp_all [WebSocketSession.complete]

theorem requests_append (before after : List SessionEvent) :
    requests (before ++ after) = requests before ++ requests after :=
  List.filterMap_append ..

theorem arrivals_append (before after : List StreamEvent) :
    arrivals (before ++ after) = arrivals before ++ arrivals after :=
  List.filterMap_append ..

theorem mem_requests {request : List UInt8} {events : List SessionEvent}
    (hmem : .complete (.request (some request)) ∈ events) :
    request ∈ requests events := by
  simp only [requests, List.mem_filterMap]
  exact ⟨_, hmem, rfl⟩

/-- Either the end of the request has not come, and all bytes are in the stream
buffer; or the request has been taken out of it, and the reads behind it have
gone to `handle_frame`. -/
inductive ReadSide (chunks : List (List UInt8)) (own : List SessionEvent)
    (calls : List Message) (stream : StreamedSession) : Prop
  | awaiting
      (hone : stream.session.reading.length ≤ 1)
      (hframes : .frames ∉ stream.session.reading)
      (hresponding : stream.session.responding = [])
      (hbuffer : stream.input.buffer = chunks.flatten)
      (hawaits : ReadUntil.Awaits endOfRequest stream.input)
      (hnone : position chunks.flatten endOfRequest = none)
      (hrequests : requests own = [])
      (hcalls : calls = [])
  | behind (before : List (List UInt8)) (last : List UInt8)
      (after : List (List UInt8)) (request : List UInt8)
      (hops : ∀ op ∈ stream.session.reading, op = .frames)
      (hchunks : chunks = before ++ last :: after)
      (hbefore : requestIn before.flatten = none)
      (hrequest : requestIn (before.flatten ++ last) = some request)
      (hbytes : before.flatten ++ last = request ++ stream.input.buffer)
      (hrequests : requests own = [request])
      (hcalls : receive after = some calls)

/-- A step that is handed no bytes. -/
theorem ReadSide.keep {chunks : List (List UInt8)} {own : List SessionEvent}
    (hside : ReadSide chunks own calls stream) {event : SessionEvent}
    {after : WebSocketSession}
    (hquiet : ∀ completion, event = .complete completion →
      completion.bytes = none)
    (hstepped : WebSocketSession.Stepped stream.session event after) :
    ReadSide chunks (own ++ [event]) calls ⟨after, stream.input⟩ := by
  have hevent : requests [event] = [] := by
    cases event with
    | send message opcode => rfl
    | complete completion =>
        have hnone := hquiet completion rfl
        cases completion <;> simp_all [requests, Completion.bytes]
  have hown : requests (own ++ [event]) = requests own := by
    rw [requests_append, hevent, List.append_nil]
  cases hside with
  | awaiting hone hframes hresponding hbuffer hawaits hnone hrequests hcalls =>
      have hkeep : ∀ reading responding,
          after.reading = reading → after.responding = responding →
          reading.length ≤ 1 → .frames ∉ reading → responding = [] →
          ReadSide chunks (own ++ [event]) calls ⟨after, stream.input⟩ := by
        rintro reading responding rfl rfl hone hframes hresponding
        exact .awaiting hone hframes hresponding hbuffer hawaits hnone
          (hown.trans hrequests) hcalls
      have herase : ∀ op, (stream.session.reading.erase op).length ≤ 1 ∧
          .frames ∉ stream.session.reading.erase op := fun op =>
        ⟨List.length_erase_le.trans hone, fun h => hframes (List.mem_of_mem_erase h)⟩
      cases hstepped with
      | started message opcode hidle =>
          exact hkeep _ _ rfl rfl hone hframes hresponding
      | queued message opcode hbusy =>
          exact hkeep _ _ rfl rfl hone hframes hresponding
      | secured hop =>
          refine hkeep _ _ rfl rfl ?_ ?_ hresponding
          · rw [List.length_append, List.length_erase_of_mem hop]
            have hpos := List.length_pos_of_mem hop
            simp only [List.length_singleton]
            omega
          · simp [(herase .sslHandshake).2]
      | answered request response hop hkey =>
          exact absurd (hquiet _ rfl) (by simp [Completion.bytes])
      | upgraded bytes hop =>
          rw [hresponding] at hop
          exact absurd hop List.not_mem_nil
      | received bytes hop => exact absurd hop hframes
      | drained bytes hop hlast =>
          exact hkeep _ _ rfl rfl hone hframes hresponding
      | continued bytes front rest hop hmore =>
          exact hkeep _ _ rfl rfl hone hframes hresponding
      | readFailed op completion error hop hfailed hread =>
          exact hkeep _ _ rfl rfl (herase op).1 (herase op).2 hresponding
      | responseFailed bytes hop =>
          rw [hresponding] at hop
          exact absurd hop List.not_mem_nil
      | frameFailed bytes hop =>
          exact hkeep _ _ rfl rfl hone hframes hresponding
  | behind before last later request hops hchunks hbefore hrequest hbytes
      hrequests hcalls =>
      refine .behind before last later request ?_ hchunks hbefore hrequest hbytes
        (hown.trans hrequests) hcalls
      cases hstepped with
      | started message opcode hidle => exact hops
      | queued message opcode hbusy => exact hops
      | secured hop => exact absurd (hops _ hop) (by decide)
      | answered request response hop hkey => exact absurd (hops _ hop) (by decide)
      | upgraded bytes hop =>
          intro op hmem
          rcases List.mem_append.1 hmem with hold | hnew
          · exact hops op hold
          · exact List.mem_singleton.1 hnew
      | received bytes hop =>
          exact absurd (hquiet _ rfl) (by simp [Completion.bytes])
      | drained bytes hop hlast => exact hops
      | continued bytes front rest hop hmore => exact hops
      | readFailed op completion error hop hfailed hread =>
          exact fun op hmem => hops op (List.mem_of_mem_erase hmem)
      | responseFailed bytes hop => exact hops
      | frameFailed bytes hop => exact hops

/-- One more read behind the request. -/
theorem receive_concat {reads : List (List UInt8)} {bytes : List UInt8}
    {before new : List Message} (hbefore : receive reads = some before)
    (hnew : readCalls bytes = some new) :
    receive (reads ++ [bytes]) = some (before ++ new) := by
  rw [receive, Option.map_eq_some_iff] at hbefore ⊢
  rcases hbefore with ⟨⟨state, outs⟩, hrun, rfl⟩
  refine ⟨((), outs ++ new), ?_, rfl⟩
  rw [run_concat_eq_some]
  exact ⟨state, outs, new, hrun, by rw [doRead, hnew]; rfl, rfl⟩

theorem reading_onRequest (accept : List UInt8 → List UInt8)
    (session : WebSocketSession) (request : Option (List UInt8)) :
    (session.onRequest accept request).reading = session.reading := by
  cases request with
  | none => rfl
  | some request =>
      rw [WebSocketSession.onRequest]
      split <;> rfl

/-- A read. -/
theorem ReadSide.arrived {chunks : List (List UInt8)} {own : List SessionEvent}
    {delivered : List Message} (hside : ReadSide chunks own delivered stream)
    {bytes : List UInt8}
    (hstep : stream.step generateWebsocketAccept (.arrived bytes) =
      some (next, calls)) :
    ReadSide (chunks ++ [bytes]) (own ++ stream.sessionEvents (.arrived bytes))
      (delivered ++ calls) next := by
  have hflatten : (chunks ++ [bytes]).flatten = chunks.flatten ++ bytes := by
    simp
  rw [step, Option.ite_none_right_eq_some] at hstep
  have hstep := hstep.2
  cases hside with
  | awaiting hone hframes hresponding hbuffer hawaits hnone hrequests hcalls =>
      have hop : .request ∈ stream.session.reading := by
        by_contra hop
        simp [onArrived, hop, WebSocketSession.complete, hframes] at hstep
      have hread := hawaits.commit endOfRequest_ne_nil bytes
      rw [hbuffer] at hread
      cases hdone : (stream.input.commit endOfRequest bytes).2 with
      | false =>
          obtain ⟨hlater, hcutoff⟩ := hread.1 hdone
          simp only [onArrived, hop, hdone, if_true, Bool.false_eq_true,
            if_false, Option.some.injEq, Prod.mk.injEq] at hstep
          rcases hstep with ⟨rfl, rfl⟩
          refine .awaiting hone hframes hresponding ?_ hlater ?_ ?_ ?_
          · rw [ReadUntil.buffer_commit, hbuffer, hflatten]
          · rw [hflatten]
            exact position_eq_none_iff.2 hcutoff
          · simpa [sessionEvents, completions, hop, hdone] using hrequests
          · rw [hcalls]
            rfl
      | true =>
          obtain ⟨i, hfirst, hlength⟩ := hread.2 hdone
          simp only [onArrived, hop, hdone, if_true, hlength,
            ReadUntil.buffer_commit, hbuffer, WebSocketSession.complete,
            Option.map_some, Option.some.injEq, Prod.mk.injEq] at hstep
          rcases hstep with ⟨rfl, rfl⟩
          have hempty : stream.session.reading.erase .request = [] := by
            apply List.length_eq_zero_iff.1
            rw [List.length_erase_of_mem hop]
            omega
          have hposition := (position_eq_some_iff_firstAt
            endOfRequest_ne_nil).2 hfirst
          refine .behind chunks bytes []
            ((chunks.flatten ++ bytes).take (i + endOfRequest.length)) ?_ rfl
            ?_ ?_ ?_ ?_ ?_
          · intro op hmem
            rw [reading_onRequest] at hmem
            simp [hempty] at hmem
          · rw [requestIn, hnone, Option.map_none]
          · rw [requestIn, hposition, Option.map_some]
          · rw [List.take_append_drop]
          · rw [requests_append, hrequests, sessionEvents, completions,
              if_pos hop, if_pos hdone, hlength, ReadUntil.buffer_commit, hbuffer]
            rfl
          · rw [hcalls]
            rfl
  | behind before last after request hops hchunks hbefore hrequest hbytes
      hrequests hcalls =>
      have hop : .request ∉ stream.session.reading :=
        fun h => absurd (hops _ h) (by decide)
      simp only [onArrived, hop, if_false, Option.map_eq_some_iff,
        Prod.mk.injEq] at hstep
      rcases hstep with ⟨⟨session, outs⟩, hcomplete, rfl, rfl⟩
      have hstepped : WebSocketSession.Stepped stream.session
          (.complete (.frames (some bytes))) session :=
        @WebSocketSession.stepped_of_step generateWebsocketAccept _ _ _ _
          hcomplete
      have hreads : readCalls bytes = some outs := by
        simp only [WebSocketSession.complete, WebSocketSession.onFrames,
          Option.ite_none_right_eq_some, Option.map_eq_some_iff,
          Prod.mk.injEq] at hcomplete
        rcases hcomplete.2 with ⟨_, hreads, -, rfl⟩
        exact hreads
      refine .behind before last (after ++ [bytes]) request ?_ ?_ hbefore
        hrequest hbytes ?_ ?_
      · intro op hmem
        cases hstepped with
        | received bytes hframes =>
            rcases List.mem_append.1 hmem with hold | hnew
            · exact hops op (List.mem_of_mem_erase hold)
            · exact List.mem_singleton.1 hnew
        | readFailed op completion error hframes hfailed hread =>
            exact hops _ (List.mem_of_mem_erase hmem)
      · rw [hchunks, List.append_assoc, List.cons_append]
      · rw [requests_append, hrequests, sessionEvents, completions, if_neg hop]
        rfl
      · exact receive_concat hcalls hreads

/-- The requests handled depend on the bytes only. -/
theorem ReadSide.requests_eq {chunks : List (List UInt8)}
    {own : List SessionEvent} (hside : ReadSide chunks own calls stream) :
    requests own = (requestIn chunks.flatten).toList := by
  cases hside with
  | awaiting hone hframes hresponding hbuffer hawaits hnone hrequests hcalls =>
      rw [requestIn, hnone, hrequests]
      rfl
  | behind before last after request hops hchunks hbefore hrequest hbytes
      hrequests hcalls =>
      have hall := requestIn_append_of_some hrequest after.flatten
      rw [List.append_assoc, ← List.flatten_cons, ← List.flatten_append,
        ← hchunks] at hall
      rw [hall, hrequests]
      rfl

theorem readSide_new (uuid : String) (useSsl : Bool) :
    ReadSide [] [] [] (new uuid useSsl) := by
  cases useSsl with
  | false =>
      exact .awaiting (Nat.le_refl 1) (by simp [new, WebSocketSession.new,
          WebSocketSession.start, WebSocketSession.doHandshake]) rfl rfl
        (ReadUntil.awaits_new _) (position_nil endOfRequest_ne_nil) rfl rfl
  | true =>
      exact .awaiting (Nat.le_refl 1) (by simp [new, WebSocketSession.new,
          WebSocketSession.start, WebSocketSession.doSslHandshake]) rfl rfl
        (ReadUntil.awaits_new _) (position_nil endOfRequest_ne_nil) rfl rfl

theorem ReadSide.step {past : List StreamEvent} {own : List SessionEvent}
    {delivered : List Message}
    (hside : ReadSide (arrivals past) own delivered stream)
    {event : StreamEvent}
    (hstep : stream.step generateWebsocketAccept event = some (next, calls)) :
    ReadSide (arrivals (past ++ [event])) (own ++ stream.sessionEvents event)
      (delivered ++ calls) next := by
  rw [arrivals_append]
  cases event with
  | send message opcode =>
      rcases Prod.mk.inj (Option.some.inj hstep) with ⟨rfl, rfl⟩
      rw [List.append_nil]
      have hnone : arrivals [.send message opcode] = [] := rfl
      rw [hnone, List.append_nil]
      exact hside.keep (by simp)
        (WebSocketSession.stepped_send stream.session message opcode)
  | arrived bytes => exact hside.arrived hstep
  | completed completion =>
      rw [StreamedSession.step, Option.ite_none_right_eq_some,
        Option.map_eq_some_iff] at hstep
      rcases hstep with ⟨hbytes, ⟨session, outs⟩, hcomplete, hnext⟩
      rcases Prod.mk.inj hnext with ⟨rfl, rfl⟩
      have hnone : arrivals [.completed completion] = [] := rfl
      rw [hnone, calls_of_no_bytes hbytes hcomplete, List.append_nil,
        List.append_nil]
      exact hside.keep (by simp [hbytes])
        (@WebSocketSession.stepped_of_step generateWebsocketAccept _ _ _ _
          hcomplete)

/-- What the handshake and the read loop have seen, over a run. -/
theorem readSide_of_run {uuid : String} {useSsl : Bool}
    {events : List StreamEvent}
    (hrun : run (StreamedSession.step generateWebsocketAccept)
      (new uuid useSsl) events = some (stream, calls)) :
    ReadSide (arrivals events)
      (partEvents (StreamedSession.step generateWebsocketAccept) sessionEvents
        (new uuid useSsl) events) calls stream := by
  refine run_induction _ (motive := fun past state outs =>
    ReadSide (arrivals past) (partEvents _ sessionEvents (new uuid useSsl) past)
      outs state) (readSide_new uuid useSsl) ?_ hrun
  intro past state outs event after new hpast hside hstep
  rw [partEvents_concat _ _ hpast]
  exact hside.step hstep

/-- A run on the bytes is a run of the session. -/
theorem session_of_run {uuid : String} {useSsl : Bool}
    {events : List StreamEvent}
    (hrun : run (StreamedSession.step generateWebsocketAccept)
      (new uuid useSsl) events = some (stream, calls)) :
    run (WebSocketSession.step generateWebsocketAccept)
      (WebSocketSession.new uuid useSsl).start
      (partEvents (StreamedSession.step generateWebsocketAccept) sessionEvents
        (new uuid useSsl) events) = some (stream.session, calls) := by
  obtain ⟨hidden, hpart, rfl⟩ := @run_part _ _ _ _ _ _
    (StreamedSession.step generateWebsocketAccept) sessionEvents
    (WebSocketSession.step generateWebsocketAccept) StreamedSession.session some
    (fun state event next outs hstep =>
      ⟨outs, session_of_step hstep, List.filterMap_some.symm⟩) _ _ _ _ hrun
  rwa [List.filterMap_some]

/-- However the connection is cut into reads and whatever else happens in between,
the request is the text of the stream up to the first CRLF CRLF, and the only
response is the one of RFC 6455 to its key. -/
theorem upgrade_of_run {uuid : String} {useSsl : Bool}
    {events : List StreamEvent} {final : StreamedSession}
    {calls : List Message}
    (hrun : run (StreamedSession.step WebSocketSession.generateWebsocketAccept)
      (new uuid useSsl) events = some (final, calls)) :
    requests (partEvents
        (StreamedSession.step WebSocketSession.generateWebsocketAccept)
        sessionEvents (new uuid useSsl) events) =
        (requestIn (arrivals events).flatten).toList ∧
      (final.session.responses = [] ∨
        ∃ request, requestIn (arrivals events).flatten = some request ∧
          extractWebsocketKey request ≠ [] ∧
          final.session.responses = [handshakeResponse
            (Rfc6455.acceptValue (extractWebsocketKey request))]) := by
  have hrequests := (readSide_of_run hrun).requests_eq
  refine ⟨hrequests, ?_⟩
  cases WebSocketSession.answered_of_run (session_of_run hrun) with
  | before hnone hone => exact Or.inl hnone
  | after request hrequest hkey hsome hnone =>
      rw [WebSocketSession.generateWebsocketAccept, generateWebsocketAccept_eq,
        Option.getD_some] at hsome
      have hmem := mem_requests hrequest
      rw [hrequests, Option.mem_toList] at hmem
      exact Or.inr ⟨request, hmem, hkey, hsome⟩

/-- A session that has answered the key `dGhl` and has the first byte of a frame
in its stream buffer. -/
def hasty : StreamedSession :=
  ⟨{ WebSocketSession.new "a" false with
      responding := [handshakeResponse
        (WebSocketSession.generateWebsocketAccept (ascii "dGhl"))] }, ⟨[129], 0⟩⟩

def hastyReads : List StreamEvent :=
  [.arrived (ascii "Sec-WebSocket-Key: dGhl\r\n\r"), .arrived [10, 129]]

theorem hasty_run :
    run (StreamedSession.step WebSocketSession.generateWebsocketAccept)
      (new "a" false) hastyReads = some (hasty, []) := by
  rfl

theorem upgrade_of_run_hasty :
    requests (partEvents
        (StreamedSession.step WebSocketSession.generateWebsocketAccept)
        sessionEvents (new "a" false) hastyReads) =
        (requestIn (arrivals hastyReads).flatten).toList ∧
      (hasty.session.responses = [] ∨
        ∃ request, requestIn (arrivals hastyReads).flatten = some request ∧
          extractWebsocketKey request ≠ [] ∧
          hasty.session.responses = [handshakeResponse
            (Rfc6455.acceptValue (extractWebsocketKey request))]) :=
  upgrade_of_run hasty_run

/-- The bytes that came with the end of the request, behind it, are never parsed:
they stay in the stream buffer, and the messages are those of the reads behind
that read. -/
theorem messages_of_run {generateWebsocketAccept : List UInt8 → List UInt8}
    {uuid : String} {useSsl : Bool} {events : List StreamEvent}
    {final : StreamedSession} {calls : List Message}
    (hrun : run (StreamedSession.step generateWebsocketAccept)
      (new uuid useSsl) events = some (final, calls)) :
    (requestIn (arrivals events).flatten = none ∧ calls = [] ∧
        final.input.buffer = (arrivals events).flatten) ∨
      ∃ before last after request,
        arrivals events = before ++ last :: after ∧
        requestIn before.flatten = none ∧
        requestIn (before.flatten ++ last) = some request ∧
        before.flatten ++ last = request ++ final.input.buffer ∧
        receive after = some calls := by
  cases readSide_of_run hrun with
  | awaiting hone hframes hresponding hbuffer hawaits hnone hrequests hcalls =>
      exact Or.inl ⟨by rw [requestIn, hnone, Option.map_none], hcalls, hbuffer⟩
  | behind before last after request hops hchunks hbefore hrequest hbytes
      hrequests hcalls =>
      exact Or.inr ⟨before, last, after, request, hchunks, hbefore, hrequest,
        hbytes, hcalls⟩

theorem messages_of_run_hasty :
    (requestIn (arrivals hastyReads).flatten = none ∧
        ([] : List Message) = [] ∧
        hasty.input.buffer = (arrivals hastyReads).flatten) ∨
      ∃ before last after request,
        arrivals hastyReads = before ++ last :: after ∧
        requestIn before.flatten = none ∧
        requestIn (before.flatten ++ last) = some request ∧
        before.flatten ++ last = request ++ hasty.input.buffer ∧
        receive after = some [] :=
  messages_of_run hasty_run

end Steps

end StreamedSession

end VoiceServer

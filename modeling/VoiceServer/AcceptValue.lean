/-
The answer to a handshake: over a whole run a session makes at most one, and its
accept value is the one of RFC 6455 for the key in the request.
-/
import VoiceServer.Sha1Custom
import VoiceServer.WebSocketSession

namespace VoiceServer

namespace Rfc6455

/-- The identifier of section 1.3, appended to the key. -/
def guid : List UInt8 :=
  ascii "258EAFA5-E914-47DA-95CA-C5AB0DC85B11"

/-- The base64 encoding of the SHA-1 value of the key and the identifier. -/
def acceptValue (key : List UInt8) : List UInt8 :=
  Base64.encode (Sha1.digest (key ++ guid))

end Rfc6455

open SHA1Custom

/-- `sha1.update(text)` on a new object, then `sha1.final()`. -/
def sha1Text (text : List UInt8) : List UInt8 :=
  (SHA1.new.update text).final.1

theorem sha1Text_eq (text : List UInt8) :
    sha1Text text = hexText (Sha1.digest text) := by
  have htaken : Taken text (SHA1.new.update text) := taken_new.update text
  rw [sha1Text, htaken.final]

/-- `to_base_64` never fails on a digest. -/
theorem generateWebsocketAccept_eq (key : List UInt8) :
    Base64Utilities.generateWebsocketAccept sha1Text key =
      some (Rfc6455.acceptValue key) := by
  have hlength : (Sha1.digest (key ++ Rfc6455.guid)).length < 2 ^ 30 := by
    rw [Sha1.length_digest]
    decide
  rw [Base64Utilities.generateWebsocketAccept, sha1Text_eq]
  exact Base64Utilities.toBase64_eq (spells_hexText _) hlength

namespace WebSocketSession

/-- `generate_websocket_accept` with the SHA-1 of `sha1.hpp`. -/
def generateWebsocketAccept (key : List UInt8) : List UInt8 :=
  (Base64Utilities.generateWebsocketAccept sha1Text key).getD []

/-- The response in a buffer written. -/
def responseIn : StreamWrite → Option (List UInt8)
  | .response bytes => some bytes
  | .frame _ => none

/-- The responses written, and those being written. -/
def responses (session : WebSocketSession) : List (List UInt8) :=
  session.written.filterMap responseIn ++ session.responding

/-- What is still to come of the handshake. -/
def handshakeOps (session : WebSocketSession) : List ReadOp :=
  session.reading.filter (· ≠ .frames)

/-- Either the handshake waits for one operation and nothing has been answered,
or it waits for none, and what has been answered is one of the requests read. -/
inductive Answered (accept : List UInt8 → List UInt8)
    (events : List SessionEvent) (session : WebSocketSession) : Prop
  | before (hresponses : session.responses = [])
      (hops : session.handshakeOps.length ≤ 1)
  | after (request : List UInt8)
      (hrequest : .complete (.request (some request)) ∈ events)
      (hkey : extractWebsocketKey request ≠ [])
      (hresponses : session.responses =
        [handshakeResponse (accept (extractWebsocketKey request))])
      (hops : session.handshakeOps = [])

section Runs

variable {accept : List UInt8 → List UInt8} {session next : WebSocketSession}

theorem Answered.mono {events : List SessionEvent}
    (hanswered : Answered accept events session) (event : SessionEvent)
    (hresponses : next.responses.Sublist session.responses)
    (hops : next.handshakeOps.length ≤ session.handshakeOps.length) :
    Answered accept (events ++ [event]) next := by
  cases hanswered with
  | before hnone hone =>
      rw [hnone, List.sublist_nil] at hresponses
      exact .before hresponses (hops.trans hone)
  | after request hrequest hkey hsome hnone =>
      rw [hnone, List.length_nil, Nat.le_zero, List.length_eq_zero_iff] at hops
      rw [hsome] at hresponses
      rcases List.sublist_singleton.1 hresponses with hlost | hkept
      · exact .before hlost (by rw [hops]; exact Nat.zero_le 1)
      · exact .after request (List.mem_append_left _ hrequest) hkey hkept hops

/-- A completion takes its operation away. -/
theorem handshakeOps_erase {op : ReadOp} (hop : op ∈ session.reading)
    (hhandshake : op ≠ .frames) :
    ((session.reading.erase op).filter (· ≠ .frames)).length + 1 =
      session.handshakeOps.length := by
  have hperm := (List.perm_cons_erase hop).filter (· ≠ .frames)
  rw [List.filter_cons_of_pos (by simpa using hhandshake)] at hperm
  exact hperm.length_eq.symm

theorem length_handshakeOps_erase (session : WebSocketSession) (op : ReadOp) :
    ((session.reading.erase op).filter (· ≠ .frames)).length ≤
      session.handshakeOps.length :=
  (List.erase_sublist.filter _).length_le

theorem Answered.length_le {events : List SessionEvent}
    (hanswered : Answered accept events session) :
    session.responses.length ≤ 1 := by
  cases hanswered with
  | before hnone hone =>
      rw [hnone]
      exact Nat.zero_le 1
  | after request hrequest hkey hsome hnone =>
      rw [hsome]
      exact Nat.le_refl 1

/-- A response that has been written is the response that was being written. -/
theorem responses_upgraded {written : List StreamWrite}
    {responding : List (List UInt8)} {bytes : List UInt8}
    (hone : (written.filterMap responseIn ++ responding).length ≤ 1)
    (hop : bytes ∈ responding) :
    (written ++ [StreamWrite.response bytes]).filterMap responseIn ++
      responding.erase bytes = written.filterMap responseIn ++ responding := by
  rw [List.length_append] at hone
  have hpos := List.length_pos_iff.2 (List.ne_nil_of_mem hop)
  have hnone : written.filterMap responseIn = [] :=
    List.length_eq_zero_iff.1 (by omega)
  obtain ⟨only, rfl⟩ := List.length_eq_one_iff.1
    (show responding.length = 1 by omega)
  obtain rfl := List.mem_singleton.1 hop
  rw [List.filterMap_append, hnone, List.erase_cons_head]
  rfl

/-- What a step does to the answer. -/
theorem Answered.step {events : List SessionEvent}
    (hanswered : Answered accept events session) {event : SessionEvent}
    {calls : List Message}
    (hstep : session.step accept event = some (next, calls)) :
    Answered accept (events ++ [event]) next := by
  cases stepped_of_step hstep with
  | started message opcode hidle =>
      exact hanswered.mono _ (List.Sublist.refl _) (Nat.le_refl _)
  | queued message opcode hbusy =>
      exact hanswered.mono _ (List.Sublist.refl _) (Nat.le_refl _)
  | secured hop =>
      refine hanswered.mono _ (List.Sublist.refl _) ?_
      have hless := handshakeOps_erase hop (by decide)
      rw [handshakeOps, List.filter_append, List.length_append]
      exact hless.le
  | answered request response hop hkey =>
      have hless := handshakeOps_erase hop (by decide)
      obtain ⟨hresponse, -⟩ : handshakeResponse
          (accept (extractWebsocketKey request)) = response ∧ [] = calls := by
        simpa [WebSocketSession.step, complete, onRequest, hop, hkey] using hstep
      cases hanswered with
      | before hnone hone =>
          obtain ⟨hwritten, hresponding⟩ := List.append_eq_nil_iff.1 hnone
          refine .after request (List.mem_concat_self) hkey ?_ ?_
          · simp [responses, hwritten, hresponding, hresponse]
          · apply List.length_eq_zero_iff.1
            change ((session.reading.erase .request).filter _).length = 0
            omega
      | after earlier _ _ _ hnone =>
          rw [hnone] at hless
          exact absurd hless (Nat.succ_ne_zero _)
  | upgraded bytes hop =>
      refine hanswered.mono _ ?_ ?_
      · rw [responses, responses_upgraded hanswered.length_le hop]
        exact List.Sublist.refl _
      · rw [handshakeOps, List.filter_append, List.length_append]
        exact Nat.le_refl _
  | received bytes hop =>
      refine hanswered.mono _ (List.Sublist.refl _) ?_
      rw [handshakeOps, List.filter_append, List.length_append]
      exact length_handshakeOps_erase session .frames
  | drained bytes hop hlast =>
      refine hanswered.mono _ ?_ (Nat.le_refl _)
      rw [responses, List.filterMap_append]
      simp [responseIn, responses]
  | continued bytes front rest hop hmore =>
      refine hanswered.mono _ ?_ (Nat.le_refl _)
      rw [responses, List.filterMap_append]
      simp [responseIn, responses]
  | readFailed op completion error hop hfailed hread =>
      exact hanswered.mono _ (List.Sublist.refl _)
        (length_handshakeOps_erase session op)
  | responseFailed bytes hop =>
      exact hanswered.mono _ (List.erase_sublist.append_left _) (Nat.le_refl _)
  | frameFailed bytes hop =>
      exact hanswered.mono _ (List.Sublist.refl _) (Nat.le_refl _)

theorem answered_new (accept : List UInt8 → List UInt8) (uuid : String)
    (useSsl : Bool) : Answered accept [] (new uuid useSsl).start := by
  cases useSsl with
  | false => exact .before rfl (Nat.le_refl 1)
  | true => exact .before rfl (Nat.le_refl 1)

theorem answered_of_run {uuid : String} {useSsl : Bool}
    {events : List SessionEvent} {calls : List Message}
    (hrun : run (WebSocketSession.step accept) (new uuid useSsl).start events =
      some (session, calls)) :
    Answered accept events session :=
  run_induction _ (motive := fun past state _ => Answered accept past state)
    (answered_new accept uuid useSsl)
    (fun _ _ _ _ _ _ _ hstate hstep => hstate.step hstep) hrun

/-- Over any run, whatever is sent, fails or comes in between, a session has at
most one response written or outstanding, and it is the one of RFC 6455 to a
request that came in. -/
theorem response_of_run {uuid : String} {useSsl : Bool}
    {events : List SessionEvent} {final : WebSocketSession}
    {calls : List Message}
    (hrun : run (step generateWebsocketAccept) (new uuid useSsl).start events =
      some (final, calls)) :
    final.responses = [] ∨
      ∃ request, .complete (.request (some request)) ∈ events ∧
        extractWebsocketKey request ≠ [] ∧
        final.responses = [handshakeResponse
          (Rfc6455.acceptValue (extractWebsocketKey request))] := by
  cases answered_of_run hrun with
  | before hnone hone => exact Or.inl hnone
  | after request hrequest hkey hsome hnone =>
      rw [generateWebsocketAccept, generateWebsocketAccept_eq,
        Option.getD_some] at hsome
      exact Or.inr ⟨request, hrequest, hkey, hsome⟩

/-- A session that has answered the key `dGhl`. -/
def answering : WebSocketSession where
  uuid := "a"
  useSsl := false
  reading := []
  responding := [handshakeResponse (generateWebsocketAccept (ascii "dGhl"))]
  writing := []
  writeQueue := []
  written := []
  errors := []

theorem response_of_run_answering :
    let request := ascii "Sec-WebSocket-Key: dGhl\r\n\r\n"
    let events : List SessionEvent := [.complete (.request (some request))]
    answering.responses = [] ∨
      ∃ request, .complete (.request (some request)) ∈ events ∧
        extractWebsocketKey request ≠ [] ∧
        answering.responses = [handshakeResponse
          (Rfc6455.acceptValue (extractWebsocketKey request))] := by
  intro request events
  have hkey : extractWebsocketKey request = ascii "dGhl" := by decide
  have hsome : ascii "dGhl" ≠ [] := by decide
  have hrun : run (step generateWebsocketAccept) (new "a" false).start events =
      some (answering, []) := by
    simp [events, run, step, complete, onRequest, hkey, hsome, new, start,
      doHandshake, answering]
  exact response_of_run hrun

end Runs

end WebSocketSession

end VoiceServer

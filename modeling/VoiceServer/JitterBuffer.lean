/-
The jitter buffer of the voice client over whole runs.  It is a queue: what the
timer takes out is what the socket put in, in the same order.  Nothing in the
client bounds it; the size that the class names is not used.
-/
import VoiceServer.DropOldest
import VoiceServer.VoiceChatClient

namespace VoiceServer

/-- `JITTER_BUFFER_SIZE`. -/
def jitterBufferSize : Nat := 3

namespace VoiceChatClient

/-- The packets of the datagrams received; an empty datagram makes none. -/
def arrivals : List ClientEvent → List AudioPacket
  | [] => []
  | .received _ bytes :: rest =>
      let stored := bytes.take NetworkManager.recvBufferSize
      (if 0 < stored.length then [⟨stored⟩] else []) ++ arrivals rest
  | .captured _ :: rest => arrivals rest
  | .sendTick :: rest => arrivals rest
  | .receiveFailed :: rest => arrivals rest
  | .jitterTick :: rest => arrivals rest

/-- The packets passed to `receive_callback_`. -/
def callbacks : List ClientCall → List AudioPacket
  | [] => []
  | .receiveCallback packet :: rest => packet :: callbacks rest
  | .sendTo _ :: rest => callbacks rest

/-- What a step leaves: received packets were passed on in order of arrival,
each at most once, the newest ones wait, and they are not too many. -/
structure JitterKept (past : List ClientEvent) (_ : VoiceChatClient)
    (calls : List ClientCall) (event : ClientEvent) (next : VoiceChatClient)
    (new : List ClientCall) : Prop where
  order : (callbacks (calls ++ new)).Sublist (arrivals (past ++ [event]))
  newest : next.network.jitterBuffer <:+ arrivals (past ++ [event])
  bounded : next.network.jitterBuffer.length ≤ jitterBufferSize

/-- What an event does to the jitter buffer. -/
def bufferEvent : ClientEvent → Option (QueueEvent AudioPacket)
  | .received _ bytes =>
      let stored := bytes.take NetworkManager.recvBufferSize
      if 0 < stored.length then some (.push ⟨stored⟩) else none
  | .jitterTick => some .pop
  | .captured _ => none
  | .sendTick => none
  | .receiveFailed => none

/-- The packets that arrive and the expiries of the timer. -/
def bufferEvents (events : List ClientEvent) : List (QueueEvent AudioPacket) :=
  events.filterMap bufferEvent

theorem arrivals_append (first second : List ClientEvent) :
    arrivals (first ++ second) = arrivals first ++ arrivals second := by
  induction first with
  | nil => rfl
  | cons event rest ih =>
      cases event with
      | received source bytes => simp [arrivals, ih]
      | captured block => exact ih
      | sendTick => exact ih
      | receiveFailed => exact ih
      | jitterTick => exact ih

theorem callbacks_append (first second : List ClientCall) :
    callbacks (first ++ second) = callbacks first ++ callbacks second := by
  induction first with
  | nil => rfl
  | cons call rest ih =>
      cases call with
      | sendTo datagram => exact ih
      | receiveCallback packet => exact congrArg (packet :: ·) ih

/-- What one step takes out of the buffer in front and puts in behind. -/
theorem step_jitterBuffer {client next : VoiceChatClient} {event : ClientEvent}
    {calls : List ClientCall} (hstep : client.step event = some (next, calls)) :
    callbacks calls ++ next.network.jitterBuffer =
      client.network.jitterBuffer ++ arrivals [event] := by
  cases event with
  | received source bytes =>
      obtain ⟨rfl, rfl⟩ : _ = next ∧ [] = calls := by
        simpa [VoiceChatClient.step] using hstep
      simp only [callbacks, NetworkManager.receive, arrivals, List.nil_append,
        List.append_nil]
      split
      · rfl
      · rw [List.append_nil]
  | jitterTick =>
      obtain ⟨rfl, rfl⟩ : _ = next ∧ _ = calls := by
        simpa [VoiceChatClient.step] using hstep
      obtain ⟨audio, endpoint, buffer⟩ := client
      cases buffer with
      | nil => rfl
      | cons packet rest => simp [NetworkManager.playNext, callbacks, arrivals]
  | captured block =>
      obtain ⟨rfl, rfl⟩ : _ = next ∧ [] = calls := by
        simpa [VoiceChatClient.step] using hstep
      simp [callbacks, arrivals]
  | sendTick =>
      obtain ⟨rfl, rfl⟩ : client.sendTick.1 = next ∧
          client.sendTick.2 = calls := by
        simpa [VoiceChatClient.step, Prod.ext_iff] using hstep
      have hnone : callbacks client.sendTick.2 = [] := by
        obtain ⟨⟨input⟩, network⟩ := client
        cases input with
        | nil => rfl
        | cons byte rest => rfl
      rw [hnone, arrivals, arrivals, List.append_nil]
      rfl
  | receiveFailed =>
      obtain ⟨rfl, rfl⟩ : client = next ∧ [] = calls := by
        simpa [VoiceChatClient.step] using hstep
      simp [callbacks, arrivals]

/-- First in, first out, over every run. -/
theorem callbacks_append_jitterBuffer {resolved : Endpoint}
    {events : List ClientEvent} {final : VoiceChatClient}
    {calls : List ClientCall}
    (hrun : run step (new resolved) events = some (final, calls)) :
    callbacks calls ++ final.network.jitterBuffer = arrivals events := by
  apply run_induction step
    (motive := fun past client calls =>
      callbacks calls ++ client.network.jitterBuffer = arrivals past)
    rfl ?_ hrun
  intro past client calls event next new _ hpast hstep
  rw [arrivals_append, ← hpast, callbacks_append, List.append_assoc,
    step_jitterBuffer hstep, List.append_assoc]

/-- What one step does to the backlog. -/
theorem backlog_step {past : List ClientEvent} {client next : VoiceChatClient}
    (hbacklog : DropOldest.Backlog (bufferEvents past)
      client.network.jitterBuffer)
    {event : ClientEvent} {calls : List ClientCall}
    (hstep : client.step event = some (next, calls)) :
    DropOldest.Backlog (bufferEvents (past ++ [event]))
      next.network.jitterBuffer := by
  rw [bufferEvents, List.filterMap_append]
  cases event with
  | received source bytes =>
      obtain ⟨rfl, -⟩ : _ = next ∧ [] = calls := by
        simpa [VoiceChatClient.step] using hstep
      by_cases hstored : 0 < (bytes.take NetworkManager.recvBufferSize).length
      · simp only [NetworkManager.receive, List.filterMap_cons, bufferEvent,
          if_pos hstored]
        exact hbacklog.push _
      · simp only [NetworkManager.receive, List.filterMap_cons, bufferEvent,
          if_neg hstored, List.filterMap_nil, List.append_nil]
        exact hbacklog
  | jitterTick =>
      obtain ⟨rfl, -⟩ : _ = next ∧ _ = calls := by
        simpa [VoiceChatClient.step] using hstep
      have hpop := hbacklog.pop
      obtain ⟨audio, endpoint, buffer⟩ := client
      cases buffer with
      | nil => exact hpop
      | cons packet rest => exact hpop
  | captured block =>
      obtain ⟨rfl, -⟩ : _ = next ∧ [] = calls := by
        simpa [VoiceChatClient.step] using hstep
      rwa [List.filterMap_cons_none rfl, List.filterMap_nil, List.append_nil]
  | sendTick =>
      obtain ⟨rfl, -⟩ : client.sendTick.1 = next ∧
          client.sendTick.2 = calls := by
        simpa [VoiceChatClient.step, Prod.ext_iff] using hstep
      rwa [List.filterMap_cons_none rfl, List.filterMap_nil, List.append_nil]
  | receiveFailed =>
      obtain ⟨rfl, -⟩ : client = next ∧ [] = calls := by
        simpa [VoiceChatClient.step] using hstep
      rwa [List.filterMap_cons_none rfl, List.filterMap_nil, List.append_nil]

/-- The buffer is as long as arrivals have been ahead of the timer. -/
theorem backlog_of_run {resolved : Endpoint} {events : List ClientEvent}
    {final : VoiceChatClient} {calls : List ClientCall}
    (hrun : run step (new resolved) events = some (final, calls)) :
    DropOldest.Backlog (bufferEvents events) final.network.jitterBuffer := by
  apply run_induction step
    (motive := fun past client _ => DropOldest.Backlog (bufferEvents past)
      client.network.jitterBuffer) ?_ ?_ hrun
  · exact DropOldest.backlog_nil
  · intro past client calls event next new _ hpast hstep
    exact backlog_step hpast hstep

/-- Only the bound is not kept by every step. -/
theorem jitterKept_iff {resolved : Endpoint} {past : List ClientEvent}
    {client next : VoiceChatClient} {event : ClientEvent}
    {calls new : List ClientCall}
    (hpast : run step (VoiceChatClient.new resolved) past = some (client, calls))
    (hstep : client.step event = some (next, new)) :
    JitterKept past client calls event next new ↔
      next.network.jitterBuffer.length ≤ jitterBufferSize := by
  constructor
  · intro hkept
    exact hkept.bounded
  · intro hbounded
    have hfifo := callbacks_append_jitterBuffer
      ((run_concat_eq_some step).2 ⟨client, calls, new, hpast, hstep, rfl⟩)
    exact {
      order := hfifo ▸ List.sublist_append_left _ _
      newest := hfifo ▸ List.suffix_append _ _
      bounded := hbounded }

/-- The jitter buffer keeps what it names in every state of a run exactly when
in no stretch of the run more than three packets arrive beyond the expiries of
the timer. -/
theorem jitterKept_iff_excess {resolved : Endpoint}
    {events : List ClientEvent} {final : VoiceChatClient}
    {calls : List ClientCall}
    (hrun : run step (new resolved) events = some (final, calls)) :
    EachStep step JitterKept (new resolved) events ↔
      ∀ stretch, stretch <:+: bufferEvents events →
        DropOldest.excess stretch ≤ jitterBufferSize := by
  constructor
  · intro heach stretch hstretch
    obtain ⟨earlier, hsuffix, hprefix⟩ :=
      List.infix_iff_suffix_prefix.1 hstretch
    obtain ⟨past, hpast, rfl⟩ := List.prefix_filterMap_iff.1 hprefix
    obtain ⟨client, first, hclient⟩ := run_isPrefix hrun hpast
    have hbound : client.network.jitterBuffer.length ≤ jitterBufferSize := by
      induction past using List.reverseRecOn with
      | nil =>
          obtain ⟨rfl, -⟩ := (run_nil_eq_some step).1 hclient
          exact Nat.zero_le _
      | append_singleton before event _ =>
          obtain ⟨state, outs, new, hstate, hstep, -⟩ :=
            (run_concat_eq_some step).1 hclient
          exact (heach before event hpast state outs client new hstate
            hstep).bounded
    have hexcess := (backlog_of_run hclient).bound stretch hsuffix
    omega
  · intro hfew past event hpast client first next new hclient hstep
    rw [jitterKept_iff hclient hstep]
    have hnext := backlog_of_run
      ((run_concat_eq_some step).2 ⟨client, first, new, hclient, hstep, rfl⟩)
    obtain ⟨stretch, hsuffix, hexcess⟩ := hnext.attained
    have hprefix := List.IsPrefix.filterMap bufferEvent hpast
    have hlimit := hfew stretch
      (List.infix_iff_suffix_prefix.2 ⟨_, hsuffix, hprefix⟩)
    omega

/-- A datagram of one sample from the server. -/
def arrival : ClientEvent :=
  .received serverAddress [0, 0]

/-- Four arrivals with an expiry of the timer between them. -/
theorem jitterKept_iff_excess_tick :
    let events := [arrival, arrival, arrival, .jitterTick, arrival]
    ∃ final calls, run step (new serverAddress) events = some (final, calls) ∧
      (EachStep step JitterKept (new serverAddress) events ↔
        ∀ stretch, stretch <:+: bufferEvents events →
          DropOldest.excess stretch ≤ jitterBufferSize) := by
  intro events
  have hsome : ∃ final calls, run step (new serverAddress) events =
      some (final, calls) := ⟨_, _, rfl⟩
  obtain ⟨final, calls, hrun⟩ := hsome
  exact ⟨final, calls, hrun, jitterKept_iff_excess hrun⟩

/-- Four packets between two ticks. -/
theorem jitter_unbounded :
    ¬ ∀ resolved events final calls,
      run step (new resolved) events = some (final, calls) →
      EachStep step JitterKept (new resolved) events := by
  intro hclaim
  have hkept := hclaim serverAddress [arrival, arrival, arrival, arrival] _ _
    rfl [arrival, arrival, arrival] arrival List.prefix_rfl _ _ _ _ rfl rfl
  exact absurd hkept.bounded (by decide)

end VoiceChatClient

end VoiceServer

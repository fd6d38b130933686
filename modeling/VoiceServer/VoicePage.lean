/-
The script of the web client's page: the buttons, the WebSocket, the jitter buffer
and the audio graph.  A handler runs to its end, or to its next `await`, before
the next one starts.
-/
import VoiceServer.DropOldest
import VoiceServer.PartialRun

namespace VoiceServer

/-- `readyState`. -/
inductive ReadyState where
  | connecting
  | opened
  | closing
  | closed
deriving DecidableEq, Repr

/-- The variables of the script, the `disabled` flags of its buttons and the text
of `statusDiv`; and of the browser, the sockets, media streams, audio contexts
and worklet nodes made so far, the calls of `startAudio` at each of their two
`await`s, and the timers of `setInterval`.  A stream is live until its tracks
are stopped, a context until it is closed, and a worklet node has a handler for
the messages of its port or none. -/
structure VoicePage where
  audioContext : Option Nat
  audioWorklet : Option Nat
  mediaStream : Option Nat
  webSocket : Option Nat
  jitterBuffer : List (List UInt8)
  connectBtnDisabled : Bool
  disconnectBtnDisabled : Bool
  startAudioBtnDisabled : Bool
  stopAudioBtnDisabled : Bool
  status : String
  sockets : List ReadyState
  streams : List Bool
  contexts : List Bool
  worklets : List Bool
  awaitingMedia : Nat
  awaitingModule : Nat
  intervals : Nat
deriving DecidableEq, Repr

/-- How far `startAudio` gets when `getUserMedia` has resolved: to the call of
`addModule`, or to an exception before or behind `new AudioContext`. -/
inductive Granted where
  | loading
  | noContext (message : String)
  | noWorklet (message : String)
deriving DecidableEq, Repr

/-- How far it gets when `addModule` has resolved: to its end, or to an exception
before or behind `new AudioWorkletNode`. -/
inductive Loaded where
  | connected
  | noNode (message : String)
  | unconnected (message : String)
deriving DecidableEq, Repr

inductive PageEvent where
  | connect (created : Bool)
  | onopen (socket : Nat)
  | onclose (socket : Nat)
  | onerror (socket : Nat)
  | onmessage (socket : Nat) (binary : Bool) (data : List UInt8)
  | disconnect
  | startAudio
  | mediaGranted (outcome : Granted)
  | mediaRefused (message : String)
  | moduleLoaded (outcome : Loaded)
  | moduleRefused (message : String)
  | captured (worklet : Nat) (data : List UInt8)
  | interval (timer : Nat)
  | stopAudio
deriving DecidableEq, Repr

/-- `webSocket.send` and `port.postMessage`. -/
inductive PageCall where
  | send (socket : Nat) (data : List UInt8)
  | postMessage (worklet : Nat) (data : List UInt8)
deriving DecidableEq, Repr

namespace VoicePage

/-- `JITTER_BUFFER_SIZE`. -/
def jitterBufferSize : Nat := 3

/-- The page as it is loaded. -/
def new : VoicePage where
  audioContext := none
  audioWorklet := none
  mediaStream := none
  webSocket := none
  jitterBuffer := []
  connectBtnDisabled := false
  disconnectBtnDisabled := true
  startAudioBtnDisabled := true
  stopAudioBtnDisabled := true
  status := "Disconnected"
  sockets := []
  streams := []
  contexts := []
  worklets := []
  awaitingMedia := 0
  awaitingModule := 0
  intervals := 0

def connect (page : VoicePage) (created : Bool) : VoicePage :=
  if created then
    { page with
      webSocket := some page.sockets.length
      sockets := page.sockets ++ [.connecting] }
  else { page with status := "Connection error" }

def onopen (page : VoicePage) (socket : Nat) : VoicePage :=
  { page with
    sockets := page.sockets.set socket .opened
    status := "Connected"
    connectBtnDisabled := true
    disconnectBtnDisabled := false
    startAudioBtnDisabled := false }

def onclose (page : VoicePage) (socket : Nat) : VoicePage :=
  { page with
    sockets := page.sockets.set socket .closed
    status := "Disconnected"
    connectBtnDisabled := false
    disconnectBtnDisabled := true
    startAudioBtnDisabled := true
    stopAudioBtnDisabled := true }

/-- A view of 16-bit samples on a buffer of odd size is an exception. -/
def onmessage (page : VoicePage) (binary : Bool) (data : List UInt8) :
    VoicePage :=
  if binary = true ∧ data.length % 2 = 0 then
    let pushed := page.jitterBuffer ++ [data]
    { page with jitterBuffer :=
        if pushed.length > jitterBufferSize then pushed.tail else pushed }
  else page

def stopAudio (page : VoicePage) : VoicePage :=
  { page with
    contexts := page.audioContext.elim page.contexts
      (page.contexts.set · false)
    audioContext := none
    streams := page.mediaStream.elim page.streams (page.streams.set · false)
    mediaStream := none
    status := "Audio stopped"
    startAudioBtnDisabled := false
    stopAudioBtnDisabled := true }

/-- `close` on a socket; one that is closing or closed stays as it is. -/
def close (sockets : List ReadyState) (socket : Nat) : List ReadyState :=
  match sockets[socket]? with
  | some .connecting => sockets.set socket .closing
  | some .opened => sockets.set socket .closing
  | _ => sockets

def disconnect (page : VoicePage) : VoicePage :=
  { page with
    sockets := page.webSocket.elim page.sockets (close page.sockets)
  }.stopAudio

/-- The `catch` of `startAudio`. -/
def audioStartError (page : VoicePage) (message : String) : VoicePage :=
  { page with status := "Audio start error: " ++ message }

/-- `startAudio` from its first `await` on. -/
def mediaGranted (page : VoicePage) (outcome : Granted) : VoicePage :=
  let recording := { page with
    awaitingMedia := page.awaitingMedia - 1
    mediaStream := some page.streams.length
    streams := page.streams ++ [true] }
  match outcome with
  | .noContext message => recording.audioStartError message
  | .noWorklet message =>
      { recording with
        audioContext := some page.contexts.length
        contexts := page.contexts ++ [true] }.audioStartError message
  | .loading =>
      { recording with
        audioContext := some page.contexts.length
        contexts := page.contexts ++ [true]
        awaitingModule := page.awaitingModule + 1 }

/-- `startAudio` from its second `await` on. -/
def moduleLoaded (page : VoicePage) (outcome : Loaded) : VoicePage :=
  let resumed := { page with awaitingModule := page.awaitingModule - 1 }
  match outcome with
  | .noNode message => resumed.audioStartError message
  | .unconnected message =>
      { resumed with
        audioWorklet := some page.worklets.length
        worklets := page.worklets ++ [false] }.audioStartError message
  | .connected =>
      { resumed with
        audioWorklet := some page.worklets.length
        worklets := page.worklets ++ [true]
        status := "Audio started"
        startAudioBtnDisabled := true
        stopAudioBtnDisabled := false
        intervals := page.intervals + 1 }

/-- Without a context there is no node, and without a stream no source. -/
def supports (page : VoicePage) : Loaded → Bool
  | .noNode _ => true
  | .unconnected _ => page.audioContext.isSome
  | .connected => page.audioContext.isSome && page.mediaStream.isSome

/-- The handler of a worklet's port. -/
def captured (page : VoicePage) (data : List UInt8) : List PageCall :=
  match page.webSocket with
  | none => []
  | some socket =>
      if page.sockets[socket]? = some .opened then [.send socket data] else []

/-- The closure of `setInterval`. -/
def onInterval (page : VoicePage) : VoicePage × List PageCall :=
  match page.jitterBuffer, page.audioWorklet with
  | packet :: rest, some worklet =>
      ({ page with jitterBuffer := rest }, [.postMessage worklet packet])
  | _, _ => (page, [])

/-- What the browser can call: a button that is disabled is not clicked, a socket
that is not open receives nothing, and each `await` is resumed once. -/
def allows (page : VoicePage) : PageEvent → Bool
  | .connect _ => !page.connectBtnDisabled
  | .onopen socket => page.sockets[socket]? = some .connecting
  | .onclose socket => page.sockets[socket]?.any (· ≠ .closed)
  | .onerror socket => page.sockets[socket]?.any (· ≠ .closed)
  | .onmessage socket _ _ => page.sockets[socket]? = some .opened
  | .disconnect => !page.disconnectBtnDisabled
  | .startAudio => !page.startAudioBtnDisabled
  | .mediaGranted _ => 0 < page.awaitingMedia
  | .mediaRefused _ => 0 < page.awaitingMedia
  | .moduleLoaded outcome => 0 < page.awaitingModule && page.supports outcome
  | .moduleRefused _ => 0 < page.awaitingModule
  | .captured worklet _ => page.worklets[worklet]? = some true
  | .interval timer => timer < page.intervals
  | .stopAudio => !page.stopAudioBtnDisabled

/-- The handlers of the script. -/
def handle (page : VoicePage) : PageEvent → VoicePage × List PageCall
  | .connect created => (page.connect created, [])
  | .onopen socket => (page.onopen socket, [])
  | .onclose socket => (page.onclose socket, [])
  | .onerror _ => ({ page with status := "Connection error" }, [])
  | .onmessage _ binary data => (page.onmessage binary data, [])
  | .disconnect => (page.disconnect, [])
  | .startAudio => ({ page with awaitingMedia := page.awaitingMedia + 1 }, [])
  | .mediaGranted outcome => (page.mediaGranted outcome, [])
  | .mediaRefused message =>
      ({ page with
        awaitingMedia := page.awaitingMedia - 1 }.audioStartError message, [])
  | .moduleLoaded outcome => (page.moduleLoaded outcome, [])
  | .moduleRefused message =>
      ({ page with
        awaitingModule := page.awaitingModule - 1 }.audioStartError message, [])
  | .captured _ data => (page, page.captured data)
  | .interval _ => page.onInterval
  | .stopAudio => (page.stopAudio, [])

def step (page : VoicePage) (event : PageEvent) :
    Option (VoicePage × List PageCall) :=
  if page.allows event then some (page.handle event) else none

/-- What an event does to the jitter buffer. -/
def bufferEvent : PageEvent → Option (QueueEvent (List UInt8))
  | .onmessage _ binary data =>
      if binary = true ∧ data.length % 2 = 0 then some (.push data) else none
  | .interval _ => some .pop
  | _ => none

/-- The packets received and the timers fired. -/
def bufferEvents (events : List PageEvent) : List (QueueEvent (List UInt8)) :=
  events.filterMap bufferEvent

/-- The packets posted to worklet nodes. -/
def posted (calls : List PageCall) : List (List UInt8) :=
  calls.filterMap fun
    | .postMessage _ data => some data
    | .send _ _ => none

theorem posted_append (before after : List PageCall) :
    posted (before ++ after) = posted before ++ posted after :=
  List.filterMap_append ..

section Step

variable {page next : VoicePage} {event : PageEvent} {calls : List PageCall}

theorem step_eq_some :
    page.step event = some (next, calls) ↔
      page.allows event = true ∧ page.handle event = (next, calls) := by
  rw [step, Option.ite_none_right_eq_some, Option.some.injEq]

/-- A timer has a worklet node to post to. -/
def TimersReady (page : VoicePage) : Prop :=
  0 < page.intervals → page.audioWorklet.isSome = true

theorem TimersReady.handle (hready : page.TimersReady) (event : PageEvent) :
    (page.handle event).1.TimersReady := by
  cases event with
  | connect created => cases created <;> exact hready
  | onmessage socket binary data =>
      simp only [VoicePage.handle, onmessage]
      split <;> exact hready
  | mediaGranted outcome => cases outcome <;> exact hready
  | moduleLoaded outcome =>
      cases outcome with
      | connected => exact fun _ => rfl
      | noNode message => exact hready
      | unconnected message => exact fun _ => rfl
  | interval timer =>
      simp only [VoicePage.handle, onInterval]
      split <;> exact hready
  | _ => exact hready

/-- One `shift` is enough. -/
theorem shift_eq_drop {queue : List (List UInt8)} {data : List UInt8}
    (hlength : queue.length ≤ jitterBufferSize) :
    (if (queue ++ [data]).length > jitterBufferSize then (queue ++ [data]).tail
      else queue ++ [data]) =
      (queue ++ [data]).drop ((queue ++ [data]).length - jitterBufferSize) := by
  rw [List.length_append, List.length_singleton]
  by_cases hfull : queue.length + 1 > jitterBufferSize
  · rw [if_pos hfull, ← List.drop_one,
      show queue.length + 1 - jitterBufferSize = 1 by omega]
  · rw [if_neg hfull, show queue.length + 1 - jitterBufferSize = 0 by omega,
      List.drop_zero]

/-- The jitter buffer is a queue of three that drops its oldest packet. -/
theorem queue_of_step (hready : page.TimersReady)
    (hlength : page.jitterBuffer.length ≤ jitterBufferSize)
    (hstep : page.step event = some (next, calls)) :
    ∃ left, run (DropOldest.step jitterBufferSize) page.jitterBuffer
        (bufferEvent event).toList = some (next.jitterBuffer, left) ∧
      posted calls = DropOldest.popped left := by
  obtain ⟨hallowed, hhandle⟩ := step_eq_some.1 hstep
  cases event with
  | onmessage socket binary data =>
      rcases Prod.mk.inj hhandle with ⟨rfl, rfl⟩
      by_cases hkept : binary = true ∧ data.length % 2 = 0
      · have hpushed : (page.onmessage binary data).jitterBuffer =
            (page.jitterBuffer ++ [data]).drop
              ((page.jitterBuffer ++ [data]).length - jitterBufferSize) := by
          rw [onmessage, if_pos hkept]
          exact shift_eq_drop hlength
        rw [bufferEvent, if_pos hkept, hpushed]
        refine ⟨_, (run_cons_eq_some _).2 ⟨_, _, [], rfl, rfl, rfl⟩, ?_⟩
        rw [List.append_nil]
        exact (DropOldest.popped_map_dropped _).symm
      · rw [bufferEvent, if_neg hkept, onmessage, if_neg hkept]
        exact ⟨[], rfl, rfl⟩
  | interval timer =>
      have htimer : timer < page.intervals := of_decide_eq_true hallowed
      obtain ⟨worklet, hworklet⟩ :=
        Option.isSome_iff_exists.1 (hready (Nat.zero_lt_of_lt htimer))
      simp only [handle, onInterval, hworklet] at hhandle
      cases hqueue : page.jitterBuffer with
      | nil =>
          simp only [hqueue] at hhandle
          rcases Prod.mk.inj hhandle with ⟨rfl, rfl⟩
          rw [hqueue]
          exact ⟨[], rfl, rfl⟩
      | cons packet rest =>
          simp only [hqueue] at hhandle
          rcases Prod.mk.inj hhandle with ⟨rfl, rfl⟩
          exact ⟨[(packet, .popped)], rfl, rfl⟩
  | connect created =>
      rcases Prod.mk.inj hhandle with ⟨rfl, rfl⟩
      cases created <;> exact ⟨[], rfl, rfl⟩
  | mediaGranted outcome =>
      rcases Prod.mk.inj hhandle with ⟨rfl, rfl⟩
      cases outcome <;> exact ⟨[], rfl, rfl⟩
  | moduleLoaded outcome =>
      rcases Prod.mk.inj hhandle with ⟨rfl, rfl⟩
      cases outcome <;> exact ⟨[], rfl, rfl⟩
  | captured worklet data =>
      rcases Prod.mk.inj hhandle with ⟨rfl, rfl⟩
      refine ⟨[], rfl, ?_⟩
      rw [VoicePage.captured]
      cases page.webSocket with
      | none => rfl
      | some socket =>
          simp only
          split <;> rfl
  | _ =>
      rcases Prod.mk.inj hhandle with ⟨rfl, rfl⟩
      exact ⟨[], rfl, rfl⟩

theorem timersReady_of_run {events : List PageEvent}
    (hrun : run step new events = some (page, calls)) : page.TimersReady := by
  refine run_preserves _ (P := TimersReady) ?_ (fun h => absurd h (by decide))
    hrun
  intro state event after outs hready hstep
  have hafter := hready.handle event
  rwa [(step_eq_some.1 hstep).2] at hafter

theorem queue_of_run {events : List PageEvent}
    (hrun : run step new events = some (page, calls)) :
    ∃ left, run (DropOldest.step jitterBufferSize) [] (bufferEvents events) =
        some (page.jitterBuffer, left) ∧
      posted calls = DropOldest.popped left := by
  refine run_induction _ (motive := fun past state outs =>
    ∃ left, run (DropOldest.step jitterBufferSize) [] (bufferEvents past) =
        some (state.jitterBuffer, left) ∧
      posted outs = DropOldest.popped left) ⟨[], rfl, rfl⟩ ?_ hrun
  rintro past state outs event after more hpast ⟨left, hqueue, hposted⟩ hstep
  obtain ⟨new, hnew, hpopped⟩ := queue_of_step (timersReady_of_run hpast)
    (DropOldest.length_le hqueue) hstep
  have hevents : bufferEvents (past ++ [event]) =
      bufferEvents past ++ (bufferEvent event).toList := by
    rw [bufferEvents, List.filterMap_append]
    cases hevent : bufferEvent event <;> simp [hevent, bufferEvents]
  refine ⟨left ++ new, ?_, ?_⟩
  · rw [hevents, run_append_eq_some]
    exact ⟨state.jitterBuffer, left, new, hqueue, hnew, rfl⟩
  · rw [posted_append, hposted, hpopped, DropOldest.popped_append]

end Step

/-- The jitter buffer over a run, however many sockets and timers there are: the
packets received leave it in order, posted to a worklet node or dropped, and at
most three wait.  None is dropped exactly if in no stretch of the run the packets
received outnumber the firings of timers by more than three. -/
theorem page_accounts {events : List PageEvent} {final : VoicePage}
    {calls : List PageCall} (hrun : run step new events = some (final, calls)) :
    ∃ left, run (DropOldest.step jitterBufferSize) [] (bufferEvents events) =
        some (final.jitterBuffer, left) ∧
      left.map Prod.fst ++ final.jitterBuffer =
        DropOldest.pushes (bufferEvents events) ∧
      final.jitterBuffer.length ≤ jitterBufferSize ∧
      posted calls = DropOldest.popped left ∧
      ((∀ item ∈ left, item.2 = .popped) ↔
        ∀ stretch, stretch <:+: bufferEvents events →
          DropOldest.excess stretch ≤ jitterBufferSize) := by
  obtain ⟨left, hqueue, hposted⟩ := queue_of_run hrun
  exact ⟨left, hqueue, DropOldest.left_append_queue hqueue,
    DropOldest.length_le hqueue, hposted, DropOldest.all_popped_iff hqueue⟩

/-- A page that plays: four packets come, and the timer fires twice. -/
def tuned : List PageEvent :=
  [.connect true, .onopen 0, .startAudio, .mediaGranted .loading,
    .moduleLoaded .connected, .onmessage 0 true [1, 0], .onmessage 0 true [2, 0],
    .onmessage 0 true [3, 0], .onmessage 0 true [4, 0], .interval 0, .interval 0]

/-- The first of the four is dropped. -/
theorem tuned_run :
    ∃ final, run step new tuned = some (final,
        [.postMessage 0 [2, 0], .postMessage 0 [3, 0]]) ∧
      final.jitterBuffer = [[4, 0]] :=
  ⟨_, rfl, rfl⟩

theorem page_accounts_tuned :
    ∃ (final : VoicePage) (left : List (List UInt8 × Leave)),
      run (DropOldest.step jitterBufferSize) [] (bufferEvents tuned) =
        some (final.jitterBuffer, left) ∧
      final.jitterBuffer = [[4, 0]] ∧
      left.map Prod.fst ++ final.jitterBuffer =
        DropOldest.pushes (bufferEvents tuned) ∧
      final.jitterBuffer.length ≤ jitterBufferSize ∧
      posted [.postMessage 0 [2, 0], .postMessage 0 [3, 0]] =
        DropOldest.popped left ∧
      ((∀ item ∈ left, item.2 = .popped) ↔
        ∀ stretch, stretch <:+: bufferEvents tuned →
          DropOldest.excess stretch ≤ jitterBufferSize) := by
  obtain ⟨final, hrun, hbuffer⟩ := tuned_run
  obtain ⟨left, hqueue, haccounts⟩ := page_accounts hrun
  exact ⟨final, left, hqueue, hbuffer, haccounts⟩

/-- Stop would leave no stream live and no context running. -/
def Stoppable (page : VoicePage) : Prop :=
  (∀ stream : Nat, page.stopAudio.streams[stream]? ≠ some true) ∧
    ∀ context : Nat, page.stopAudio.contexts[context]? ≠ some true

/-- The only live stream and the only running context are those of the script. -/
structure Held (page : VoicePage) : Prop where
  stream : ∀ stream, page.streams[stream]? = some true →
    page.mediaStream = some stream
  context : ∀ context, page.contexts[context]? = some true →
    page.audioContext = some context
  live : ∀ stream, page.mediaStream = some stream →
    page.streams[stream]? = some true
  both : page.audioContext.isSome = true → page.mediaStream.isSome = true

/-- The microphone is not handed out while the page holds it. -/
def GrantedOnce (page : VoicePage) (event : PageEvent) : Prop :=
  ∀ outcome, event = .mediaGranted outcome → page.mediaStream = none

theorem held_new : Held new := by
  refine ⟨?_, ?_, ?_, id⟩
  · intro stream hlive
    simp [new] at hlive
  · intro context hlive
    simp [new] at hlive
  · intro stream hcurrent
    simp [new] at hcurrent

/-- Ending the one that is current ends all. -/
theorem none_live {flags : List Bool} {current : Option Nat}
    (honly : ∀ i, flags[i]? = some true → current = some i) (i : Nat) :
    (current.elim flags (flags.set · false))[i]? ≠ some true := by
  cases current with
  | none => exact fun hlive => absurd (honly i hlive) (by simp)
  | some j =>
      intro hlive
      rw [Option.elim_some, List.getElem?_set] at hlive
      by_cases hsame : j = i
      · rw [if_pos hsame] at hlive
        split at hlive <;> simp at hlive
      · rw [if_neg hsame] at hlive
        exact hsame (Option.some.inj (honly i hlive))

/-- A new one, while there is none. -/
theorem live_concat {flags : List Bool}
    (hnone : ∀ i : Nat, flags[i]? ≠ some true) {i : Nat}
    (hlive : (flags ++ [true])[i]? = some true) : some flags.length = some i := by
  rcases Nat.lt_trichotomy i flags.length with hold | hnew | hpast
  · rw [List.getElem?_append_left hold] at hlive
    exact absurd hlive (hnone i)
  · rw [hnew]
  · rw [List.getElem?_append_right hpast.le,
      List.getElem?_eq_none (by simp; omega)] at hlive
    exact absurd hlive (by simp)

section Step

variable {page next : VoicePage} {event : PageEvent} {calls : List PageCall}

theorem Held.of_eq (hheld : page.Held) (hstreams : next.streams = page.streams)
    (hcontexts : next.contexts = page.contexts)
    (hstream : next.mediaStream = page.mediaStream)
    (hcontext : next.audioContext = page.audioContext) : next.Held := by
  refine ⟨?_, ?_, ?_, ?_⟩
  · rw [hstreams, hstream]
    exact hheld.stream
  · rw [hcontexts, hcontext]
    exact hheld.context
  · rw [hstreams, hstream]
    exact hheld.live
  · rw [hstream, hcontext]
    exact hheld.both

theorem Held.stoppable (hheld : page.Held) : page.Stoppable :=
  ⟨none_live hheld.stream, none_live hheld.context⟩

theorem Held.stopAudio (hheld : page.Held) : page.stopAudio.Held := by
  refine ⟨?_, ?_, ?_, id⟩
  · intro stream hlive
    exact absurd hlive (hheld.stoppable.1 stream)
  · intro context hlive
    exact absurd hlive (hheld.stoppable.2 context)
  · intro stream hcurrent
    exact absurd (show none = some stream from hcurrent) (by simp)

theorem Held.mediaGranted (hheld : page.Held) (hfree : page.mediaStream = none)
    (outcome : Granted) : (page.mediaGranted outcome).Held := by
  have hstreams : ∀ i : Nat, page.streams[i]? ≠ some true := by
    intro i hlive
    rw [hheld.stream i hlive] at hfree
    exact absurd hfree (by simp)
  have hcontexts : ∀ i : Nat, page.contexts[i]? ≠ some true := by
    intro i hlive
    have hboth := hheld.both
    rw [hheld.context i hlive, hfree] at hboth
    exact absurd (hboth rfl) (by simp)
  have hlive : ∀ stream, some page.streams.length = some stream →
      (page.streams ++ [true])[stream]? = some true := by
    rintro stream hcurrent
    rw [← Option.some.inj hcurrent]
    simp
  cases outcome with
  | loading =>
      exact ⟨fun _ => live_concat hstreams, fun _ => live_concat hcontexts,
        hlive, fun _ => rfl⟩
  | noContext message =>
      refine ⟨fun _ => live_concat hstreams, ?_, hlive, fun _ => rfl⟩
      exact fun context hcontext => absurd hcontext (hcontexts context)
  | noWorklet message =>
      exact ⟨fun _ => live_concat hstreams, fun _ => live_concat hcontexts,
        hlive, fun _ => rfl⟩

theorem Held.step (hheld : page.Held) (honce : page.GrantedOnce event)
    (hstep : page.step event = some (next, calls)) : next.Held := by
  have hnext : (page.handle event).1 = next := by
    rw [(step_eq_some.1 hstep).2]
  subst hnext
  cases event with
  | stopAudio => exact hheld.stopAudio
  | disconnect =>
      have hclosing : Held { page with
          sockets := page.webSocket.elim page.sockets (close page.sockets) } :=
        hheld.of_eq rfl rfl rfl rfl
      exact hclosing.stopAudio
  | mediaGranted outcome => exact hheld.mediaGranted (honce outcome rfl) outcome
  | connect created => cases created <;> exact hheld.of_eq rfl rfl rfl rfl
  | onmessage socket binary data =>
      simp only [handle, onmessage]
      split <;> exact hheld.of_eq rfl rfl rfl rfl
  | moduleLoaded outcome =>
      cases outcome <;> exact hheld.of_eq rfl rfl rfl rfl
  | interval timer =>
      simp only [handle, onInterval]
      split <;> exact hheld.of_eq rfl rfl rfl rfl
  | _ => exact hheld.of_eq rfl rfl rfl rfl

/-- A stream granted while there is another one takes its place, and nothing
stops the other one any more. -/
theorem Held.not_stoppable (hheld : page.Held) (hagain : ¬ page.GrantedOnce event)
    (hstep : page.step event = some (next, calls)) : ¬ next.Stoppable := by
  simp only [GrantedOnce, not_forall] at hagain
  obtain ⟨outcome, rfl, hstream⟩ := hagain
  obtain ⟨stream, hcurrent⟩ := Option.ne_none_iff_exists'.1 hstream
  have hlive := hheld.live stream hcurrent
  have hindex := (List.getElem?_eq_some_iff.1 hlive).1
  have hnext : (page.mediaGranted outcome) = next := by
    have hhandle := (step_eq_some.1 hstep).2
    exact (Prod.mk.inj hhandle).1
  have hstreams : next.streams = page.streams ++ [true] := by
    rw [← hnext]
    cases outcome <;> rfl
  have hreplaced : next.mediaStream = some page.streams.length := by
    rw [← hnext]
    cases outcome <;> rfl
  have hstopped : next.stopAudio.streams =
      (page.streams ++ [true]).set page.streams.length false := by
    rw [VoicePage.stopAudio, hstreams, hreplaced]
    rfl
  intro hstoppable
  apply hstoppable.1 stream
  rw [hstopped, List.getElem?_set_ne (by omega),
    List.getElem?_append_left hindex]
  exact hlive

end Step

/-- Stop ends every recording, in every state of a run, exactly if no microphone
is handed out while the page holds one: not by a second click on Start before
the first is answered, and not by a click after the connection was lost and made
again. -/
theorem stoppable_iff {events : List PageEvent} {final : VoicePage}
    {calls : List PageCall} (hrun : run step new events = some (final, calls)) :
    Along step Stoppable new events ↔ StepsMeet step GrantedOnce new events :=
  along_iff_stepsMeet (fun _ hheld => hheld.stoppable)
    (fun _ _ _ _ hheld honce hstep => hheld.step honce hstep)
    (fun _ _ _ _ hheld hagain hstep => hheld.not_stoppable hagain hstep)
    held_new hrun

/-- Start is clicked again before the first click is answered. -/
def clickedTwice : List PageEvent :=
  [.connect true, .onopen 0, .startAudio, .startAudio, .mediaGranted .loading,
    .mediaGranted .loading, .moduleLoaded .connected]

/-- One microphone is stopped, of two the first one is not. -/
theorem stoppable_iff_twice :
    Along step Stoppable new tuned ∧
      ¬ StepsMeet step GrantedOnce new clickedTwice := by
  obtain ⟨final, hrun, -⟩ := tuned_run
  have hagain : ∃ page calls, run step new clickedTwice = some (page, calls) ∧
      page.stopAudio.streams = [true, false] := ⟨_, _, rfl, rfl⟩
  obtain ⟨page, calls, hclicked, hstreams⟩ := hagain
  constructor
  · apply (stoppable_iff hrun).2
    have hother : ∀ (page : VoicePage) (event : PageEvent),
        (∀ outcome, event ≠ .mediaGranted outcome) → page.GrantedOnce event :=
      fun page event hnot outcome heq => absurd heq (hnot outcome)
    refine .cons (hother _ _ (by simp)) rfl ?_
    refine .cons (hother _ _ (by simp)) rfl ?_
    refine .cons (hother _ _ (by simp)) rfl ?_
    refine .cons (fun _ _ => rfl) rfl ?_
    iterate 7 refine .cons (hother _ _ (by simp)) rfl ?_
    exact stepsMeet_nil _ _
  · intro honce
    have hstoppable := (stoppable_iff hclicked).2 honce clickedTwice
      List.prefix_rfl page calls hclicked
    exact hstoppable.1 0 (by rw [hstreams]; rfl)

end VoicePage

end VoiceServer

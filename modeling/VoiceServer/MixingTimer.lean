/-
The mixing timer of a room.  Starting it cancels the wait that is pending, but
not a handler that is already queued, so several handlers may be queued at once
while at most one wait is pending.
-/
import VoiceServer.RoomHistory

namespace VoiceServer

universe u v

/-- An asio `steady_timer`, by how many of its waits are pending, have expired
with their handler still to run, and were cancelled with their handler still to
run with an error. -/
structure SteadyTimer where
  pending : Nat
  expired : Nat
  cancelled : Nat
deriving DecidableEq, Repr

namespace SteadyTimer

def new : SteadyTimer := ⟨0, 0, 0⟩

/-- `expires_after`: the pending waits are cancelled. -/
def expiresAfter (timer : SteadyTimer) : SteadyTimer :=
  { timer with
    pending := 0
    cancelled := timer.cancelled + timer.pending }

def asyncWait (timer : SteadyTimer) : SteadyTimer :=
  { timer with pending := timer.pending + 1 }

/-- The time the timer was set to has come. -/
def expire (timer : SteadyTimer) : SteadyTimer :=
  { timer with
    pending := 0
    expired := timer.expired + timer.pending }

/-- The handler of a wait is taken from the queue to run. -/
def takeHandler (timer : SteadyTimer) (ok : Bool) : Option SteadyTimer :=
  if ok then
    if 0 < timer.expired then
      some { timer with expired := timer.expired - 1 }
    else none
  else
    if 0 < timer.cancelled then
      some { timer with cancelled := timer.cancelled - 1 }
    else none

/-- How many handlers are still to run. -/
def outstanding (timer : SteadyTimer) : Nat :=
  timer.pending + timer.expired + timer.cancelled

/-- Only `async_wait` adds a handler run, and each run uses one up. -/
theorem outstanding_eq (timer : SteadyTimer) :
    timer.expiresAfter.outstanding = timer.outstanding ∧
      timer.asyncWait.outstanding = timer.outstanding + 1 ∧
      timer.expire.outstanding = timer.outstanding ∧
      ∀ ok taken, timer.takeHandler ok = some taken →
        timer.outstanding = taken.outstanding + 1 := by
  refine ⟨?_, ?_, ?_, ?_⟩
  · simp only [outstanding, expiresAfter]
    omega
  · simp only [outstanding, asyncWait]
    omega
  · simp only [outstanding, expire]
    omega
  · intro ok taken htaken
    cases ok with
    | false =>
        simp only [takeHandler, Bool.false_eq_true, ↓reduceIte,
          Option.ite_none_right_eq_some, Option.some.injEq] at htaken
        obtain ⟨hpos, rfl⟩ := htaken
        simp only [outstanding]
        omega
    | true =>
        simp only [takeHandler, ↓reduceIte, Option.ite_none_right_eq_some,
          Option.some.injEq] at htaken
        obtain ⟨hpos, rfl⟩ := htaken
        simp only [outstanding]
        omega

/-- Whether the mixing loop will go on: a wait that nothing has cancelled. -/
def Alive (timer : SteadyTimer) : Prop :=
  0 < timer.pending + timer.expired

end SteadyTimer

/-- A room with its timer. -/
structure MixingRoom (Id : Type u) [DecidableEq Id] (Client : Type v) where
  room : RoomManager Id Client
  timer : SteadyTimer

/-- The calls of a room's methods, and what the timer's thread does. -/
inductive MixingEvent (Id : Type u) (Client : Type v) where
  | addClient (id : Id) (client : Client)
  | removeClient (id : Id)
  | processAudio (now : Int) (id : Id) (packet : AudioPacket)
  | expired
  | handled (now : Int) (walk : Walk Id)
  | aborted
deriving DecidableEq, Repr

/-- The call of the room an event makes. -/
def MixingEvent.roomEvent {Id : Type u} {Client : Type v} :
    MixingEvent Id Client → Option (RoomEvent Id Client)
  | .addClient id client => some (.addClient id client)
  | .removeClient id => some (.removeClient id)
  | .processAudio now id packet => some (.processAudio now id packet)
  | .handled now walk => some (.tick now walk)
  | .expired => none
  | .aborted => none

namespace MixingRoom

variable {Id : Type u} [DecidableEq Id] {Client : Type v}

def new : MixingRoom Id Client := ⟨RoomManager.new, SteadyTimer.new⟩

def startMixingTimer (mixing : MixingRoom Id Client) : MixingRoom Id Client :=
  { mixing with timer := mixing.timer.expiresAfter.asyncWait }

def addClient (mixing : MixingRoom Id Client) (id : Id) (client : Client) :
    MixingRoom Id Client :=
  let (room, starts) := mixing.room.addClient id client
  let added := { mixing with room := room }
  if starts then added.startMixingTimer else added

/-- The handlers are atomic; one that runs without an error mixes and starts the
timer again. -/
def step (mixing : MixingRoom Id Client) :
    MixingEvent Id Client →
    Option (MixingRoom Id Client × List (Delivery Id Client))
  | .addClient id client => some (mixing.addClient id client, [])
  | .removeClient id =>
      some ({ mixing with room := mixing.room.removeClient id }, [])
  | .processAudio now id packet =>
      some ({ mixing with room := mixing.room.processAudio now id packet }, [])
  | .expired => some ({ mixing with timer := mixing.timer.expire }, [])
  | .handled now walk =>
      (mixing.timer.takeHandler true).bind fun timer =>
        (mixing.room.step (.tick now walk)).map fun ticked =>
          ((MixingRoom.mk ticked.1 timer).startMixingTimer, ticked.2)
  | .aborted =>
      (mixing.timer.takeHandler false).map fun timer =>
        ({ mixing with timer := timer }, [])

/-- A step makes the room's step of its event, or leaves the room. -/
theorem room_of_step {mixing next : MixingRoom Id Client}
    {event : MixingEvent Id Client} {sent : List (Delivery Id Client)}
    (hstep : mixing.step event = some (next, sent)) :
    match event.roomEvent with
    | some called => mixing.room.step called = some (next.room, sent)
    | none => next.room = mixing.room ∧ sent = [] := by
  cases event with
  | addClient id client =>
      obtain ⟨rfl, rfl⟩ : mixing.addClient id client = next ∧ [] = sent := by
        simpa [step] using hstep
      simp only [MixingEvent.roomEvent, RoomManager.step, addClient]
      split <;> rfl
  | removeClient id =>
      obtain ⟨rfl, rfl⟩ : _ = next ∧ [] = sent := by
        simpa [step] using hstep
      rfl
  | processAudio now id packet =>
      obtain ⟨rfl, rfl⟩ : _ = next ∧ [] = sent := by
        simpa [step] using hstep
      rfl
  | expired =>
      obtain ⟨rfl, rfl⟩ : _ = next ∧ [] = sent := by
        simpa [step] using hstep
      exact ⟨rfl, rfl⟩
  | handled now walk =>
      simp only [step, Option.bind_eq_some_iff, Option.map_eq_some_iff,
        Prod.mk.injEq, Prod.exists] at hstep
      obtain ⟨timer, -, room, deliveries, htick, rfl, rfl⟩ := hstep
      exact htick
  | aborted =>
      simp only [step, Option.map_eq_some_iff, Prod.mk.injEq] at hstep
      obtain ⟨timer, -, rfl, rfl⟩ := hstep
      exact ⟨rfl, rfl⟩

/-- What is proved of the runs of a room holds of the room under its timer. -/
theorem room_of_run {events : List (MixingEvent Id Client)}
    {final : MixingRoom Id Client} {sent : List (Delivery Id Client)}
    (hrun : run step new events = some (final, sent)) :
    run RoomManager.step RoomManager.new
        (events.filterMap MixingEvent.roomEvent) = some (final.room, sent) := by
  refine run_induction step
    (motive := fun past state sent => run RoomManager.step RoomManager.new
      (past.filterMap MixingEvent.roomEvent) = some (state.room, sent))
    rfl ?_ hrun
  intro past state outs event next new _ hpast hstep
  have hroom := room_of_step hstep
  rw [List.filterMap_append, List.filterMap_cons, List.filterMap_nil]
  cases hcalled : event.roomEvent with
  | none =>
      rw [hcalled] at hroom
      obtain ⟨hsame, rfl⟩ := hroom
      rw [List.append_nil, List.append_nil, hsame]
      exact hpast
  | some called =>
      rw [hcalled] at hroom
      exact (run_concat_eq_some RoomManager.step).2
        ⟨state.room, outs, new, hpast, hroom, rfl⟩

theorem clients_cleanUp (now : Int) (order : List Id)
    (room : RoomManager Id Client) :
    (RoomManager.cleanUp now order room).clients = room.clients := by
  induction order generalizing room with
  | nil => rfl
  | cons id rest ih =>
      unfold RoomManager.cleanUp
      simp only
      split
      · exact ih _
      · exact ih room

theorem clients_of_tick {room next : RoomManager Id Client} {now : Int}
    {walk : Walk Id} {sent : List (Delivery Id Client)}
    (htick : room.step (.tick now walk) = some (next, sent)) :
    next.clients = room.clients := by
  simp only [RoomManager.step, Option.ite_none_right_eq_some,
    Option.some.injEq] at htick
  obtain ⟨-, htick⟩ := htick
  have hroom := congrArg Prod.fst htick
  simp only [RoomManager.mixAndSendAudio] at hroom
  rw [← hroom, clients_cleanUp]

/-- An `addClient` has been among the events. -/
def Opened (events : List (MixingEvent Id Client)) : Prop :=
  ∃ id client, .addClient id client ∈ events

/-- At most one wait is pending; the loop is alive once a client was added, and
until then nobody is there. -/
structure Looping (mixing : MixingRoom Id Client)
    (past : List (MixingEvent Id Client)) : Prop where
  single : mixing.timer.pending ≤ 1
  alive : Opened past → mixing.timer.Alive
  closed : ¬ Opened past → mixing.room.clients = ∅

section Step

variable {mixing next : MixingRoom Id Client}
  {past : List (MixingEvent Id Client)} {event : MixingEvent Id Client}
  {sent : List (Delivery Id Client)}

omit [DecidableEq Id] in
theorem opened_concat_other (hother : ∀ id client,
    event ≠ .addClient id client) : Opened (past ++ [event]) ↔ Opened past := by
  constructor
  · rintro ⟨id, client, hmem⟩
    rcases List.mem_append.1 hmem with hmem | hmem
    · exact ⟨id, client, hmem⟩
    · exact absurd (List.mem_singleton.1 hmem).symm (hother id client)
  · rintro ⟨id, client, hmem⟩
    exact ⟨id, client, List.mem_append_left _ hmem⟩

/-- Starting the timer leaves one wait pending, whatever was queued. -/
theorem alive_startMixingTimer (mixing : MixingRoom Id Client) :
    mixing.startMixingTimer.timer.pending = 1 ∧
      mixing.startMixingTimer.timer.Alive := by
  refine ⟨rfl, ?_⟩
  change 0 < 0 + 1 + mixing.timer.expired
  omega

theorem Looping.addClient (hlooping : mixing.Looping past) (id : Id)
    (client : Client) :
    (mixing.addClient id client).Looping (past ++ [.addClient id client]) := by
  have hopened : Opened (past ++ [.addClient id client]) :=
    ⟨id, client, by simp⟩
  by_cases hstarts : (mixing.room.addClient id client).2 = true
  · have hadded : mixing.addClient id client =
        MixingRoom.startMixingTimer
          { mixing with room := (mixing.room.addClient id client).1 } :=
      if_pos hstarts
    rw [hadded]
    obtain ⟨hone, halive⟩ := alive_startMixingTimer
      { mixing with room := (mixing.room.addClient id client).1 }
    exact ⟨hone.le, fun _ => halive, fun hnot => absurd hopened hnot⟩
  · have hadded : mixing.addClient id client =
        { mixing with room := (mixing.room.addClient id client).1 } :=
      if_neg hstarts
    rw [hadded]
    refine ⟨hlooping.single, fun _ => hlooping.alive ?_,
      fun hnot => absurd hopened hnot⟩
    -- The first client of all starts the timer.
    by_contra hclosed
    apply hstarts
    simp [RoomManager.addClient, hlooping.closed hclosed]

theorem Looping.step (hlooping : mixing.Looping past)
    (hstep : mixing.step event = some (next, sent)) :
    next.Looping (past ++ [event]) := by
  cases event with
  | addClient id client =>
      obtain ⟨rfl, -⟩ : mixing.addClient id client = next ∧ _ := by
        simpa [MixingRoom.step] using hstep
      exact hlooping.addClient id client
  | removeClient id =>
      obtain ⟨rfl, -⟩ : _ = next ∧ [] = sent := by
        simpa [MixingRoom.step] using hstep
      refine ⟨hlooping.single, ?_, ?_⟩
      · rw [opened_concat_other (by simp)]
        exact hlooping.alive
      · rw [opened_concat_other (by simp)]
        intro hclosed
        simp only [RoomManager.removeClient, hlooping.closed hclosed]
        rfl
  | processAudio now id packet =>
      obtain ⟨rfl, -⟩ : _ = next ∧ [] = sent := by
        simpa [MixingRoom.step] using hstep
      refine ⟨hlooping.single, ?_, ?_⟩
      · rw [opened_concat_other (by simp)]
        exact hlooping.alive
      · rw [opened_concat_other (by simp)]
        exact hlooping.closed
  | expired =>
      obtain ⟨rfl, -⟩ : _ = next ∧ [] = sent := by
        simpa [MixingRoom.step] using hstep
      refine ⟨Nat.zero_le 1, ?_, ?_⟩
      · rw [opened_concat_other (by simp)]
        intro hopened
        have halive := hlooping.alive hopened
        simp only [SteadyTimer.Alive, SteadyTimer.expire] at halive ⊢
        omega
      · rw [opened_concat_other (by simp)]
        exact hlooping.closed
  | handled now walk =>
      simp only [MixingRoom.step, Option.bind_eq_some_iff,
        Option.map_eq_some_iff, Prod.mk.injEq, Prod.exists] at hstep
      obtain ⟨timer, -, room, deliveries, htick, rfl, -⟩ := hstep
      obtain ⟨hone, halive⟩ :=
        alive_startMixingTimer (MixingRoom.mk room timer)
      refine ⟨hone.le, fun _ => halive, ?_⟩
      rw [opened_concat_other (by simp)]
      intro hclosed
      exact (clients_of_tick htick).trans (hlooping.closed hclosed)
  | aborted =>
      simp only [MixingRoom.step, Option.map_eq_some_iff, Prod.mk.injEq]
        at hstep
      obtain ⟨timer, htaken, rfl, -⟩ := hstep
      simp only [SteadyTimer.takeHandler, Bool.false_eq_true, ↓reduceIte,
        Option.ite_none_right_eq_some, Option.some.injEq] at htaken
      obtain ⟨-, rfl⟩ := htaken
      refine ⟨hlooping.single, ?_, ?_⟩
      · rw [opened_concat_other (by simp)]
        exact hlooping.alive
      · rw [opened_concat_other (by simp)]
        exact hlooping.closed

end Step

/-- In every state there is at most one pending wait, and after the first
`addClient` there is a pending wait or a handler queued that will mix. -/
theorem looping_of_run {events : List (MixingEvent Id Client)}
    {final : MixingRoom Id Client} {sent : List (Delivery Id Client)}
    (hrun : run step new events = some (final, sent)) :
    final.timer.pending ≤ 1 ∧
      ((∃ id client, .addClient id client ∈ events) →
        0 < final.timer.pending + final.timer.expired) := by
  have hlooping : final.Looping events := by
    refine run_induction step (motive := fun past state _ => state.Looping past)
      ⟨Nat.zero_le 1, ?_, fun _ => rfl⟩ ?_ hrun
    · rintro ⟨id, client, hmem⟩
      simp at hmem
    · intro past state outs event next new _ hpast hstep
      exact hpast.step hstep
  exact ⟨hlooping.single, hlooping.alive⟩

/-- The timer is started again while a handler is queued. -/
theorem looping_of_run_restarted :
    let events : List (MixingEvent Nat Nat) :=
      [.addClient 1 10, .expired, .addClient 1 11, .expired,
        .handled 40000000 ⟨[1], [], []⟩, .removeClient 1, .addClient 2 12,
        .aborted, .handled 40000001 ⟨[2], [], []⟩]
    ∃ final sent, run step new events = some (final, sent) ∧
      final.timer.pending ≤ 1 ∧
      ((∃ id client, .addClient id client ∈ events) →
        0 < final.timer.pending + final.timer.expired) := by
  intro events
  have hsome : (run step new events).isSome = true := by decide +kernel
  obtain ⟨⟨final, sent⟩, hrun⟩ := Option.isSome_iff_exists.1 hsome
  exact ⟨final, sent, hrun, looping_of_run hrun⟩

end MixingRoom

end VoiceServer

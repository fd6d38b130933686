/-
The asynchronous logger.  A section under a mutex is one step; the threads that
log, the caller of the destructor and the logger thread take theirs in any
order, and between its two sections the logger thread holds an entry that
stands neither in the queue nor with the destinations.
-/
import Mathlib.Logic.Function.Basic
import VoiceServer.PartialRun

namespace VoiceServer

inductive LogLevel where
  | debugLog
  | infoLog
  | warningLog
  | errorLog
  | fatalLog
deriving DecidableEq, Repr

def LogLevel.value : LogLevel → Nat
  | debugLog => 0
  | infoLog => 1
  | warningLog => 2
  | errorLog => 3
  | fatalLog => 4

structure LogEntry where
  level : LogLevel
  file : String
  line : Int
  message : String
  timestamp : Int
  context : List (String × String)
deriving DecidableEq, Repr

/-- Where a thread stands in `log`: outside, with an entry that has no context
yet, or in front of the section that queues it. -/
inductive LogCall where
  | idle
  | formatted (entry : LogEntry)
  | accepted (entry : LogEntry)
deriving DecidableEq, Repr

/-- Where `loggerThreadFunction` stands: at the wait, behind the queue section
with the entry it has popped, or behind the loop. -/
inductive LoggerThread where
  | waiting
  | holding (entry : LogEntry)
  | exited
deriving DecidableEq, Repr

/-- What the logger thread works on. -/
structure LogCore (D : Type*) where
  logQueue : List LogEntry
  stopFlag : Bool
  destinations : List D
  thread : LoggerThread

structure AsyncLogger (T D : Type*) extends LogCore D where
  logLevel : LogLevel
  logFilter : Option (LogEntry → Bool)
  context : List (String × String)
  calls : T → LogCall

/-- The steps.  Formatting has made the message; the setters that take no mutex
are steps of their own. -/
inductive LoggerEvent (T D : Type*) where
  | setLogLevel (level : LogLevel)
  | setLogFilter (filter : LogEntry → Bool)
  | setContextValue (key value : String)
  | addDestination (destination : D)
  | log (thread : T) (level : LogLevel) (file : String) (line : Int)
      (message : String) (timestamp : Int)
  | takeContext (thread : T)
  | push (thread : T)
  | stop
  | takeEntry
  | write

/-- What a step does that others can tell. -/
inductive LogAction (D : Type*) where
  | queued (entry : LogEntry)
  | registered (destination : D)
  | stopped
  | wrote (destination : D) (entry : LogEntry)
  | exited
deriving DecidableEq, Repr

namespace AsyncLogger

variable {T D : Type*} [DecidableEq T]

def new : AsyncLogger T D where
  logQueue := []
  stopFlag := false
  destinations := []
  thread := .waiting
  logLevel := .infoLog
  logFilter := none
  context := []
  calls := fun _ => .idle

def setContextValue (logger : AsyncLogger T D) (key value : String) :
    AsyncLogger T D :=
  { logger with
    context := (key, value) :: logger.context.filter fun pair => pair.1 ≠ key }

def addDestination (logger : AsyncLogger T D) (destination : D) :
    AsyncLogger T D :=
  { logger with destinations := logger.destinations ++ [destination] }

/-- The start of `log`: the level is asked and the entry is made. -/
def startLog (logger : AsyncLogger T D) (thread : T) (entry : LogEntry) :
    AsyncLogger T D :=
  if logger.logLevel.value ≤ entry.level.value then
    { logger with calls := Function.update logger.calls thread (.formatted entry) }
  else logger

/-- The section of the context, and the filter behind it. -/
def takeContext (logger : AsyncLogger T D) (thread : T) (entry : LogEntry) :
    AsyncLogger T D :=
  let entry := { entry with context := logger.context }
  let call := if logger.logFilter.all fun filter => filter entry
    then LogCall.accepted entry else LogCall.idle
  { logger with calls := Function.update logger.calls thread call }

def pushEntry (logger : AsyncLogger T D) (thread : T) (entry : LogEntry) :
    AsyncLogger T D :=
  { logger with
    logQueue := logger.logQueue ++ [entry]
    calls := Function.update logger.calls thread .idle }

/-- The queue section of the logger thread.  No step while the wait's condition
is false. -/
def takeEntry (logger : AsyncLogger T D) :
    Option (AsyncLogger T D × List (LogAction D)) :=
  match logger.logQueue with
  | entry :: rest =>
      some ({ logger with logQueue := rest, thread := .holding entry }, [])
  | [] =>
      if logger.stopFlag then
        some ({ logger with thread := .exited }, [.exited])
      else none

/-- The destinations section of the logger thread. -/
def write (logger : AsyncLogger T D) (entry : LogEntry) :
    AsyncLogger T D × List (LogAction D) :=
  ({ logger with thread := .waiting },
    logger.destinations.map (LogAction.wrote · entry))

def step (logger : AsyncLogger T D) : LoggerEvent T D →
    Option (AsyncLogger T D × List (LogAction D))
  | .setLogLevel level => some ({ logger with logLevel := level }, [])
  | .setLogFilter filter => some ({ logger with logFilter := some filter }, [])
  | .setContextValue key value => some (logger.setContextValue key value, [])
  | .addDestination destination =>
      some (logger.addDestination destination, [.registered destination])
  | .log thread level file line message timestamp =>
      match logger.calls thread with
      | .idle => some (logger.startLog thread
          ⟨level, file, line, message, timestamp, []⟩, [])
      | _ => none
  | .takeContext thread =>
      match logger.calls thread with
      | .formatted entry => some (logger.takeContext thread entry, [])
      | _ => none
  | .push thread =>
      match logger.calls thread with
      | .accepted entry =>
          some (logger.pushEntry thread entry, [.queued entry])
      | _ => none
  | .stop => some ({ logger with stopFlag := true }, [.stopped])
  | .takeEntry =>
      match logger.thread with
      | .waiting => logger.takeEntry
      | _ => none
  | .write =>
      match logger.thread with
      | .holding entry => some (logger.write entry)
      | _ => none

end AsyncLogger

namespace LogCore

variable {D : Type*}

inductive Stepped (core : LogCore D) : LogCore D → List (LogAction D) → Prop where
  | same : Stepped core core []
  | queued (entry : LogEntry) :
      Stepped core { core with logQueue := core.logQueue ++ [entry] }
        [.queued entry]
  | registered (destination : D) :
      Stepped core { core with destinations := core.destinations ++ [destination] }
        [.registered destination]
  | stopped : Stepped core { core with stopFlag := true } [.stopped]
  | popped (entry : LogEntry) (rest : List LogEntry)
      (hthread : core.thread = .waiting) (hqueue : core.logQueue = entry :: rest) :
      Stepped core { core with logQueue := rest, thread := .holding entry } []
  | wrote (entry : LogEntry) (hthread : core.thread = .holding entry) :
      Stepped core { core with thread := .waiting }
        (core.destinations.map (LogAction.wrote · entry))
  | exited (hthread : core.thread = .waiting) (hqueue : core.logQueue = [])
      (hstop : core.stopFlag = true) :
      Stepped core { core with thread := .exited } [.exited]

end LogCore

namespace AsyncLogger

variable {T D : Type*}

/-- The queue section: an entry is popped, or the loop is left. -/
theorem stepped_takeEntry {logger next : AsyncLogger T D}
    {new : List (LogAction D)} (hthread : logger.thread = .waiting)
    (hstep : logger.takeEntry = some (next, new)) :
    logger.toLogCore.Stepped next.toLogCore new := by
  rw [takeEntry] at hstep
  cases hqueue : logger.logQueue with
  | cons entry rest =>
      rw [hqueue] at hstep
      cases hstep
      exact .popped entry rest hthread hqueue
  | nil =>
      rw [hqueue] at hstep
      by_cases hstop : logger.stopFlag = true
      · rw [if_pos hstop] at hstep
        cases hstep
        rw [← hqueue]
        exact .exited hthread hqueue hstop
      · rw [if_neg hstop] at hstep
        cases hstep

variable [DecidableEq T]

theorem toLogCore_startLog (logger : AsyncLogger T D) (thread : T)
    (entry : LogEntry) :
    (logger.startLog thread entry).toLogCore = logger.toLogCore := by
  rw [startLog]
  split
  · rfl
  · rfl

theorem stepped_of_step {logger next : AsyncLogger T D} {event : LoggerEvent T D}
    {new : List (LogAction D)} (hstep : logger.step event = some (next, new)) :
    logger.toLogCore.Stepped next.toLogCore new := by
  cases event with
  | setLogLevel level =>
      cases hstep
      exact .same
  | setLogFilter filter =>
      cases hstep
      exact .same
  | setContextValue key value =>
      cases hstep
      exact .same
  | addDestination destination =>
      cases hstep
      exact .registered destination
  | log thread level file line message timestamp =>
      simp only [step] at hstep
      split at hstep
      · cases hstep
        rw [toLogCore_startLog]
        exact .same
      · cases hstep
  | takeContext thread =>
      simp only [step] at hstep
      split at hstep
      · cases hstep
        exact .same
      · cases hstep
  | push thread =>
      simp only [step] at hstep
      split at hstep
      · cases hstep
        exact .queued _
      · cases hstep
  | stop =>
      cases hstep
      exact .stopped
  | takeEntry =>
      simp only [step] at hstep
      cases hthread : logger.thread with
      | waiting =>
          rw [hthread] at hstep
          exact stepped_takeEntry hthread hstep
      | holding entry =>
          rw [hthread] at hstep
          cases hstep
      | exited =>
          rw [hthread] at hstep
          cases hstep
  | write =>
      simp only [step] at hstep
      cases hthread : logger.thread with
      | waiting =>
          rw [hthread] at hstep
          cases hstep
      | holding entry =>
          rw [hthread] at hstep
          cases hstep
          exact .wrote entry hthread
      | exited =>
          rw [hthread] at hstep
          cases hstep

end AsyncLogger

namespace LogTrace

variable {D : Type*}

/-- The entries queued, in order. -/
def queued (trace : List (LogAction D)) : List LogEntry :=
  trace.filterMap fun action =>
    match action with
    | .queued entry => some entry
    | _ => none

/-- The destinations added, once for each call. -/
def registered (trace : List (LogAction D)) : List D :=
  trace.filterMap fun action =>
    match action with
    | .registered destination => some destination
    | _ => none

theorem queued_append (first second : List (LogAction D)) :
    queued (first ++ second) = queued first ++ queued second :=
  List.filterMap_append ..

theorem registered_append (first second : List (LogAction D)) :
    registered (first ++ second) = registered first ++ registered second :=
  List.filterMap_append ..

theorem queued_wrote (destinations : List D) (entry : LogEntry) :
    queued (destinations.map (LogAction.wrote · entry)) = [] := by
  simp [queued]

theorem registered_wrote (destinations : List D) (entry : LogEntry) :
    registered (destinations.map (LogAction.wrote · entry)) = [] := by
  simp [registered]

section Received

variable [DecidableEq D]

/-- What a destination was given to write, in order. -/
def received (destination : D) (trace : List (LogAction D)) : List LogEntry :=
  trace.filterMap fun action =>
    match action with
    | .wrote target entry => if target = destination then some entry else none
    | _ => none

/-- A destination is given the entries in their turn.  A round is an entry and
how often it was given: at least once for each time the destination was added
before the entry was queued, and at most once for each time it was added. -/
structure Served (destination : D) (trace : List (LogAction D))
    (rounds : List (LogEntry × Nat)) : Prop where
  in_order : rounds.map Prod.fst <+: queued trace
  received_eq : received destination trace =
    rounds.flatMap fun round => List.replicate round.2 round.1
  copies_le : ∀ round ∈ rounds, round.2 ≤ (registered trace).count destination
  le_copies : ∀ before entry after, trace = before ++ .queued entry :: after →
    ∀ round, rounds[(queued before).length]? = some round →
      (registered before).count destination ≤ round.2

/-- The trace around the return of the logger thread: before it every entry has
had its round, behind it nothing is written. -/
structure Complete (destination : D) (before after : List (LogAction D)) :
    Prop where
  drained : ∃ rounds, Served destination before rounds ∧
    rounds.map Prod.fst = queued before
  written : ∀ earlier entry later,
    before = earlier ++ .queued entry :: later →
    destination ∈ registered earlier → .wrote destination entry ∈ before
  silent : received destination after = []

variable {destination : D} {trace : List (LogAction D)}

theorem received_append (destination : D) (first second : List (LogAction D)) :
    received destination (first ++ second) =
      received destination first ++ received destination second :=
  List.filterMap_append ..

/-- A write section gives a destination the entry once for each time it stands
in the list. -/
theorem received_wrote (destination : D) (destinations : List D)
    (entry : LogEntry) :
    received destination (destinations.map (LogAction.wrote · entry)) =
      List.replicate (destinations.count destination) entry := by
  induction destinations with
  | nil => rfl
  | cons target rest ih =>
      rw [received] at ih
      rw [received, List.map_cons, List.filterMap_cons, List.count_cons, ih]
      by_cases hsame : target = destination
      · simp [hsame, List.replicate_succ]
      · simp [hsame]

theorem mem_received_iff {entry : LogEntry} :
    entry ∈ received destination trace ↔ .wrote destination entry ∈ trace := by
  rw [received, List.mem_filterMap]
  constructor
  · rintro ⟨action, haction, hentry⟩
    cases action with
    | wrote target written =>
        obtain ⟨rfl, rfl⟩ := by simpa using hentry
        exact haction
    | queued written => simp at hentry
    | registered target => simp at hentry
    | stopped => simp at hentry
    | exited => simp at hentry
  · intro hwrote
    exact ⟨_, hwrote, if_pos rfl⟩

/-- A destination added once gets no entry twice. -/
theorem Served.sublist {rounds : List (LogEntry × Nat)}
    (hserved : Served destination trace rounds)
    (honce : (registered trace).count destination ≤ 1) :
    (received destination trace).Sublist (queued trace) := by
  have hrounds : ∀ rounds : List (LogEntry × Nat),
      (∀ round ∈ rounds, round.2 ≤ 1) →
      (rounds.flatMap fun round => List.replicate round.2 round.1).Sublist
        (rounds.map Prod.fst) := by
    intro rounds hsmall
    induction rounds with
    | nil => exact List.Sublist.refl _
    | cons round rest ih =>
        rw [List.forall_mem_cons] at hsmall
        exact List.Sublist.append
          ((List.replicate_sublist_replicate round.1).2 hsmall.1)
          (ih hsmall.2)
  rw [hserved.received_eq]
  exact (hrounds rounds fun round hround =>
    (hserved.copies_le round hround).trans honce).trans
      hserved.in_order.sublist

theorem count_registered_le {first second : List (LogAction D)} :
    (registered first).count destination ≤
      (registered (first ++ second)).count destination := by
  rw [registered_append, List.count_append]
  exact Nat.le_add_right _ _

/-- Rounds stay as they are while nothing is written. -/
theorem Served.append {rounds : List (LogEntry × Nat)}
    (hserved : Served destination trace rounds) {new : List (LogAction D)}
    (hsilent : received destination new = []) :
    Served destination (trace ++ new) rounds where
  in_order := by
    rw [queued_append]
    exact hserved.in_order.trans (List.prefix_append _ _)
  received_eq := by
    rw [received_append, hsilent, List.append_nil]
    exact hserved.received_eq
  copies_le round hround :=
    (hserved.copies_le round hround).trans count_registered_le
  le_copies before entry after hsplit round hround := by
    rcases append_eq_append_cons hsplit with
      ⟨between, htrace, -⟩ | ⟨between, rfl, -⟩
    · exact hserved.le_copies before entry between htrace round hround
    · -- An entry queued later has not had its round.
      have hlength := hserved.in_order.length_le
      have hindex := (List.getElem?_eq_some_iff.1 hround).1
      rw [List.length_map] at hlength
      rw [queued_append, List.length_append] at hindex
      omega

/-- A write section is the round of its entry. -/
theorem Served.wrote {rounds : List (LogEntry × Nat)}
    (hserved : Served destination trace rounds) {entry : LogEntry}
    {rest : List LogEntry}
    (hqueued : queued trace = rounds.map Prod.fst ++ entry :: rest) :
    Served destination
      (trace ++ (registered trace).map (LogAction.wrote · entry))
      (rounds ++ [(entry, (registered trace).count destination)]) where
  in_order := by
    rw [queued_append, queued_wrote, List.append_nil, hqueued, List.map_append]
    exact ⟨rest, by simp⟩
  received_eq := by
    rw [received_append, received_wrote, List.flatMap_append,
      hserved.received_eq]
    simp
  copies_le round hround := by
    rw [registered_append, registered_wrote, List.append_nil]
    rcases List.mem_append.1 hround with hround | hround
    · exact hserved.copies_le round hround
    · rw [List.mem_singleton.1 hround]
  le_copies before queuedEntry after hsplit round hround := by
    rcases append_eq_append_cons hsplit with
      ⟨between, htrace, -⟩ | ⟨between, rfl, hnew⟩
    · rw [List.getElem?_append] at hround
      split at hround
      · exact hserved.le_copies before queuedEntry between htrace round hround
      · have hlast : round = (entry, (registered trace).count destination) := by
          have hmem := List.mem_of_getElem? hround
          exact List.mem_singleton.1 hmem
        rw [hlast, htrace]
        exact count_registered_le
    · have hqueue := congrArg queued hnew
      rw [queued_wrote, queued_append] at hqueue
      simp [queued] at hqueue

end Received

end LogTrace

/-- The entry in the thread's hand. -/
def LoggerThread.inHand : LoggerThread → List LogEntry
  | holding entry => [entry]
  | _ => []

namespace LogCore

open LogTrace

variable {D : Type*}

theorem Stepped.stopFlag {core next : LogCore D} {new : List (LogAction D)}
    (hstep : core.Stepped next new) (hstop : next.stopFlag = true) :
    core.stopFlag = true ∨ .stopped ∈ new := by
  cases hstep with
  | same => exact Or.inl hstop
  | queued entry => exact Or.inl hstop
  | registered target => exact Or.inl hstop
  | stopped => exact Or.inr List.mem_cons_self
  | popped entry rest => exact Or.inl hstop
  | wrote entry => exact Or.inl hstop
  | exited => exact Or.inl hstop

/-- The thread returns only when it waits, with nothing queued and the stop
flag set, and that is all the step does. -/
theorem Stepped.exit {core next : LogCore D} {new : List (LogAction D)}
    (hstep : core.Stepped next new) (hexit : .exited ∈ new) :
    core.thread = .waiting ∧ core.logQueue = [] ∧ core.stopFlag = true ∧
      next.thread = .exited ∧ new = [.exited] := by
  cases hstep with
  | same => simp at hexit
  | queued entry => simp at hexit
  | registered target => simp at hexit
  | stopped => simp at hexit
  | popped entry rest => simp at hexit
  | wrote entry => simp at hexit
  | exited hthread hqueue hstop => exact ⟨hthread, hqueue, hstop, rfl, rfl⟩

variable [DecidableEq D] {destination : D}

/-- What was queued is what has had its round, what is in hand and what waits,
in this order. -/
structure Serving (destination : D) (core : LogCore D)
    (trace : List (LogAction D)) (rounds : List (LogEntry × Nat)) : Prop where
  served : Served destination trace rounds
  queued_eq :
    queued trace = rounds.map Prod.fst ++ core.thread.inHand ++ core.logQueue
  registered_eq : registered trace = core.destinations

theorem Serving.silent {core next : LogCore D} {trace new : List (LogAction D)}
    {rounds : List (LogEntry × Nat)}
    (hserving : Serving destination core trace rounds)
    (hsilent : received destination new = [])
    (hqueued : core.thread.inHand ++ core.logQueue ++ queued new =
      next.thread.inHand ++ next.logQueue)
    (hregistered : core.destinations ++ registered new = next.destinations) :
    Serving destination next (trace ++ new) rounds where
  served := hserving.served.append hsilent
  queued_eq := by
    rw [queued_append, hserving.queued_eq, List.append_assoc,
      List.append_assoc, ← List.append_assoc core.thread.inHand, hqueued,
      List.append_assoc]
  registered_eq := by
    rw [registered_append, hserving.registered_eq, hregistered]

theorem Serving.step {core next : LogCore D} {trace new : List (LogAction D)}
    {rounds : List (LogEntry × Nat)}
    (hserving : Serving destination core trace rounds)
    (hstep : core.Stepped next new) :
    ∃ rounds, Serving destination next (trace ++ new) rounds := by
  cases hstep with
  | same =>
      rw [List.append_nil]
      exact ⟨rounds, hserving⟩
  | queued entry =>
      refine ⟨rounds, hserving.silent rfl ?_ (List.append_nil _)⟩
      exact List.append_assoc ..
  | registered target =>
      exact ⟨rounds, hserving.silent rfl (List.append_nil _) rfl⟩
  | stopped =>
      exact ⟨rounds, hserving.silent rfl (List.append_nil _)
        (List.append_nil _)⟩
  | popped entry rest hthread hqueue =>
      refine ⟨rounds, hserving.silent rfl ?_ (List.append_nil _)⟩
      rw [hthread, hqueue]
      exact List.append_nil _
  | wrote entry hthread =>
      have hqueued : LogTrace.queued trace =
          rounds.map Prod.fst ++ entry :: core.logQueue := by
        rw [hserving.queued_eq, hthread, List.append_assoc]
        rfl
      have hserved := hserving.served.wrote hqueued
      rw [hserving.registered_eq] at hserved
      refine ⟨_, hserved, ?_, ?_⟩
      · rw [queued_append, queued_wrote, hqueued]
        simp [LoggerThread.inHand]
      · rw [registered_append, registered_wrote, List.append_nil]
        exact hserving.registered_eq
  | exited hthread hqueue hstop =>
      refine ⟨rounds, hserving.silent rfl ?_ (List.append_nil _)⟩
      rw [hthread]
      exact List.append_nil _

/-- A thread that has returned writes nothing more. -/
theorem Stepped.silent {core next : LogCore D} {new : List (LogAction D)}
    (hstep : core.Stepped next new) (hexited : core.thread = .exited) :
    next.thread = .exited ∧ received destination new = [] := by
  cases hstep with
  | same => exact ⟨hexited, rfl⟩
  | queued entry => exact ⟨hexited, rfl⟩
  | registered target => exact ⟨hexited, rfl⟩
  | stopped => exact ⟨hexited, rfl⟩
  | popped entry rest hthread =>
      rw [hexited] at hthread
      cases hthread
  | wrote entry hthread =>
      rw [hexited] at hthread
      cases hthread
  | exited hthread =>
      rw [hexited] at hthread
      cases hthread

theorem Serving.complete {core : LogCore D} {before after : List (LogAction D)}
    {rounds : List (LogEntry × Nat)}
    (hserving : Serving destination core before rounds)
    (hthread : core.thread = .waiting) (hqueue : core.logQueue = [])
    (hsilent : received destination after = []) :
    Complete destination before after := by
  have hdrained : rounds.map Prod.fst = queued before := by
    rw [hserving.queued_eq, hthread, hqueue, List.append_nil]
    exact (List.append_nil _).symm
  refine ⟨⟨rounds, hserving.served, hdrained⟩, ?_, hsilent⟩
  intro earlier entry later hsplit hregistered
  have hqueued : queued before = queued earlier ++ entry :: queued later := by
    rw [hsplit, queued_append]
    rfl
  have hround : (rounds.map Prod.fst)[(queued earlier).length]? = some entry := by
    rw [hdrained, hqueued, List.getElem?_append_right (Nat.le_refl _),
      Nat.sub_self]
    rfl
  rw [List.getElem?_map, Option.map_eq_some_iff] at hround
  obtain ⟨round, hround, rfl⟩ := hround
  have hcopies := hserving.served.le_copies earlier _ later hsplit round hround
  have hpos := List.count_pos_iff.2 hregistered
  rw [← mem_received_iff, hserving.served.received_eq, List.mem_flatMap]
  exact ⟨round, List.mem_of_getElem? hround,
    List.mem_replicate.2 ⟨by omega, rfl⟩⟩

end LogCore

namespace AsyncLogger

open LogTrace

variable {T D : Type*} [DecidableEq T]

theorem stopped_of_run {events : List (LoggerEvent T D)}
    {final : AsyncLogger T D} {trace : List (LogAction D)}
    (hrun : run step new events = some (final, trace))
    (hstop : final.stopFlag = true) : .stopped ∈ trace := by
  refine run_induction step (motive := fun _ logger trace =>
    logger.stopFlag = true → .stopped ∈ trace) ?_ ?_ hrun hstop
  · exact fun hstop => Bool.noConfusion hstop
  · intro past logger trace event next new _ hlogger hstep hnext
    rcases (stepped_of_step hstep).stopFlag hnext with hstop | hnew
    · exact List.mem_append_left _ (hlogger hstop)
    · exact List.mem_append_right _ hnew

/-- The run up to the return of the logger thread, and the run from there. -/
theorem exists_exit {events : List (LoggerEvent T D)}
    {final : AsyncLogger T D} {before after : List (LogAction D)}
    (hrun : run step new events = some (final, before ++ .exited :: after)) :
    ∃ past later, ∃ logger next : AsyncLogger T D,
      run step new past = some (logger, before) ∧
        logger.thread = .waiting ∧ logger.logQueue = [] ∧
        logger.stopFlag = true ∧ next.thread = .exited ∧
        run step next later = some (final, after) := by
  obtain ⟨past, event, later, logger, next, first, left, right, rest, -, hpast,
    hstep, hlater, rfl, rfl⟩ := exists_step_of_output step hrun
  obtain ⟨hthread, hqueue, hstop, hexited, hnew⟩ :=
    (stepped_of_step hstep).exit (List.mem_append_right _ List.mem_cons_self)
  cases left with
  | nil =>
      obtain ⟨-, rfl⟩ := List.cons.inj hnew
      rw [List.append_nil]
      exact ⟨past, later, logger, next, hpast, hthread, hqueue, hstop, hexited,
        hlater⟩
  | cons action left => simp at hnew

variable [DecidableEq D]

theorem serving_of_run (destination : D) {events : List (LoggerEvent T D)}
    {final : AsyncLogger T D} {trace : List (LogAction D)}
    (hrun : run step new events = some (final, trace)) :
    ∃ rounds, LogCore.Serving destination final.toLogCore trace rounds := by
  refine run_induction step (motive := fun _ logger trace =>
    ∃ rounds, LogCore.Serving destination logger.toLogCore trace rounds)
    ?_ ?_ hrun
  · refine ⟨[], ⟨⟨List.prefix_rfl, rfl, ?_, ?_⟩, rfl, rfl⟩⟩
    · simp
    · simp
  · rintro past logger trace event next new - ⟨rounds, hserving⟩ hstep
    exact hserving.step (stepped_of_step hstep)

theorem silent_of_exited (destination : D) {start final : AsyncLogger T D}
    {events : List (LoggerEvent T D)} {trace : List (LogAction D)}
    (hexited : start.thread = .exited)
    (hrun : run step start events = some (final, trace)) :
    received destination trace = [] := by
  refine (run_induction step (motive := fun _ logger trace =>
    logger.thread = .exited ∧ received destination trace = [])
    ⟨hexited, rfl⟩ ?_ hrun).2
  rintro past logger trace event next new - ⟨hthread, hsilent⟩ hstep
  obtain ⟨hnext, hnew⟩ := (stepped_of_step hstep).silent hthread
  refine ⟨hnext, ?_⟩
  rw [received_append, hsilent, hnew, List.append_nil]

/-- Every destination gets the entries in the order of the queue, each once for
each time the destination was added; the logger thread returns only with the
stop flag set and the queue empty, when all that was queued is written. -/
theorem serves_every_destination {events : List (LoggerEvent T D)}
    {final : AsyncLogger T D} {trace : List (LogAction D)}
    (hrun : run step new events = some (final, trace)) :
    (∀ destination, ∃ rounds, Served destination trace rounds) ∧
      (∀ destination, (registered trace).count destination ≤ 1 →
        (received destination trace).Sublist (queued trace)) ∧
      (∀ before after, trace = before ++ .exited :: after →
        .stopped ∈ before ∧ ∀ destination, Complete destination before after) ∧
      EachStep step (fun _ logger _ _ _ new => .exited ∈ new →
        logger.stopFlag = true ∧ logger.logQueue = []) new events := by
  refine ⟨?_, ?_, ?_, ?_⟩
  · intro destination
    obtain ⟨rounds, hserving⟩ := serving_of_run destination hrun
    exact ⟨rounds, hserving.served⟩
  · intro destination honce
    obtain ⟨rounds, hserving⟩ := serving_of_run destination hrun
    exact hserving.served.sublist honce
  · rintro before after rfl
    obtain ⟨past, later, logger, next, hpast, hthread, hqueue, hstop, hexited,
      hlater⟩ := exists_exit hrun
    refine ⟨stopped_of_run hpast hstop, fun destination => ?_⟩
    obtain ⟨rounds, hserving⟩ := serving_of_run destination hpast
    exact hserving.complete hthread hqueue
      (silent_of_exited destination hexited hlater)
  · intro past event hpast logger outs next new hlogger hstep hexit
    obtain ⟨-, hqueue, hstop, -⟩ := (stepped_of_step hstep).exit hexit
    exact ⟨hstop, hqueue⟩

/-- One thread logs one entry to one destination, and the logger is stopped
before it is written. -/
def oneEntry : List (LoggerEvent Unit Unit) :=
  [.addDestination (), .log () .warningLog "main.cpp" 7 "no devices" 0,
    .takeContext (), .push (), .stop, .takeEntry, .write, .takeEntry]

def deviceEntry : LogEntry :=
  ⟨.warningLog, "main.cpp", 7, "no devices", 0, []⟩

def oneTrace : List (LogAction Unit) :=
  [.registered (), .queued deviceEntry, .stopped, .wrote () deviceEntry, .exited]

theorem serves_every_destination_one :
    (∀ destination, ∃ rounds, Served destination oneTrace rounds) ∧
      (∀ destination, (registered oneTrace).count destination ≤ 1 →
        (received destination oneTrace).Sublist (queued oneTrace)) ∧
      (∀ before after, oneTrace = before ++ .exited :: after →
        .stopped ∈ before ∧ ∀ destination, Complete destination before after) ∧
      EachStep step (fun _ logger _ _ _ new => .exited ∈ new →
        logger.stopFlag = true ∧ logger.logQueue = []) new oneEntry :=
  @serves_every_destination Unit Unit _ _ oneEntry _ oneTrace rfl

/-- A destination added twice is given every entry twice. -/
theorem written_twice :
    ¬ ∀ (events : List (LoggerEvent Unit Unit)) (final : AsyncLogger Unit Unit)
      (trace : List (LogAction Unit)),
      run step new events = some (final, trace) →
      ∀ destination, (received destination trace).Sublist (queued trace) := by
  intro hclaim
  have htwice := hclaim (.addDestination () :: oneEntry) _
    (.registered () :: [.registered (), .queued deviceEntry, .stopped,
      .wrote () deviceEntry, .wrote () deviceEntry, .exited]) rfl ()
  exact absurd htwice.length_le (by decide)

end AsyncLogger

end VoiceServer

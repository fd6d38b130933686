/-
The condition variable of the logger.  A push and its notification are two
steps, the logger thread can sleep, and it can wake for no reason.  No wake-up is
lost, and once the destructor has notified, the thread returns.
-/
import VoiceServer.AsyncLogger
import VoiceServer.Projection

namespace VoiceServer

/-- Where the caller of the destructor stands: not there yet, between the stop
flag and `notify_one`, in `join`, behind it. -/
inductive Destructor where
  | running
  | stopping
  | joining
  | joined
deriving DecidableEq, Repr

/-- `asleep` says that the logger thread is blocked in `m_condition.wait`, and
`notifying` that a thread has queued an entry and not notified yet. -/
structure WakingLogger (T D : Type*) where
  logger : AsyncLogger T D
  asleep : Bool
  notifying : T → Bool
  destructor : Destructor

/-- `wait` is one look at the condition, with the mutex held. -/
inductive WakingEvent (T D : Type*) where
  | logger (event : LoggerEvent T D)
  | notify (thread : T)
  | wait
  | spurious
  | notifyStop
  | join

namespace WakingLogger

variable {T D : Type*} [DecidableEq T]

def new : WakingLogger T D where
  logger := AsyncLogger.new
  asleep := false
  notifying := fun _ => false
  destructor := .running

/-- A thread is in `log` until it has notified; the destructor runs once; the
queue section of the logger thread is a `wait`. -/
def allows (waking : WakingLogger T D) : LoggerEvent T D → Bool
  | .log thread _ _ _ _ _ => !waking.notifying thread
  | .stop => waking.destructor = .running
  | .takeEntry => false
  | _ => true

/-- The notifications still to come. -/
def mark (waking : WakingLogger T D) : LoggerEvent T D → WakingLogger T D
  | .push thread =>
      { waking with notifying := Function.update waking.notifying thread true }
  | .stop => { waking with destructor := .stopping }
  | _ => waking

/-- The predicate of the wait is false exactly if the queue section has no
step; then the thread sleeps and gives the mutex back. -/
def wait (waking : WakingLogger T D) :
    WakingLogger T D × List (LogAction D) :=
  match waking.logger.takeEntry with
  | some done => ({ waking with logger := done.1 }, done.2)
  | none => ({ waking with asleep := true }, [])

def step (waking : WakingLogger T D) : WakingEvent T D →
    Option (WakingLogger T D × List (LogAction D))
  | .logger event =>
      if waking.allows event then
        (waking.logger.step event).map fun done =>
          ({ waking.mark event with logger := done.1 }, done.2)
      else none
  | .notify thread =>
      if waking.notifying thread then
        some ({ waking with
          asleep := false
          notifying := Function.update waking.notifying thread false }, [])
      else none
  | .wait =>
      if waking.logger.thread = .waiting ∧ waking.asleep = false then
        some waking.wait
      else none
  | .spurious =>
      if waking.asleep then some ({ waking with asleep := false }, []) else none
  | .notifyStop =>
      if waking.destructor = .stopping then
        some ({ waking with asleep := false, destructor := .joining }, [])
      else none
  | .join =>
      if waking.destructor = .joining ∧ waking.logger.thread = .exited then
        some ({ waking with destructor := .joined }, [])
      else none

/-- The steps of the logger without its condition variable. -/
def loggerEvents (waking : WakingLogger T D) :
    WakingEvent T D → List (LoggerEvent T D)
  | .logger event => [event]
  | .wait => if waking.logger.takeEntry.isSome then [.takeEntry] else []
  | _ => []

/-- What is true of a sleeping thread: if an entry is queued, someone is about to
notify it, and if the stop flag is set, the destructor is. -/
structure Wakeful (waking : WakingLogger T D) : Prop where
  thread : waking.asleep = true → waking.logger.thread = .waiting
  queue : waking.asleep = true → waking.logger.logQueue ≠ [] →
    ∃ thread, waking.notifying thread = true
  stop : waking.asleep = true → waking.logger.stopFlag = true →
    waking.destructor = .stopping
  flag : waking.logger.stopFlag = true ↔ waking.destructor ≠ .running

theorem wakeful_new {T D : Type*} : Wakeful (new : WakingLogger T D) where
  thread := fun hasleep => Bool.noConfusion hasleep
  queue := fun hasleep => Bool.noConfusion hasleep
  stop := fun hasleep => Bool.noConfusion hasleep
  flag := ⟨fun hflag => Bool.noConfusion hflag, fun hne => absurd rfl hne⟩

/-- A thread that is awake misses nothing. -/
theorem wakeful_of_awake {T D : Type*} {waking : WakingLogger T D}
    (hawake : waking.asleep = false)
    (hflag : waking.logger.stopFlag = true ↔ waking.destructor ≠ .running) :
    waking.Wakeful where
  thread hasleep := absurd (hawake.symm.trans hasleep) Bool.false_ne_true
  queue hasleep := absurd (hawake.symm.trans hasleep) Bool.false_ne_true
  stop hasleep := absurd (hawake.symm.trans hasleep) Bool.false_ne_true
  flag := hflag

theorem Wakeful.awake {T D : Type*} {waking : WakingLogger T D}
    (hwakeful : waking.Wakeful) (hthread : waking.logger.thread ≠ .waiting) :
    waking.asleep = false := by
  cases hasleep : waking.asleep with
  | false => rfl
  | true => exact absurd (hwakeful.thread hasleep) hthread

/-- A step that leaves what the thread waits for as it is. -/
theorem Wakeful.keep {T D : Type*} {waking : WakingLogger T D}
    (hwakeful : waking.Wakeful) {logger : AsyncLogger T D}
    (hthread : logger.thread = waking.logger.thread)
    (hqueue : logger.logQueue = waking.logger.logQueue)
    (hstop : logger.stopFlag = waking.logger.stopFlag) :
    Wakeful { waking with logger := logger } where
  thread hasleep := hthread.trans (hwakeful.thread hasleep)
  queue hasleep hne := hwakeful.queue hasleep fun heq => hne (hqueue.trans heq)
  stop hasleep hflag := hwakeful.stop hasleep (hstop.symm.trans hflag)
  flag := by
    change logger.stopFlag = true ↔ _
    rw [hstop]
    exact hwakeful.flag

section Step

variable {waking next : WakingLogger T D} {trace : List (LogAction D)}

theorem Wakeful.step_logger (hwakeful : waking.Wakeful)
    {event : LoggerEvent T D} {logger : AsyncLogger T D}
    (hallows : waking.allows event = true)
    (hstep : waking.logger.step event = some (logger, trace)) :
    Wakeful { waking.mark event with logger := logger } := by
  cases event with
  | setLogLevel level =>
      cases hstep
      exact hwakeful.keep rfl rfl rfl
  | setLogFilter filter =>
      cases hstep
      exact hwakeful.keep rfl rfl rfl
  | setContextValue key value =>
      cases hstep
      exact hwakeful.keep rfl rfl rfl
  | addDestination destination =>
      cases hstep
      exact hwakeful.keep rfl rfl rfl
  | log thread level file line message timestamp =>
      simp only [AsyncLogger.step] at hstep
      split at hstep
      · cases hstep
        have hsame := AsyncLogger.toLogCore_startLog waking.logger thread
          ⟨level, file, line, message, timestamp, []⟩
        exact hwakeful.keep (congrArg LogCore.thread hsame)
          (congrArg LogCore.logQueue hsame) (congrArg LogCore.stopFlag hsame)
      · cases hstep
  | takeContext thread =>
      simp only [AsyncLogger.step] at hstep
      split at hstep
      · cases hstep
        exact hwakeful.keep rfl rfl rfl
      · cases hstep
  | push thread =>
      simp only [AsyncLogger.step] at hstep
      split at hstep
      · cases hstep
        refine ⟨hwakeful.thread, ?_, hwakeful.stop, hwakeful.flag⟩
        -- The thread that pushed has not notified yet.
        exact fun _ _ => ⟨thread, Function.update_self ..⟩
      · cases hstep
  | stop =>
      cases hstep
      refine ⟨hwakeful.thread, hwakeful.queue, fun _ _ => rfl, ?_⟩
      exact ⟨fun _ hrunning => Destructor.noConfusion hrunning, fun _ => rfl⟩
  | takeEntry => cases hallows
  | write =>
      simp only [AsyncLogger.step] at hstep
      cases hthread : waking.logger.thread with
      | waiting => rw [hthread] at hstep; cases hstep
      | exited => rw [hthread] at hstep; cases hstep
      | holding entry =>
          rw [hthread] at hstep
          cases hstep
          refine wakeful_of_awake (hwakeful.awake ?_) hwakeful.flag
          rw [hthread]
          exact fun heq => LoggerThread.noConfusion heq

/-- The thread goes to sleep only with nothing queued and no stop flag. -/
theorem Wakeful.wait {T D : Type*} {waking : WakingLogger T D}
    (hwakeful : waking.Wakeful)
    (hthread : waking.logger.thread = .waiting) (hawake : waking.asleep = false) :
    waking.wait.1.Wakeful := by
  rw [WakingLogger.wait]
  cases htake : waking.logger.takeEntry with
  | some done =>
      refine wakeful_of_awake hawake ?_
      rw [AsyncLogger.takeEntry] at htake
      split at htake
      · cases htake
        exact hwakeful.flag
      · split at htake
        · cases htake
          exact hwakeful.flag
        · cases htake
  | none =>
      rw [AsyncLogger.takeEntry] at htake
      split at htake
      · cases htake
      · next hqueue =>
        split at htake
        · cases htake
        · next hstop =>
          exact ⟨fun _ => hthread, fun _ hne => absurd hqueue hne,
            fun _ hflag => absurd hflag hstop, hwakeful.flag⟩

theorem Wakeful.step (hwakeful : waking.Wakeful) {event : WakingEvent T D}
    (hstep : waking.step event = some (next, trace)) : next.Wakeful := by
  cases event with
  | logger event =>
      simp only [WakingLogger.step, Option.ite_none_right_eq_some,
        Option.map_eq_some_iff, Prod.mk.injEq] at hstep
      obtain ⟨hallows, ⟨logger, acted⟩, hlogger, rfl, -⟩ := hstep
      exact hwakeful.step_logger hallows hlogger
  | notify thread =>
      simp only [WakingLogger.step, Option.ite_none_right_eq_some,
        Option.some.injEq, Prod.mk.injEq] at hstep
      obtain ⟨-, rfl, -⟩ := hstep
      exact wakeful_of_awake rfl hwakeful.flag
  | wait =>
      simp only [WakingLogger.step, Option.ite_none_right_eq_some,
        Option.some.injEq] at hstep
      obtain ⟨⟨hthread, hawake⟩, hwait⟩ := hstep
      have hnext := hwakeful.wait hthread hawake
      rwa [hwait] at hnext
  | spurious =>
      simp only [WakingLogger.step, Option.ite_none_right_eq_some,
        Option.some.injEq, Prod.mk.injEq] at hstep
      obtain ⟨-, rfl, -⟩ := hstep
      exact wakeful_of_awake rfl hwakeful.flag
  | notifyStop =>
      simp only [WakingLogger.step, Option.ite_none_right_eq_some,
        Option.some.injEq, Prod.mk.injEq] at hstep
      obtain ⟨hstopping, rfl, -⟩ := hstep
      refine wakeful_of_awake rfl (hwakeful.flag.trans ?_)
      simp [hstopping]
  | join =>
      simp only [WakingLogger.step, Option.ite_none_right_eq_some,
        Option.some.injEq, Prod.mk.injEq] at hstep
      obtain ⟨⟨hjoining, hexited⟩, rfl, -⟩ := hstep
      refine wakeful_of_awake (hwakeful.awake ?_) (hwakeful.flag.trans ?_)
      · rw [hexited]
        exact fun heq => LoggerThread.noConfusion heq
      · simp [hjoining]

theorem wakeful_of_run {events : List (WakingEvent T D)}
    (hrun : run step new events = some (waking, trace)) : waking.Wakeful :=
  run_preserves step (fun _ _ _ _ hwakeful hstep => hwakeful.step hstep)
    wakeful_new hrun

/-- Without its condition variable the logger takes the same steps. -/
theorem logger_of_step {event : WakingEvent T D}
    (hstep : waking.step event = some (next, trace)) :
    run AsyncLogger.step waking.logger (waking.loggerEvents event) =
      some (next.logger, trace) := by
  cases event with
  | logger event =>
      simp only [WakingLogger.step, Option.ite_none_right_eq_some,
        Option.map_eq_some_iff, Prod.mk.injEq] at hstep
      obtain ⟨-, done, hdone, rfl, rfl⟩ := hstep
      rw [loggerEvents, run_cons_eq_some]
      exact ⟨done.1, done.2, [], hdone, rfl, (List.append_nil _).symm⟩
  | wait =>
      simp only [WakingLogger.step, Option.ite_none_right_eq_some,
        Option.some.injEq] at hstep
      obtain ⟨⟨hthread, -⟩, hwait⟩ := hstep
      rw [WakingLogger.wait] at hwait
      cases htake : waking.logger.takeEntry with
      | none =>
          rw [htake] at hwait
          cases hwait
          simp [loggerEvents, htake]
      | some done =>
          rw [htake] at hwait
          cases hwait
          simp only [loggerEvents, htake, Option.isSome_some, if_true]
          rw [run_cons_eq_some]
          refine ⟨done.1, done.2, [], ?_, rfl, (List.append_nil _).symm⟩
          simp only [AsyncLogger.step, hthread, htake]
  | notify thread =>
      simp only [WakingLogger.step, Option.ite_none_right_eq_some,
        Option.some.injEq, Prod.mk.injEq] at hstep
      obtain ⟨-, rfl, rfl⟩ := hstep
      rfl
  | spurious =>
      simp only [WakingLogger.step, Option.ite_none_right_eq_some,
        Option.some.injEq, Prod.mk.injEq] at hstep
      obtain ⟨-, rfl, rfl⟩ := hstep
      rfl
  | notifyStop =>
      simp only [WakingLogger.step, Option.ite_none_right_eq_some,
        Option.some.injEq, Prod.mk.injEq] at hstep
      obtain ⟨-, rfl, rfl⟩ := hstep
      rfl
  | join =>
      simp only [WakingLogger.step, Option.ite_none_right_eq_some,
        Option.some.injEq, Prod.mk.injEq] at hstep
      obtain ⟨-, rfl, rfl⟩ := hstep
      rfl

end Step

/-- No wake-up is lost, in any order of pushes, notifications, looks at the
condition and spurious wake-ups: what the logger does is a run of the logger
without the condition variable, and while its thread sleeps, an entry in the
queue has a thread that will notify, and the stop flag has the destructor. -/
theorem no_lost_wakeup {events : List (WakingEvent T D)}
    {final : WakingLogger T D} {trace : List (LogAction D)}
    (hrun : run step new events = some (final, trace)) :
    run AsyncLogger.step AsyncLogger.new
        (partEvents step loggerEvents new events) =
        some (final.logger, trace) ∧
      (final.asleep = true →
        (final.logger.logQueue ≠ [] →
          ∃ thread next, final.step (.notify thread) = some (next, []) ∧
            next.asleep = false) ∧
        (final.logger.stopFlag = true →
          ∃ next, final.step .notifyStop = some (next, []) ∧
            next.asleep = false)) := by
  obtain ⟨hidden, hpart, rfl⟩ := @run_part _ _ _ _ _ _ step loggerEvents
    AsyncLogger.step WakingLogger.logger some
    (fun state event next outs hstep =>
      ⟨outs, logger_of_step hstep, List.filterMap_some.symm⟩)
    _ _ _ _ hrun
  rw [List.filterMap_some]
  refine ⟨hpart, fun hasleep => ⟨fun hqueue => ?_, fun hstop => ?_⟩⟩
  · obtain ⟨thread, hthread⟩ := (wakeful_of_run hrun).queue hasleep hqueue
    exact ⟨thread, _, if_pos hthread, rfl⟩
  · exact ⟨_, if_pos ((wakeful_of_run hrun).stop hasleep hstop), rfl⟩

/-- The thread sleeps, and an entry is queued that nobody has notified yet. -/
def queuedAsleep : List (WakingEvent Unit Unit) :=
  [.wait, .logger (.log () .warningLog "main.cpp" 7 "no devices" 0),
    .logger (.takeContext ()), .logger (.push ())]

theorem no_lost_wakeup_queued :
    ∃ (final : WakingLogger Unit Unit) (trace : List (LogAction Unit)),
      final.asleep = true ∧ final.logger.logQueue ≠ [] ∧
      run AsyncLogger.step AsyncLogger.new
        (partEvents step loggerEvents new queuedAsleep) =
        some (final.logger, trace) ∧
      (final.asleep = true →
        (final.logger.logQueue ≠ [] →
          ∃ thread next, final.step (.notify thread) = some (next, []) ∧
            next.asleep = false) ∧
        (final.logger.stopFlag = true →
          ∃ next, final.step .notifyStop = some (next, []) ∧
            next.asleep = false)) :=
  ⟨_, _, rfl, List.cons_ne_nil _ _,
    @no_lost_wakeup Unit Unit _ queuedAsleep _ _ rfl⟩

/-- The steps of the logger thread. -/
def own : WakingEvent T D → Bool
  | .wait => true
  | .logger .write => true
  | _ => false

/-- The steps that the logger thread has before it, if nothing more is queued. -/
def rank (core : LogCore D) : Nat :=
  2 * core.logQueue.length +
    match core.thread with
    | .waiting => 1
    | .holding _ => 2
    | .exited => 0

theorem rank_pos {D : Type*} {core : LogCore D} (hthread : core.thread ≠ .exited) :
    0 < rank core := by
  rw [rank]
  cases hstate : core.thread with
  | waiting => exact Nat.succ_pos _
  | holding entry => exact Nat.succ_pos _
  | exited => exact absurd hstate hthread

/-- A step moves the thread on and takes one off the rank, or leaves the thread
where it is; an entry queued adds two. -/
theorem rank_stepped {D : Type*} {core next : LogCore D}
    {new : List (LogAction D)} (hstep : core.Stepped next new) :
    (next.thread = core.thread ∧
        rank next = rank core + 2 * (LogTrace.queued new).length) ∨
      (next.thread ≠ core.thread ∧ rank next + 1 = rank core ∧
        LogTrace.queued new = []) := by
  cases hstep with
  | same => exact Or.inl ⟨rfl, rfl⟩
  | queued entry =>
      refine Or.inl ⟨rfl, ?_⟩
      have hone : (LogTrace.queued [LogAction.queued (D := D) entry]).length = 1 :=
        rfl
      simp only [rank, hone, List.length_append, List.length_singleton]
      omega
  | registered destination => exact Or.inl ⟨rfl, rfl⟩
  | stopped => exact Or.inl ⟨rfl, rfl⟩
  | popped entry rest hthread hqueue =>
      refine Or.inr ⟨?_, ?_, rfl⟩
      · rw [hthread]
        exact fun heq => LoggerThread.noConfusion heq
      · simp only [rank, hthread, hqueue, List.length_cons]
        omega
  | wrote entry hthread =>
      refine Or.inr ⟨?_, ?_, LogTrace.queued_wrote _ _⟩
      · rw [hthread]
        exact fun heq => LoggerThread.noConfusion heq
      · simp only [rank, hthread]
  | exited hthread hqueue hstop =>
      refine Or.inr ⟨?_, ?_, rfl⟩
      · rw [hthread]
        exact fun heq => LoggerThread.noConfusion heq
      · simp only [rank, hthread, hqueue, List.length_nil]

section Join

variable {waking next : WakingLogger T D} {trace : List (LogAction D)}

/-- Only a write and the queue section move the thread on. -/
theorem thread_of_step {logger after : AsyncLogger T D}
    {event : LoggerEvent T D} (hstep : logger.step event = some (after, trace))
    (htake : event ≠ .takeEntry) :
    after.thread = logger.thread ↔ event ≠ .write := by
  cases event with
  | write =>
      simp only [AsyncLogger.step] at hstep
      split at hstep
      · next entry hthread =>
        cases hstep
        rw [hthread]
        simp
      · cases hstep
  | takeEntry => exact absurd rfl htake
  | log thread level file line message timestamp =>
      simp only [AsyncLogger.step] at hstep
      split at hstep
      · cases hstep
        have hsame := AsyncLogger.toLogCore_startLog logger thread
          ⟨level, file, line, message, timestamp, []⟩
        exact iff_of_true (congrArg LogCore.thread hsame) (by simp)
      · cases hstep
  | takeContext thread =>
      simp only [AsyncLogger.step] at hstep
      split at hstep
      · cases hstep
        simp [AsyncLogger.takeContext]
      · cases hstep
  | push thread =>
      simp only [AsyncLogger.step] at hstep
      split at hstep
      · cases hstep
        simp [AsyncLogger.pushEntry]
      · cases hstep
  | _ =>
      cases hstep
      simp [AsyncLogger.setContextValue, AsyncLogger.addDestination]

/-- With the stop flag set the queue section always has a step. -/
theorem takeEntry_of_stop {T D : Type*} {logger : AsyncLogger T D}
    (hthread : logger.thread = .waiting) (hstop : logger.stopFlag = true) :
    ∃ done, logger.takeEntry = some done ∧ done.1.thread ≠ logger.thread := by
  rw [AsyncLogger.takeEntry, hthread]
  cases hqueue : logger.logQueue with
  | nil =>
      refine ⟨_, if_pos hstop, ?_⟩
      exact fun heq => LoggerThread.noConfusion heq
  | cons entry rest =>
      refine ⟨_, rfl, ?_⟩
      exact fun heq => LoggerThread.noConfusion heq

/-- The destructor has notified. -/
def Notified (waking : WakingLogger T D) : Prop :=
  waking.destructor = .joining ∨ waking.destructor = .joined

theorem Notified.stopFlag {T D : Type*} {waking : WakingLogger T D}
    (hnotified : waking.Notified) (hwakeful : waking.Wakeful) :
    waking.logger.stopFlag = true ∧ waking.asleep = false := by
  have hflag : waking.logger.stopFlag = true := by
    rw [hwakeful.flag]
    rcases hnotified with heq | heq <;> simp [heq]
  refine ⟨hflag, ?_⟩
  cases hasleep : waking.asleep with
  | false => rfl
  | true =>
      have hstopping := hwakeful.stop hasleep hflag
      rcases hnotified with heq | heq
      · rw [heq] at hstopping
        cases hstopping
      · rw [heq] at hstopping
        cases hstopping

theorem Notified.step (hnotified : waking.Notified) (hwakeful : waking.Wakeful)
    {event : WakingEvent T D} (hstep : waking.step event = some (next, trace)) :
    next.Notified ∧
      ([event].filter own).length + rank next.logger.toLogCore =
        rank waking.logger.toLogCore + 2 * (LogTrace.queued trace).length := by
  obtain ⟨hstop, hawake⟩ := hnotified.stopFlag hwakeful
  cases event with
  | logger event =>
      simp only [WakingLogger.step, Option.ite_none_right_eq_some,
        Option.map_eq_some_iff, Prod.mk.injEq] at hstep
      obtain ⟨hallows, ⟨after, acted⟩, hlogger, rfl, rfl⟩ := hstep
      have htake : event ≠ .takeEntry := by
        rintro rfl
        cases hallows
      have hmark : (waking.mark event).destructor = waking.destructor := by
        cases event with
        | stop =>
            have hrunning : waking.destructor = .running :=
              of_decide_eq_true hallows
            rcases hnotified with heq | heq
            · rw [heq] at hrunning
              cases hrunning
            · rw [heq] at hrunning
              cases hrunning
        | _ => rfl
      have hmoves := thread_of_step hlogger htake
      refine ⟨?_, ?_⟩
      · rw [Notified]
        change (waking.mark event).destructor = _ ∨ _
        rw [hmark]
        exact hnotified
      · by_cases hwrite : event = .write
        · subst hwrite
          have hone : ([WakingEvent.logger (T := T) (D := D) .write].filter
              own).length = 1 := rfl
          rcases rank_stepped (AsyncLogger.stepped_of_step hlogger) with
            ⟨hsame, -⟩ | ⟨-, hrank, hnone⟩
          · exact absurd rfl (hmoves.1 hsame)
          · rw [hone, hnone, List.length_nil]
            change 1 + rank after.toLogCore = _
            omega
        · have hnone : ([WakingEvent.logger event].filter own).length = 0 := by
            cases event with
            | write => exact absurd rfl hwrite
            | _ => rfl
          rcases rank_stepped (AsyncLogger.stepped_of_step hlogger) with
            ⟨-, hrank⟩ | ⟨hmoved, -⟩
          · rw [hnone, Nat.zero_add]
            exact hrank
          · exact absurd (hmoves.2 hwrite) hmoved
  | wait =>
      simp only [WakingLogger.step, Option.ite_none_right_eq_some,
        Option.some.injEq] at hstep
      obtain ⟨⟨hthread, -⟩, hwait⟩ := hstep
      obtain ⟨⟨after, acted⟩, htake, hmoved⟩ := takeEntry_of_stop hthread hstop
      rw [WakingLogger.wait, htake] at hwait
      cases hwait
      have hone : ([WakingEvent.wait (T := T) (D := D)].filter own).length = 1 :=
        rfl
      refine ⟨hnotified, ?_⟩
      rcases rank_stepped (AsyncLogger.stepped_takeEntry hthread htake) with
        ⟨hsame, -⟩ | ⟨-, hrank, hnone⟩
      · exact absurd hsame hmoved
      · rw [hone, hnone, List.length_nil]
        change 1 + rank after.toLogCore = _
        omega
  | notify thread =>
      simp only [WakingLogger.step, Option.ite_none_right_eq_some,
        Option.some.injEq, Prod.mk.injEq] at hstep
      obtain ⟨-, rfl, rfl⟩ := hstep
      exact ⟨hnotified, Nat.zero_add _⟩
  | spurious =>
      simp only [WakingLogger.step, Option.ite_none_right_eq_some,
        Option.some.injEq, Prod.mk.injEq] at hstep
      obtain ⟨-, rfl, rfl⟩ := hstep
      exact ⟨hnotified, Nat.zero_add _⟩
  | notifyStop =>
      simp only [WakingLogger.step, Option.ite_none_right_eq_some,
        Option.some.injEq, Prod.mk.injEq] at hstep
      obtain ⟨-, rfl, rfl⟩ := hstep
      exact ⟨Or.inl rfl, Nat.zero_add _⟩
  | join =>
      simp only [WakingLogger.step, Option.ite_none_right_eq_some,
        Option.some.injEq, Prod.mk.injEq] at hstep
      obtain ⟨-, rfl, rfl⟩ := hstep
      exact ⟨Or.inr rfl, Nat.zero_add _⟩

/-- Once the destructor has notified, the logger thread counts down. -/
theorem countdown {later : List (WakingEvent T D)} {more : List (LogAction D)}
    (hnotified : waking.Notified) (hwakeful : waking.Wakeful)
    (hlater : run step waking later = some (next, more)) :
    next.Wakeful ∧ next.Notified ∧
      (later.filter own).length + rank next.logger.toLogCore =
        rank waking.logger.toLogCore + 2 * (LogTrace.queued more).length := by
  refine run_induction step (motive := fun past state outs =>
    state.Wakeful ∧ state.Notified ∧
      (past.filter own).length + rank state.logger.toLogCore =
        rank waking.logger.toLogCore + 2 * (LogTrace.queued outs).length)
    ⟨hwakeful, hnotified, Nat.zero_add _⟩ ?_ hlater
  rintro past state outs event after new - ⟨hawake, hjoining, hcount⟩ hstep
  obtain ⟨hnext, hone⟩ := hjoining.step hawake hstep
  refine ⟨hawake.step hstep, hnext, ?_⟩
  rw [List.filter_append, List.length_append, LogTrace.queued_append,
    List.length_append]
  omega

end Join

/-- The destructor's `join` returns.  Once it has notified, and until the logger
thread has returned, the thread always has a step, and it has taken fewer steps
than a bound that two steps for each entry queued meanwhile are added to; when
it has returned, and only then, `join` has its step. -/
theorem join_returns {events later : List (WakingEvent T D)}
    {state final : WakingLogger T D} {trace more : List (LogAction D)}
    (hrun : run step new events = some (state, trace))
    (hjoining : state.destructor = .joining)
    (hlater : run step state later = some (final, more)) :
    (final.logger.thread ≠ .exited →
      (later.filter own).length <
          rank state.logger.toLogCore + 2 * (LogTrace.queued more).length ∧
        ((final.step .wait).isSome = true ∨
          (final.step (.logger .write)).isSome = true)) ∧
      (final.destructor = .joining →
        ((final.step .join).isSome = true ↔ final.logger.thread = .exited)) := by
  obtain ⟨hwakeful, hnotified, hcount⟩ :=
    countdown (Or.inl hjoining) (wakeful_of_run hrun) hlater
  refine ⟨fun hthread => ⟨?_, ?_⟩, fun hwaits => ?_⟩
  · have hpos := rank_pos hthread
    omega
  · cases hstate : final.logger.thread with
    | waiting =>
        have hawake := (hnotified.stopFlag hwakeful).2
        simp [step, hstate, hawake]
    | holding entry => simp [step, allows, AsyncLogger.step, hstate]
    | exited => exact absurd hstate hthread
  · simp [step, hwaits]

/-- The destructor has notified before the entry is taken out. -/
def joiningEvents : List (WakingEvent Unit Unit) :=
  queuedAsleep ++ [.logger .stop, .notifyStop]

theorem join_returns_one :
    ∃ (state final : WakingLogger Unit Unit) (more : List (LogAction Unit)),
      state.destructor = .joining ∧ final.logger.thread = .exited ∧
      (final.logger.thread ≠ .exited →
        ([WakingEvent.wait, .logger .write, .wait].filter
            (own (T := Unit) (D := Unit))).length <
            rank state.logger.toLogCore + 2 * (LogTrace.queued more).length ∧
          ((final.step .wait).isSome = true ∨
            (final.step (.logger .write)).isSome = true)) ∧
        (final.destructor = .joining →
          ((final.step .join).isSome = true ↔
            final.logger.thread = .exited)) :=
  ⟨_, _, _, rfl, rfl, @join_returns Unit Unit _ joiningEvents
    [.wait, .logger .write, .wait] _ _ _ _ rfl rfl rfl⟩

end WakingLogger

end VoiceServer

/-
Queues that hold the newest items: a push on a full queue drops the oldest one.
What leaves such a queue, and exactly when nothing is dropped.
-/
import Mathlib.Data.List.Induction
import Mathlib.Data.List.ReduceOption
import VoiceServer.Projection

namespace VoiceServer

universe u

inductive QueueEvent (A : Type u) where
  | push (item : A)
  | pop
deriving DecidableEq, Repr

/-- How an item leaves the queue. -/
inductive Leave where
  | popped
  | dropped
deriving DecidableEq, Repr

namespace DropOldest

variable {A : Type u}

/-- The outputs are the items that leave; a pop of an empty queue does nothing. -/
def step (capacity : Nat) (queue : List A) :
    QueueEvent A → Option (List A × List (A × Leave))
  | .push item =>
      let pushed := queue ++ [item]
      let surplus := pushed.length - capacity
      some (pushed.drop surplus, (pushed.take surplus).map (·, .dropped))
  | .pop => some (queue.tail, queue.head?.toList.map (·, .popped))

def pushes (events : List (QueueEvent A)) : List A :=
  events.filterMap fun
    | .push item => some item
    | .pop => none

/-- What a pop finds in front. -/
def taken (queue : List A) : QueueEvent A → List (Option A)
  | .push _ => []
  | .pop => [queue.head?]

/-- What the pops of a run find, one by one. -/
def takes (capacity : Nat) (events : List (QueueEvent A)) : List (Option A) :=
  partEvents (step capacity) taken [] events

/-- The items popped, of those that have left. -/
def popped (left : List (A × Leave)) : List A :=
  (left.filter (·.2 = .popped)).map Prod.fst

/-- The pushes of a stretch of events beyond its pops. -/
def excess : List (QueueEvent A) → Int
  | [] => 0
  | .push _ :: rest => excess rest + 1
  | .pop :: rest => excess rest - 1

theorem excess_append (first second : List (QueueEvent A)) :
    excess (first ++ second) = excess first + excess second := by
  induction first with
  | nil => simp [excess]
  | cons event rest ih =>
      cases event with
      | push item =>
          rw [List.cons_append, excess, excess, ih]
          omega
      | pop =>
          rw [List.cons_append, excess, excess, ih]
          omega

theorem popped_append (first second : List (A × Leave)) :
    popped (first ++ second) = popped first ++ popped second := by
  simp [popped]

@[simp] theorem popped_map_popped (items : List A) :
    popped (items.map (·, .popped)) = items := by
  simp [popped, List.filter_map, Function.comp_def]

@[simp] theorem popped_map_dropped (items : List A) :
    popped (items.map (·, .dropped)) = [] := by
  simp [popped]

theorem pushes_append (first second : List (QueueEvent A)) :
    pushes (first ++ second) = pushes first ++ pushes second :=
  List.filterMap_append ..

section Run

variable {capacity : Nat} {events : List (QueueEvent A)} {queue : List A}
  {left : List (A × Leave)}

/-- Every item pushed has left, in order, or waits, in order. -/
theorem left_append_queue
    (hrun : run (step capacity) [] events = some (queue, left)) :
    left.map Prod.fst ++ queue = pushes events := by
  refine run_induction _ (motive := fun past state outs =>
    outs.map Prod.fst ++ state = pushes past) rfl ?_ hrun
  intro past state outs event next new _ hpast hstep
  rw [pushes_append, ← hpast, List.map_append]
  cases event with
  | push item =>
      obtain ⟨rfl, rfl⟩ := by simpa only [step, Option.some.injEq,
        Prod.mk.injEq] using hstep
      have hone : pushes [QueueEvent.push item] = [item] := rfl
      simp [hone, Function.comp_def]
  | pop =>
      obtain ⟨rfl, rfl⟩ := by simpa only [step, Option.some.injEq,
        Prod.mk.injEq] using hstep
      have hnone : pushes [(QueueEvent.pop : QueueEvent A)] = [] := rfl
      cases state with
      | nil => simp [hnone]
      | cons head rest => simp [hnone]

theorem takes_append (hrun : run (step capacity) [] events = some (queue, left))
    (more : List (QueueEvent A)) :
    takes capacity (events ++ more) =
      takes capacity events ++ partEvents (step capacity) taken queue more :=
  partEvents_append (step capacity) taken hrun more

/-- The items popped are those that pops found. -/
theorem popped_eq_reduceOption
    (hrun : run (step capacity) [] events = some (queue, left)) :
    popped left = (takes capacity events).reduceOption := by
  refine run_induction _ (motive := fun past _ outs =>
    popped outs = (takes capacity past).reduceOption) rfl ?_ hrun
  intro past state outs event next new hpast ih hstep
  rw [takes, partEvents_concat _ _ hpast, ← takes, List.reduceOption_append,
    popped_append, ih]
  apply congrArg
  cases event with
  | push item =>
      obtain ⟨-, rfl⟩ := by simpa only [step, Option.some.injEq,
        Prod.mk.injEq] using hstep
      exact popped_map_dropped _
  | pop =>
      obtain ⟨-, rfl⟩ := by simpa only [step, Option.some.injEq,
        Prod.mk.injEq] using hstep
      rw [popped_map_popped]
      cases state <;> rfl

theorem length_le (hrun : run (step capacity) [] events = some (queue, left)) :
    queue.length ≤ capacity := by
  refine run_preserves _ (P := fun queue : List A => queue.length ≤ capacity)
    ?_ (Nat.zero_le _) hrun
  intro state event next outs hstate hstep
  cases event with
  | push item =>
      obtain ⟨rfl, -⟩ := by simpa only [step, Option.some.injEq,
        Prod.mk.injEq] using hstep
      rw [List.length_drop]
      omega
  | pop =>
      obtain ⟨rfl, -⟩ := by simpa only [step, Option.some.injEq,
        Prod.mk.injEq] using hstep
      rw [List.length_tail]
      omega

/-- As long as nothing is dropped, the length of the queue is the largest excess
of a stretch of events that ends now. -/
structure Backlog (past : List (QueueEvent A)) (queue : List A) : Prop where
  bound : ∀ stretch, stretch <:+ past → excess stretch ≤ queue.length
  attained : ∃ stretch, stretch <:+ past ∧ excess stretch = queue.length

theorem backlog_nil : Backlog ([] : List (QueueEvent A)) [] where
  bound := by
    intro stretch hstretch
    rw [List.suffix_nil] at hstretch
    rw [hstretch]
    exact Int.le_refl _
  attained := ⟨[], List.suffix_rfl, rfl⟩

theorem Backlog.push {past : List (QueueEvent A)} {queue : List A}
    (hbacklog : Backlog past queue) (item : A) :
    Backlog (past ++ [.push item]) (queue ++ [item]) := by
  have hone : excess [QueueEvent.push item] = 1 := rfl
  refine ⟨?_, ?_⟩
  · intro stretch hstretch
    rw [List.length_append, List.length_singleton]
    rcases List.suffix_concat_iff.1 hstretch with rfl | ⟨earlier, rfl, hearlier⟩
    · exact Int.natCast_nonneg _
    · have hbound := hbacklog.bound earlier hearlier
      rw [excess_append, hone]
      omega
  · obtain ⟨stretch, hstretch, hexcess⟩ := hbacklog.attained
    refine ⟨stretch ++ [.push item], ?_, ?_⟩
    · obtain ⟨before, rfl⟩ := hstretch
      exact ⟨before, (List.append_assoc ..).symm⟩
    · rw [excess_append, hone, hexcess, List.length_append,
        List.length_singleton]
      rfl

theorem Backlog.pop {past : List (QueueEvent A)} {queue : List A}
    (hbacklog : Backlog past queue) : Backlog (past ++ [.pop]) queue.tail := by
  have hone : excess [(QueueEvent.pop : QueueEvent A)] = -1 := rfl
  refine ⟨?_, ?_⟩
  · intro stretch hstretch
    rw [List.length_tail]
    rcases List.suffix_concat_iff.1 hstretch with rfl | ⟨earlier, rfl, hearlier⟩
    · exact Int.natCast_nonneg _
    · have hbound := hbacklog.bound earlier hearlier
      rw [excess_append, hone]
      omega
  · cases queue with
    | nil => exact ⟨[], List.nil_suffix, rfl⟩
    | cons head rest =>
        obtain ⟨stretch, ⟨before, rfl⟩, hexcess⟩ := hbacklog.attained
        refine ⟨stretch ++ [.pop], ⟨before, (List.append_assoc ..).symm⟩, ?_⟩
        rw [List.length_cons] at hexcess
        rw [excess_append, hone, hexcess, List.tail_cons]
        omega

theorem backlog_of_popped
    (hrun : run (step capacity) [] events = some (queue, left))
    (hpopped : ∀ item ∈ left, item.2 = .popped) : Backlog events queue := by
  refine run_induction _ (motive := fun past state outs =>
    (∀ item ∈ outs, item.2 = .popped) → Backlog past state)
    (fun _ => backlog_nil) ?_ hrun hpopped
  intro past state outs event next new _ hpast hstep hall
  obtain ⟨hbefore, hnew⟩ := List.forall_mem_append.1 hall
  have hbacklog := hpast hbefore
  cases event with
  | push item =>
      obtain ⟨rfl, rfl⟩ := by simpa only [step, Option.some.injEq,
        Prod.mk.injEq] using hstep
      -- Nothing is dropped, so nothing is over the capacity.
      have hover : (state ++ [item]).length - capacity = 0 := by
        by_contra hne
        have hpos : 0 < (state ++ [item]).length - capacity :=
          Nat.pos_of_ne_zero hne
        cases hstate : state ++ [item] with
        | nil => simp at hstate
        | cons head rest =>
            rw [hstate] at hnew hpos
            have hdropped := hnew (head, .dropped) (by
              rw [← Nat.succ_pred_eq_of_pos hpos, List.take_succ_cons,
                List.map_cons]
              exact List.mem_cons_self)
            simp at hdropped
      rw [hover, List.drop_zero]
      exact hbacklog.push item
  | pop =>
      obtain ⟨rfl, -⟩ := by simpa only [step, Option.some.injEq,
        Prod.mk.injEq] using hstep
      exact hbacklog.pop

/-- Nothing is dropped exactly if in no stretch of the events the pushes are
ahead of the pops by more than the capacity. -/
theorem all_popped_iff
    (hrun : run (step capacity) [] events = some (queue, left)) :
    (∀ item ∈ left, item.2 = .popped) ↔
      ∀ stretch, stretch <:+: events → excess stretch ≤ capacity := by
  induction events using List.reverseRecOn generalizing queue left with
  | nil =>
      obtain ⟨-, rfl⟩ := (run_nil_eq_some _).1 hrun
      refine ⟨fun _ stretch hstretch => ?_, fun _ item hitem => ?_⟩
      · rw [List.infix_nil] at hstretch
        rw [hstretch]
        exact Int.natCast_nonneg _
      · simp at hitem
  | append_singleton past event ih =>
      obtain ⟨state, outs, new, hpast, hstep, rfl⟩ :=
        (run_concat_eq_some _).1 hrun
      constructor
      · intro hall stretch hstretch
        rcases List.infix_concat_iff.1 hstretch with hsuffix | hearlier
        · have hbound := (backlog_of_popped hrun hall).bound stretch hsuffix
          have hlength := length_le hrun
          omega
        · exact (ih hpast).1 (List.forall_mem_append.1 hall).1 stretch hearlier
      · intro hexcess
        have hbefore := (ih hpast).2 fun stretch hstretch =>
          hexcess stretch (hstretch.trans (List.infix_append_left ..))
        refine List.forall_mem_append.2 ⟨hbefore, ?_⟩
        cases event with
        | pop =>
            obtain ⟨-, rfl⟩ := by simpa only [step, Option.some.injEq,
              Prod.mk.injEq] using hstep
            intro item hitem
            obtain ⟨-, -, rfl⟩ := List.mem_map.1 hitem
            rfl
        | push item =>
            obtain ⟨-, rfl⟩ := by simpa only [step, Option.some.injEq,
              Prod.mk.injEq] using hstep
            obtain ⟨stretch, ⟨before, rfl⟩, hattained⟩ :=
              (backlog_of_popped hpast hbefore).attained
            have hone : excess [QueueEvent.push item] = 1 := rfl
            have hlast := hexcess (stretch ++ [.push item])
              ⟨before, [], by simp⟩
            rw [excess_append, hone, hattained] at hlast
            have hover : (state ++ [item]).length - capacity = 0 := by
              rw [List.length_append, List.length_singleton]
              omega
            rw [hover]
            intro other hother
            simp at hother

/-- The newest items, as many as the queue can hold, are never dropped. -/
theorem dropped_old
    (hrun : run (step capacity) [] events = some (queue, left))
    {before after : List (A × Leave)} {item : A}
    (hleft : left = before ++ (item, .dropped) :: after) :
    before.length + capacity < (pushes events).length := by
  refine run_induction _ (motive := fun past _ outs =>
    ∀ before item after, outs = before ++ (item, Leave.dropped) :: after →
      before.length + capacity < (pushes past).length)
    ?_ ?_ hrun before item after hleft
  · intro before item after hsplit
    simp at hsplit
  · intro past state outs event next new hpast hold hstep before item after hsplit
    have hcount := congrArg List.length (left_append_queue hpast)
    rw [List.length_append, List.length_map] at hcount
    have hconcat : (pushes (past ++ [event])).length =
        (pushes past).length + (pushes [event]).length := by
      rw [pushes_append, List.length_append]
    rcases append_eq_append_cons hsplit with
      ⟨between, hearlier, -⟩ | ⟨between, rfl, hnew⟩
    · have hless := hold before item between hearlier
      omega
    · cases event with
      | pop =>
          obtain ⟨-, rfl⟩ := by simpa only [step, Option.some.injEq,
            Prod.mk.injEq] using hstep
          have hmem : (item, Leave.dropped) ∈
              state.head?.toList.map (·, Leave.popped) := by
            rw [hnew]
            simp
          simp at hmem
      | push added =>
          obtain ⟨-, rfl⟩ := by simpa only [step, Option.some.injEq,
            Prod.mk.injEq] using hstep
          have hone : (pushes [QueueEvent.push added]).length = 1 := rfl
          have hlength := congrArg List.length hnew
          simp only [List.length_map, List.length_take, List.length_append,
            List.length_cons, List.length_nil] at hlength
          rw [List.length_append]
          omega

end Run

end DropOldest

end VoiceServer

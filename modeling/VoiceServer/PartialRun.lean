/-
Runs of a machine whose step is a partial function with outputs.  A step that
yields `none` is an event the machine cannot take in that state, so a run over
a list of events exists only if every event was enabled when it came.
-/
import Mathlib.Data.List.Infix

namespace VoiceServer

universe u v w

variable {S : Type u} {E : Type v} {O : Type w}

/-- Take the events in order, collecting what the steps put out. -/
def run (step : S → E → Option (S × List O)) :
    S → List E → Option (S × List O)
  | state, [] => some (state, [])
  | state, event :: rest =>
      (step state event).bind fun next =>
        (run step next.1 rest).map fun final =>
          (final.1, next.2 ++ final.2)

section Runs

variable (step : S → E → Option (S × List O))

@[simp] theorem run_nil (state : S) : run step state [] = some (state, []) :=
  rfl

theorem run_nil_eq_some {state final : S} {outs : List O} :
    run step state [] = some (final, outs) ↔ state = final ∧ outs = [] := by
  rw [run_nil, Option.some.injEq, Prod.mk.injEq, @eq_comm _ [] outs]

theorem run_cons_eq_some {state final : S} {event : E} {rest : List E}
    {outs : List O} :
    run step state (event :: rest) = some (final, outs) ↔
      ∃ next first later, step state event = some (next, first) ∧
        run step next rest = some (final, later) ∧ outs = first ++ later := by
  simp only [run, Option.bind_eq_some_iff, Option.map_eq_some_iff, Prod.exists,
    Prod.mk.injEq]
  constructor
  · rintro ⟨next, first, hstep, last, later, hrest, rfl, rfl⟩
    exact ⟨next, first, later, hstep, hrest, rfl⟩
  · rintro ⟨next, first, later, hstep, hrest, rfl⟩
    exact ⟨next, first, hstep, final, later, hrest, rfl, rfl⟩

theorem run_append_eq_some {state final : S} {before after : List E}
    {outs : List O} :
    run step state (before ++ after) = some (final, outs) ↔
      ∃ middle first later, run step state before = some (middle, first) ∧
        run step middle after = some (final, later) ∧
        outs = first ++ later := by
  induction before generalizing state outs with
  | nil => simp
  | cons event rest ih =>
      simp only [List.cons_append, run_cons_eq_some]
      constructor
      · rintro ⟨next, first, later, hstep, hrest, rfl⟩
        obtain ⟨middle, second, third, hleft, hright, rfl⟩ := ih.1 hrest
        exact ⟨middle, first ++ second, third,
          ⟨next, first, second, hstep, hleft, rfl⟩, hright,
          (List.append_assoc ..).symm⟩
      · rintro ⟨middle, outer, third, ⟨next, first, second, hstep, hleft, rfl⟩,
          hright, rfl⟩
        exact ⟨next, first, second ++ third, hstep,
          ih.2 ⟨middle, second, third, hleft, hright, rfl⟩,
          List.append_assoc ..⟩

/-- The last event of a run, split off. -/
theorem run_concat_eq_some {state final : S} {before : List E} {event : E}
    {outs : List O} :
    run step state (before ++ [event]) = some (final, outs) ↔
      ∃ middle first later, run step state before = some (middle, first) ∧
        step middle event = some (final, later) ∧ outs = first ++ later := by
  simp [run_append_eq_some, run_cons_eq_some]

/-- An item of two joined lists is in the first or in the second. -/
theorem append_eq_append_cons {A : Type*} {first second before after : List A}
    {item : A} (hsplit : first ++ second = before ++ item :: after) :
    (∃ between, first = before ++ item :: between ∧ after = between ++ second) ∨
      ∃ between, before = first ++ between ∧ second = between ++ item :: after := by
  rcases List.append_eq_append_iff.1 hsplit with
    ⟨between, hbefore, hsecond⟩ | ⟨between, hfirst, hafter⟩
  · exact Or.inr ⟨between, hbefore, hsecond⟩
  · cases between with
    | nil =>
        rw [List.append_nil] at hfirst
        exact Or.inr ⟨[], by rw [hfirst, List.append_nil], hafter.symm⟩
    | cons head between =>
        obtain ⟨rfl, rfl⟩ := List.cons.inj hafter
        exact Or.inl ⟨between, hfirst, rfl⟩

/-- An item at its place in another list with the same image. -/
theorem exists_prefix_of_map_eq {A B : Type*} {image : A → B}
    {first second past : List A} {item : A}
    (hsame : first.map image = second.map image)
    (hpast : past ++ [item] <+: second) :
    ∃ before other, before ++ [other] <+: first ∧
      before.map image = past.map image ∧ image other = image item := by
  obtain ⟨rest, rfl⟩ := hpast
  simp only [List.map_append, List.map_cons, List.map_nil] at hsame
  obtain ⟨left, right, rfl, hleft, -⟩ := List.map_eq_append_iff.1 hsame
  obtain ⟨before, last, rfl, hbefore, hlast⟩ := List.map_eq_append_iff.1 hleft
  obtain ⟨other, rfl, hother⟩ := List.map_eq_singleton_iff.1 hlast
  exact ⟨before, other, List.prefix_append _ right, hbefore, hother⟩

/-- The step that put an output out, with the runs before and after it. -/
theorem exists_step_of_output {start final : S} {events : List E}
    {before after : List O} {out : O}
    (hrun : run step start events = some (final, before ++ out :: after)) :
    ∃ past event later state next first left right rest,
      events = past ++ event :: later ∧
        run step start past = some (state, first) ∧
        step state event = some (next, left ++ out :: right) ∧
        run step next later = some (final, rest) ∧
        before = first ++ left ∧ after = right ++ rest := by
  induction events generalizing start before with
  | nil =>
      exact absurd ((run_nil_eq_some step).1 hrun).2 (by simp)
  | cons event events ih =>
      obtain ⟨next, first, rest, hstep, hrest, hout⟩ :=
        (run_cons_eq_some step).1 hrun
      rcases append_eq_append_cons hout.symm with
        ⟨right, rfl, hafter⟩ | ⟨between, rfl, rfl⟩
      · exact ⟨[], event, events, start, next, [], before, right, rest,
          rfl, rfl, hstep, hrest, rfl, hafter⟩
      · obtain ⟨past, last, later, state, reached, earlier, left, right, more,
          rfl, hpast, hlast, hlater, rfl, hafter⟩ := ih hrest
        refine ⟨event :: past, last, later, state, reached, first ++ earlier,
          left, right, more, rfl, ?_, hlast, hlater, ?_, hafter⟩
        · exact (run_cons_eq_some step).2
            ⟨next, first, earlier, hstep, hpast, rfl⟩
        · rw [List.append_assoc]

/-- What holds at the start with an empty past and is kept by appending one
enabled event holds of every run.  The past and the outputs so far are part of
the statement, so a ghost history needs no extra state. -/
theorem run_induction {start : S} {motive : List E → S → List O → Prop}
    (base : motive [] start [])
    (more : ∀ past state outs event next new,
      run step start past = some (state, outs) → motive past state outs →
      step state event = some (next, new) →
      motive (past ++ [event]) next (outs ++ new))
    {events : List E} {final : S} {outs : List O}
    (hrun : run step start events = some (final, outs)) :
    motive events final outs := by
  induction events using List.reverseRecOn generalizing final outs with
  | nil =>
      obtain ⟨rfl, rfl⟩ := (run_nil_eq_some step).1 hrun
      exact base
  | append_singleton past event ih =>
      obtain ⟨state, first, new, hpast, hstep, rfl⟩ :=
        (run_concat_eq_some step).1 hrun
      exact more past state first event final new hpast (ih hpast) hstep

/-- A state property kept by every enabled step is kept by every run. -/
theorem run_preserves {P : S → Prop}
    (hstep : ∀ state event next outs, P state →
      step state event = some (next, outs) → P next)
    {start final : S} {events : List E} {outs : List O} (hstart : P start)
    (hrun : run step start events = some (final, outs)) : P final :=
  run_induction step (motive := fun _ state _ => P state) hstart
    (fun _ state _ event next new _ hstate henabled =>
      hstep state event next new hstate henabled) hrun

/-- What holds of every event with its past, split at the last event. -/
theorem forall_isPrefix_concat_iff {Q : List E → E → Prop} {earlier : List E}
    {last : E} :
    (∀ past event, past ++ [event] <+: earlier ++ [last] → Q past event) ↔
      (∀ past event, past ++ [event] <+: earlier → Q past event) ∧
        Q earlier last := by
  constructor
  · intro hall
    exact ⟨fun past event hpast =>
      hall past event (hpast.trans (List.prefix_append _ _)),
      hall earlier last List.prefix_rfl⟩
  · rintro ⟨hbefore, hlast⟩ past event hpast
    rcases List.prefix_concat_iff.1 hpast with heq | hpast
    · obtain ⟨rfl, hsame⟩ := List.append_inj' heq rfl
      obtain rfl : event = last := by simpa using hsame
      exact hlast
    · exact hbefore past event hpast

/-- All outputs of a run have a property exactly when what decides it for one
step is met at every event. -/
theorem forall_output_iff {P : O → Prop} {G : List E → E → Prop} {start : S}
    (hone : ∀ past state outs event next new,
      run step start past = some (state, outs) →
      step state event = some (next, new) →
      ((∀ out ∈ new, P out) ↔ G past event))
    {events : List E} {final : S} {outs : List O}
    (hrun : run step start events = some (final, outs)) :
    (∀ out ∈ outs, P out) ↔
      ∀ past event, past ++ [event] <+: events → G past event := by
  induction events using List.reverseRecOn generalizing final outs with
  | nil =>
      obtain ⟨-, rfl⟩ := (run_nil_eq_some step).1 hrun
      simp
  | append_singleton earlier last ih =>
      obtain ⟨state, first, new, hearlier, hstep, rfl⟩ :=
        (run_concat_eq_some step).1 hrun
      rw [List.forall_mem_append, ih hearlier,
        hone earlier state first last final new hearlier hstep,
        forall_isPrefix_concat_iff]

/-- Two runs side by side, over events that pair up: what one step of both keeps
holds of both. -/
theorem runs_induction {K : Type*} {key : E → K} {start : S}
    {motive : List E → List E → S → S → List O → List O → Prop}
    (base : motive [] [] start start [] [])
    (more : ∀ past other left right outs shown event twin next after new seen,
      run step start past = some (left, outs) →
      run step start other = some (right, shown) →
      motive past other left right outs shown → key event = key twin →
      step left event = some (next, new) → step right twin = some (after, seen) →
      motive (past ++ [event]) (other ++ [twin]) next after (outs ++ new)
        (shown ++ seen))
    {events others : List E} {final last : S} {outs shown : List O}
    (hkeys : events.map key = others.map key)
    (hrun : run step start events = some (final, outs))
    (hother : run step start others = some (last, shown)) :
    motive events others final last outs shown := by
  induction events using List.reverseRecOn generalizing others final last outs
    shown with
  | nil =>
      obtain rfl : others = [] := by simpa using hkeys.symm
      obtain ⟨rfl, rfl⟩ := (run_nil_eq_some step).1 hrun
      obtain ⟨rfl, rfl⟩ := (run_nil_eq_some step).1 hother
      exact base
  | append_singleton past event ih =>
      rw [List.map_append, eq_comm, List.map_eq_append_iff] at hkeys
      obtain ⟨other, rest, rfl, hpast, hlast⟩ := hkeys
      obtain ⟨twin, rfl, htwin⟩ := List.map_eq_singleton_iff.1 hlast
      obtain ⟨left, first, new, hleft, hstep, rfl⟩ :=
        (run_concat_eq_some step).1 hrun
      obtain ⟨right, second, seen, hright, htaken, rfl⟩ :=
        (run_concat_eq_some step).1 hother
      exact more past other left right first second event twin final last new seen
        hleft hright (ih hpast.symm hleft hright) htwin.symm hstep htaken

/-- `P` holds in every state the run passes through, its ends included. -/
def Along (P : S → Prop) (start : S) (events : List E) : Prop :=
  ∀ past, past <+: events → ∀ state outs,
    run step start past = some (state, outs) → P state

/-- Every event of the run meets `guard` in the state it comes in. -/
def StepsMeet (guard : S → E → Prop) (start : S) (events : List E) : Prop :=
  ∀ past event, past ++ [event] <+: events → ∀ state outs,
    run step start past = some (state, outs) → guard state event

/-- Some event of the run meets `guard` in the state it comes in. -/
def SomeStepMeets (guard : S → E → Prop) (start : S) (events : List E) : Prop :=
  ∃ past event, past ++ [event] <+: events ∧ ∃ state outs,
    run step start past = some (state, outs) ∧ guard state event

variable {step}

theorem not_someStepMeets_iff {guard : S → E → Prop} {start : S}
    {events : List E} :
    ¬ SomeStepMeets step guard start events ↔
      StepsMeet step (fun state event => ¬ guard state event) start events := by
  simp only [SomeStepMeets, StepsMeet, not_exists, not_and]

theorem Along.final {P : S → Prop} {start final : S} {events : List E}
    {outs : List O} (halong : Along step P start events)
    (hrun : run step start events = some (final, outs)) : P final :=
  halong events List.prefix_rfl final outs hrun

theorem Along.of_isPrefix {P : S → Prop} {start : S} {past events : List E}
    (halong : Along step P start events) (hpast : past <+: events) :
    Along step P start past :=
  fun earlier hearlier => halong earlier (hearlier.trans hpast)

theorem StepsMeet.of_isPrefix {guard : S → E → Prop} {start : S}
    {past events : List E} (hmeet : StepsMeet step guard start events)
    (hpast : past <+: events) : StepsMeet step guard start past :=
  fun earlier event hearlier => hmeet earlier event (hearlier.trans hpast)

/-- Every prefix of a run is a run. -/
theorem run_isPrefix {start final : S} {past events : List E} {outs : List O}
    (hrun : run step start events = some (final, outs))
    (hpast : past <+: events) :
    ∃ state first, run step start past = some (state, first) := by
  obtain ⟨rest, rfl⟩ := hpast
  obtain ⟨state, first, -, hstate, -, -⟩ := (run_append_eq_some step).1 hrun
  exact ⟨state, first, hstate⟩

/-- Steps that meet the guard keep the invariant over the whole run. -/
theorem StepsMeet.invariant {Inv : S → Prop} {guard : S → E → Prop}
    (hkeep : ∀ state event next outs, Inv state → guard state event →
      step state event = some (next, outs) → Inv next)
    {start final : S} {events : List E} {outs : List O} (hstart : Inv start)
    (hmeet : StepsMeet step guard start events)
    (hrun : run step start events = some (final, outs)) : Inv final := by
  induction events using List.reverseRecOn generalizing final outs with
  | nil =>
      obtain ⟨rfl, -⟩ := (run_nil_eq_some step).1 hrun
      exact hstart
  | append_singleton past event ih =>
      obtain ⟨state, first, new, hpast, hstep, -⟩ :=
        (run_concat_eq_some step).1 hrun
      have hstate := ih (hmeet.of_isPrefix (List.prefix_append _ _)) hpast
      exact hkeep state event final new hstate
        (hmeet past event List.prefix_rfl state first hpast) hstep

theorem stepsMeet_nil (guard : S → E → Prop) (start : S) :
    StepsMeet step guard start [] := by
  intro past event hpast
  simp at hpast

/-- The guard of a longer run is the guard of its past and of its last event. -/
theorem StepsMeet.concat {guard : S → E → Prop} {start state : S}
    {past : List E} {event : E} {outs : List O}
    (hmeet : StepsMeet step guard start past)
    (hpast : run step start past = some (state, outs))
    (hguard : guard state event) :
    StepsMeet step guard start (past ++ [event]) := by
  refine forall_isPrefix_concat_iff.2 ⟨hmeet, ?_⟩
  intro reached first hreached
  rw [hpast, Option.some.injEq, Prod.mk.injEq] at hreached
  exact hreached.1 ▸ hguard

/-- The guard of a longer run is the guard of its first event and of the rest. -/
theorem StepsMeet.cons {guard : S → E → Prop} {start next : S} {event : E}
    {rest : List E} {outs : List O} (hguard : guard start event)
    (hstep : step start event = some (next, outs))
    (hrest : StepsMeet step guard next rest) :
    StepsMeet step guard start (event :: rest) := by
  rintro (- | ⟨first, past⟩) last hpast state seen hstate
  · obtain ⟨rfl, -⟩ := (run_nil_eq_some step).1 hstate
    obtain ⟨rfl, -⟩ := List.cons_prefix_cons.1 hpast
    exact hguard
  · rw [List.cons_append, List.cons_prefix_cons] at hpast
    obtain ⟨rfl, hpast⟩ := hpast
    obtain ⟨middle, new, later, hmiddle, hlater, -⟩ :=
      (run_cons_eq_some step).1 hstate
    rw [hstep, Option.some.injEq, Prod.mk.injEq] at hmiddle
    obtain ⟨rfl, -⟩ := hmiddle
    exact hrest past last hpast state later hlater

/-- A guard on the events alone says something about every event of the run. -/
theorem stepsMeet_iff_forall_mem {Q : E → Prop} {start final : S}
    {events : List E} {outs : List O}
    (hrun : run step start events = some (final, outs)) :
    StepsMeet step (fun _ event => Q event) start events ↔
      ∀ event ∈ events, Q event := by
  constructor
  · intro hmeet event hevent
    obtain ⟨past, rest, rfl⟩ := List.append_of_mem hevent
    have hpast : past ++ [event] <+: past ++ event :: rest := ⟨rest, by simp⟩
    obtain ⟨state, outs, hstate⟩ :=
      run_isPrefix hrun ((List.prefix_append past [event]).trans hpast)
    exact hmeet past event hpast state outs hstate
  · intro hall past event hpast state outs hstate
    exact hall event (hpast.subset (by simp))

/-- The same condition, said of the states the events come in. -/
theorem forall_output_iff_stepsMeet {P : O → Prop} {guard : S → E → Prop}
    {start : S}
    (hone : ∀ past state outs event next new,
      run step start past = some (state, outs) →
      step state event = some (next, new) →
      ((∀ out ∈ new, P out) ↔ guard state event))
    {events : List E} {final : S} {outs : List O}
    (hrun : run step start events = some (final, outs)) :
    (∀ out ∈ outs, P out) ↔ StepsMeet step guard start events := by
  refine forall_output_iff step ?_ hrun
  intro past state outs event next new hpast hstep
  rw [hone past state outs event next new hpast hstep]
  constructor
  · intro hguard other first hother
    rw [hpast, Option.some.injEq, Prod.mk.injEq] at hother
    exact hother.1 ▸ hguard
  · intro hguard
    exact hguard state outs hpast

/-- The exact condition for a property of runs: if the guard is what keeps an
invariant behind `P`, and a step that misses the guard leaves `P` broken, then
`P` holds all along a run precisely when every step met the guard. -/
theorem along_iff_stepsMeet {Inv P : S → Prop} {guard : S → E → Prop}
    (himp : ∀ state, Inv state → P state)
    (hkeep : ∀ state event next outs, Inv state → guard state event →
      step state event = some (next, outs) → Inv next)
    (hbreak : ∀ state event next outs, Inv state → ¬ guard state event →
      step state event = some (next, outs) → ¬ P next)
    {start final : S} {events : List E} {outs : List O} (hstart : Inv start)
    (hrun : run step start events = some (final, outs)) :
    Along step P start events ↔ StepsMeet step guard start events := by
  constructor
  · intro halong
    induction events using List.reverseRecOn generalizing final outs with
    | nil => exact stepsMeet_nil guard start
    | append_singleton past event ih =>
        obtain ⟨state, first, new, hpast, hstep, -⟩ :=
          (run_concat_eq_some step).1 hrun
        have hmeet := ih hpast (halong.of_isPrefix (List.prefix_append _ _))
        have hstate : Inv state := hmeet.invariant hkeep hstart hpast
        refine hmeet.concat hpast ?_
        -- A missed guard would break `P` in the state just reached.
        by_contra hguard
        exact hbreak state event final new hstate hguard hstep
          (halong.final hrun)
  · intro hmeet past hpast state first hstate
    exact himp state ((hmeet.of_isPrefix hpast).invariant hkeep hstart hstate)

variable (step) in
/-- `P` holds at every step of the run, said of its past, the event, and the
states and outputs around it. -/
def EachStep (P : List E → S → List O → E → S → List O → Prop) (start : S)
    (events : List E) : Prop :=
  ∀ past event, past ++ [event] <+: events → ∀ state outs next new,
    run step start past = some (state, outs) →
    step state event = some (next, new) → P past state outs event next new

/-- An invariant of the history, which `P` carries over a step, where `P` holds
at every step the invariant has reached. -/
theorem history_invariant (Inv : List E → S → List O → Prop)
    (P : List E → S → List O → E → S → List O → Prop) {start : S}
    {events : List E} (hstart : Inv [] start [])
    (hkeep : ∀ past state outs event next new,
      P past state outs event next new → Inv (past ++ [event]) next (outs ++ new))
    (heach : ∀ past state outs event next new, past ++ [event] <+: events →
      run step start past = some (state, outs) → Inv past state outs →
      step state event = some (next, new) → P past state outs event next new)
    {past : List E} (hpast : past <+: events) {state : S} {outs : List O}
    (hstate : run step start past = some (state, outs)) :
    Inv past state outs := by
  induction past using List.reverseRecOn generalizing state outs with
  | nil =>
      obtain ⟨rfl, rfl⟩ := (run_nil_eq_some step).1 hstate
      exact hstart
  | append_singleton earlier event ih =>
      obtain ⟨middle, first, new, hearlier, hstep, rfl⟩ :=
        (run_concat_eq_some step).1 hstate
      have hmiddle := ih ((List.prefix_append earlier [event]).trans hpast)
        hearlier
      exact hkeep _ _ _ _ _ _
        (heach _ _ _ _ _ _ hpast hearlier hmiddle hstep)

/-- Steps decided one by one: if `P` at a step carries an invariant of the
history on, and is decided by the guard where the invariant holds, then `P`
holds at every step precisely when every step meets the guard. -/
theorem eachStep_iff (Inv : List E → S → List O → Prop)
    (P : List E → S → List O → E → S → List O → Prop)
    (guard : List E → S → E → Prop) {start : S} {events : List E}
    (hstart : Inv [] start [])
    (hkeep : ∀ past state outs event next new,
      P past state outs event next new → Inv (past ++ [event]) next (outs ++ new))
    (hone : ∀ past state outs event next new, past ++ [event] <+: events →
      run step start past = some (state, outs) → Inv past state outs →
      step state event = some (next, new) →
      (P past state outs event next new ↔ guard past state event))
    {final : S} {outs : List O}
    (hrun : run step start events = some (final, outs)) :
    EachStep step P start events ↔
      ∀ past event, past ++ [event] <+: events → ∀ state outs,
        run step start past = some (state, outs) → guard past state event := by
  have hbefore : ∀ {past event}, past ++ [event] <+: events → past <+: events :=
    fun hpast => (List.prefix_append _ _).trans hpast
  constructor
  · intro heach past event hpast state outs hstate
    obtain ⟨next, both, hboth⟩ := run_isPrefix hrun hpast
    obtain ⟨middle, first, new, hmiddle, hstep, -⟩ :=
      (run_concat_eq_some step).1 hboth
    obtain ⟨rfl, rfl⟩ : middle = state ∧ first = outs := by
      simpa [hmiddle] using hstate
    have hinv : Inv past middle first := by
      apply history_invariant Inv P hstart hkeep _ (hbefore hpast) hstate
      intro past state outs event next new hpast hstate _ hstep
      exact heach past event hpast state outs next new hstate hstep
    exact (hone _ _ _ _ _ _ hpast hstate hinv hstep).1
      (heach past event hpast middle first next new hstate hstep)
  · intro hguard past event hpast state outs next new hstate hstep
    have hinv : Inv past state outs := by
      apply history_invariant Inv P hstart hkeep _ (hbefore hpast) hstate
      intro past state outs event next new hpast hstate hinv hstep
      exact (hone _ _ _ _ _ _ hpast hstate hinv hstep).2
        (hguard past event hpast state outs hstate)
    exact (hone _ _ _ _ _ _ hpast hstate hinv hstep).2
      (hguard past event hpast state outs hstate)

end Runs

end VoiceServer

/-
A part of a machine.  Each step of the whole makes the part take some events of
its own; then a run of the whole is a run of the part over these events.
-/
import VoiceServer.PartialRun

namespace VoiceServer

universe u v w

variable {S T : Type u} {E F : Type v} {O P : Type w}

section Parts

variable (step : S → E → Option (S × List O)) (events : S → E → List F)

/-- The events of the part, over the steps of a run. -/
def partEvents : S → List E → List F
  | _, [] => []
  | state, event :: rest =>
      events state event ++
        (step state event).elim [] fun next => partEvents next.1 rest

theorem partEvents_append {state middle : S} {before : List E} {outs : List O}
    (hrun : run step state before = some (middle, outs)) (after : List E) :
    partEvents step events state (before ++ after) =
      partEvents step events state before ++
        partEvents step events middle after := by
  induction before generalizing state outs with
  | nil =>
      obtain ⟨rfl, -⟩ := (run_nil_eq_some step).1 hrun
      rfl
  | cons event rest ih =>
      obtain ⟨next, first, later, hstep, hrest, -⟩ :=
        (run_cons_eq_some step).1 hrun
      simp only [List.cons_append, partEvents, hstep, Option.elim_some,
        ih hrest, List.append_assoc]

theorem partEvents_concat {state middle : S} {past : List E} {outs : List O}
    (hrun : run step state past = some (middle, outs)) (event : E) :
    partEvents step events state (past ++ [event]) =
      partEvents step events state past ++ events middle event := by
  have hlast : partEvents step events middle [event] = events middle event := by
    cases hstep : step middle event <;> simp [partEvents, hstep]
  rw [partEvents_append step events hrun, hlast]

variable {step events}

/-- One more step of the whole, behind a run of the part. -/
theorem run_part_concat {part : T → F → Option (T × List P)} {start : S}
    {first before after : T} {middle : S} {past : List E} {event : E}
    {outs : List O} {shown new : List P}
    (hrun : run step start past = some (middle, outs))
    (hpart : run part first (partEvents step events start past) =
      some (before, shown))
    (hnext : run part before (events middle event) = some (after, new)) :
    run part first (partEvents step events start (past ++ [event])) =
      some (after, shown ++ new) := by
  rw [partEvents_concat step events hrun, run_append_eq_some]
  exact ⟨before, shown, new, hpart, hnext, rfl⟩

/-- If every step of the whole is a run of the part and shows some of the
outputs of the part, so is and does every run. -/
theorem run_part {part : T → F → Option (T × List P)} {view : S → T}
    {shown : P → Option O}
    (hstep : ∀ state event next outs, step state event = some (next, outs) →
      ∃ hidden, run part (view state) (events state event) =
        some (view next, hidden) ∧ outs = hidden.filterMap shown)
    {start final : S} {all : List E} {outs : List O}
    (hrun : run step start all = some (final, outs)) :
    ∃ hidden, run part (view start) (partEvents step events start all) =
      some (view final, hidden) ∧ outs = hidden.filterMap shown := by
  refine run_induction step (motive := fun past state outs =>
    ∃ hidden, run part (view start) (partEvents step events start past) =
      some (view state, hidden) ∧ outs = hidden.filterMap shown) ?_ ?_ hrun
  · exact ⟨[], rfl, rfl⟩
  · rintro past state outs event next new hpast ⟨hidden, hpart, rfl⟩ hone
    obtain ⟨more, hmore, rfl⟩ := hstep state event next new hone
    exact ⟨hidden ++ more, run_part_concat hpast hpart hmore,
      (List.filterMap_append ..).symm⟩

/-- An event of the part comes with some step of the whole. -/
theorem mem_partEvents {start : S} {all : List E} {one : F}
    (hone : one ∈ partEvents step events start all) :
    ∃ past event, past ++ [event] <+: all ∧ ∃ state outs,
      run step start past = some (state, outs) ∧ one ∈ events state event := by
  induction all generalizing start with
  | nil => simp [partEvents] at hone
  | cons event rest ih =>
      rw [partEvents, List.mem_append] at hone
      rcases hone with hhere | hlater
      · exact ⟨[], event, ⟨rest, rfl⟩, start, [], rfl, hhere⟩
      · cases hnext : step start event with
        | none => simp [hnext] at hlater
        | some next =>
            rw [hnext, Option.elim_some] at hlater
            obtain ⟨past, last, hpast, state, outs, hrun, hmem⟩ := ih hlater
            refine ⟨event :: past, last, ?_, state, next.2 ++ outs, ?_, hmem⟩
            · exact List.cons_prefix_cons.2 ⟨rfl, hpast⟩
            · exact (run_cons_eq_some step).2
                ⟨next.1, next.2, outs, hnext, hrun, rfl⟩

end Parts

/-- A machine that only wraps another one: its runs are the runs of the other
over the events that the wrapping takes. -/
theorem run_wrapped {whole : S → E → Option (S × List O)}
    {part : T → F → Option (T × List P)} {wrap : T → S} {take : E → Option F}
    {shown : P → O}
    (hstep : ∀ state event, whole (wrap state) event =
      (take event).bind fun one => (part state one).map fun done =>
        (wrap done.1, done.2.map shown))
    {first : T} {all : List E} {last : S} {outs : List O}
    (hrun : run whole (wrap first) all = some (last, outs)) :
    ∃ final hidden, last = wrap final ∧
      run part first (all.filterMap take) = some (final, hidden) ∧
      outs = hidden.map shown := by
  induction all generalizing first outs with
  | nil =>
      obtain ⟨rfl, rfl⟩ := (run_nil_eq_some whole).1 hrun
      exact ⟨first, [], rfl, rfl, rfl⟩
  | cons event rest ih =>
      obtain ⟨next, before, later, hone, hrest, rfl⟩ :=
        (run_cons_eq_some whole).1 hrun
      rw [hstep, Option.bind_eq_some_iff] at hone
      obtain ⟨one, htake, hone⟩ := hone
      rw [Option.map_eq_some_iff] at hone
      obtain ⟨⟨middle, done⟩, hdone, heq⟩ := hone
      obtain ⟨rfl, rfl⟩ := Prod.mk.inj heq
      obtain ⟨final, hidden, rfl, hpart, rfl⟩ := ih hrest
      refine ⟨final, done ++ hidden, rfl, ?_, List.map_append.symm⟩
      rw [List.filterMap_cons_some htake, run_cons_eq_some]
      exact ⟨middle, done, hidden, hdone, hpart, rfl⟩

end VoiceServer

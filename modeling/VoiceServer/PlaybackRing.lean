/-
The output ring of `VoiceProcessor`.  Samples go in round after round, but every
call copies from cell 0 on: what is heard is the newest sample of each cell, not
the oldest one that waits.  Whether the two are the same for every content of
the packets is a matter of three numbers: the samples received, the samples used
up and the length of the block.
-/
import VoiceServer.VoiceProcessor

namespace VoiceServer

section Cells

variable {A : Type}

/-- The last of the values that went into cell `i` of a ring of `size` cells,
`blank` if none did. -/
def newest (size : Nat) (blank : A) (written : List A) (i : Nat) : A :=
  ((written.zipIdx.filter fun entry => entry.2 % size = i).getLast?.map
    Prod.fst).getD blank

/-- The next write goes into one cell and leaves the others. -/
theorem newest_concat (size : Nat) (blank : A) (written : List A) (value : A)
    (i : Nat) :
    newest size blank (written ++ [value]) i =
      if written.length % size = i then value
      else newest size blank written i := by
  rw [newest, List.zipIdx_append, List.filter_append]
  by_cases hcell : written.length % size = i
  · simp [hcell]
  · simp [newest, hcell]

/-- A ring that is written once more. -/
theorem set_map_newest (size : Nat) (blank : A) (written : List A) (value : A) :
    ((List.range size).map (newest size blank written)).set
        (written.length % size) value =
      (List.range size).map (newest size blank (written ++ [value])) := by
  apply List.ext_getElem
  · simp
  · intro i hleft hright
    rw [List.getElem_set, List.getElem_map, List.getElem_map,
      List.getElem_range, newest_concat]

/-- The index of the next write, with the wrap as the code makes it. -/
theorem succ_mod_eq {size : Nat} (hpos : 1 ≤ size) (count : Nat) :
    (if size ≤ count % size + 1 then 0 else count % size + 1) =
      (count + 1) % size := by
  have hlt := Nat.mod_lt count hpos
  rw [← Nat.mod_add_mod]
  by_cases hlast : size ≤ count % size + 1
  · have hfull : count % size + 1 = size := by omega
    rw [if_pos hlast, hfull, Nat.mod_self]
  · have hnext : count % size + 1 < size := by omega
    rw [if_neg hlast, Nat.mod_eq_of_lt hnext]

/-- A cell that no write has reached is blank. -/
theorem newest_of_unwritten {size i : Nat} (blank : A) {written : List A}
    (hcell : i < size) (hshort : written.length ≤ i) :
    newest size blank written i = blank := by
  induction written using List.reverseRecOn with
  | nil => rfl
  | append_singleton written value ih =>
      rw [List.length_append, List.length_singleton] at hshort
      have hother : written.length % size ≠ i := by
        rw [Nat.mod_eq_of_lt (by omega)]
        omega
      rw [newest_concat, if_neg hother, ih (by omega)]

/-- A cell keeps what went in for one round. -/
theorem newest_of_lastRound {size position : Nat} (blank : A) {written : List A}
    (hin : position < written.length) (hround : written.length ≤ position + size) :
    newest size blank written (position % size) = written[position] := by
  induction written using List.reverseRecOn with
  | nil => simp at hin
  | append_singleton written value ih =>
      rw [List.length_append, List.length_singleton] at hin hround
      rw [newest_concat]
      rcases Nat.eq_or_lt_of_le (Nat.le_of_lt_succ hin) with hlast | hearlier
      · rw [← hlast, if_pos rfl]
        simp [hlast]
      · have hother : written.length % size ≠ position % size := by
          intro hsame
          have hrounds := Nat.dvd_of_mod_eq_zero
            (Nat.sub_mod_eq_zero_of_mod_eq hsame)
          have hfew := Nat.le_of_dvd (by omega) hrounds
          omega
        rw [if_neg hother, ih hearlier (by omega),
          List.getElem_append_left hearlier]

/-- One round holds the values from a multiple of the size on. -/
theorem newest_of_aligned {size start i : Nat} (blank : A) {written : List A}
    (hstart : size ∣ start) (hround : written.length ≤ start + size)
    (hin : start + i < written.length) :
    newest size blank written i = written[start + i] := by
  have hcell : (start + i) % size = i := by
    obtain ⟨rounds, rfl⟩ := hstart
    rw [Nat.mul_add_mod]
    apply Nat.mod_eq_of_lt
    omega
  calc newest size blank written i
      = newest size blank written ((start + i) % size) := by rw [hcell]
    _ = written[start + i] := newest_of_lastRound blank hin (by omega)

/-- The first `length` cells hold the values from `start` on, and blanks behind
them. -/
def DueFrom (size : Nat) (blank : A) (written : List A) (start length : Nat) :
    Prop :=
  ∀ i < length, newest size blank written i =
    (written.drop start)[i]?.getD blank

/-- Values of which some are due fill one round, and a block that is longer than
what is due is the first one to take anything. -/
def WholeRounds (size written start length : Nat) : Prop :=
  0 < length →
    (start < written → size ∣ start ∧ written ≤ start + size) ∧
      (written < start + length → start = 0)

theorem WholeRounds.dueFrom {size start length : Nat} {blank : A}
    {written : List A} (hlength : length ≤ size)
    (hrounds : WholeRounds size written.length start length) :
    DueFrom size blank written start length := by
  intro i hi
  obtain ⟨hfull, hfirst⟩ := hrounds (by omega)
  rw [List.getElem?_drop]
  by_cases hin : start + i < written.length
  · obtain ⟨hstart, hround⟩ := hfull (by omega)
    rw [newest_of_aligned blank hstart hround hin,
      List.getElem?_eq_getElem hin, Option.getD_some]
  · have hzero : start = 0 := hfirst (by omega)
    rw [newest_of_unwritten blank (by omega) (by omega),
      List.getElem?_eq_none (by omega), Option.getD_none]

/-- A lone mark that is the last value of its cell is heard there, so it is
due there. -/
theorem DueFrom.position_eq {size start length i position count : Nat}
    {blank mark : A} (hmark : mark ≠ blank)
    (hdue : DueFrom size blank
      ((List.replicate count blank).set position mark) start length)
    (hi : i < length) (hcell : position % size = i) (hin : position < count)
    (hround : count ≤ position + size) : start + i = position := by
  have hheard := hdue i hi
  rw [← hcell, newest_of_lastRound blank (by simpa using hin)
    (by simpa using hround), List.getElem_set_self, List.getElem?_drop,
    hcell] at hheard
  by_contra hother
  rw [List.getElem?_set_ne (Ne.symm hother), List.getElem?_replicate] at hheard
  split at hheard
  · exact hmark hheard
  · exact hmark hheard

/-- Every place where a lone mark goes in must be the one it is due at. -/
theorem WholeRounds.of_marks {size start length count : Nat} {blank mark : A}
    (hmark : mark ≠ blank) (hlength : length ≤ size) (hstart : start ≤ count)
    (hdue : ∀ position < count, DueFrom size blank
      ((List.replicate count blank).set position mark) start length) :
    WholeRounds size count start length := by
  intro hpos
  have hplace : ∀ position < count, count ≤ position + size →
      position % size < length → start + position % size = position := by
    intro position hin hround hi
    exact (hdue position hin).position_eq hmark hi rfl hin hround
  -- The last round begins where the samples that wait begin.
  have hround : 0 < count → size ∣ start ∧ start < count ∧
      count ≤ start + size := by
    intro hsome
    have hbelow := Nat.mul_div_le (count - 1) size
    have habove := Nat.lt_mul_div_succ (count - 1) (hpos.trans_le hlength)
    rw [Nat.mul_add, Nat.mul_one] at habove
    have hfirst := hplace (size * ((count - 1) / size)) (by omega) (by omega)
      (by rwa [Nat.mul_mod_right])
    rw [Nat.mul_mod_right, Nat.add_zero] at hfirst
    exact ⟨⟨_, hfirst⟩, by omega, by omega⟩
  constructor
  · intro hwaiting
    obtain ⟨hdvd, -, hfull⟩ := hround (by omega)
    exact ⟨hdvd, hfull⟩
  · intro hshort
    by_contra hlater
    obtain ⟨⟨rounds, hrounds⟩, hwaiting, -⟩ := hround (by omega)
    have hwhole : size ≤ start := by
      rw [hrounds]
      exact Nat.le_mul_of_pos_right size
        (Nat.pos_of_ne_zero fun hnone => by simp [hnone] at hrounds; omega)
    -- The cell behind the last value still holds one of the round before.
    have hcell : (count - size) % size = count - start := by
      have hcount : count - size = (count - start) + size * (rounds - 1) := by
        rw [Nat.mul_sub, ← hrounds]
        omega
      rw [hcount, Nat.add_mul_mod_self_left, Nat.mod_eq_of_lt (by omega)]
    have hstale := hplace (count - size) (by omega) (by omega) (by omega)
    omega

end Cells

namespace VoiceProcessor

variable {F Clock : Type} (arithmetic : ProcessorArithmetic F Clock)

/-- The samples from the network, as they are stored. -/
def remoteSamples : List (ProcessorEvent F Clock) → List F
  | [] => []
  | .remoteAudio data :: rest =>
      data.map arithmetic.scale ++ remoteSamples rest
  | .process _ _ _ :: rest => remoteSamples rest

/-- The length of the output block that a call asks for. -/
def blockLength : ProcessorEvent F Clock → Nat
  | .remoteAudio _ => 0
  | .process _ output _ => output.headD 0

/-- The samples that wait when every call takes as many as its block holds. -/
def waitingSamples (events : List (ProcessorEvent F Clock)) : List F :=
  events.foldl (fun waiting event =>
    waiting.drop (blockLength event) ++ remoteSamples arithmetic [event]) []

/-- The next samples that wait, and zeros where there are no more. -/
def dueBlock (past : List (ProcessorEvent F Clock)) (length : Nat) : List F :=
  (List.range length).map fun i =>
    (waitingSamples arithmetic past)[i]?.getD arithmetic.zero

/-- The blocks that calls copied out of the ring. -/
def copiedBlocks : List (ProcessorCall F) → List (List (List F))
  | [] => []
  | .postMessage _ :: rest => copiedBlocks rest
  | .rendered copied _ :: rest => copied :: copiedBlocks rest

/-- A call copies what is due. -/
def PlaysDue (past : List (ProcessorEvent F Clock)) (_ : VoiceProcessor F Clock)
    (_ : List (ProcessorCall F)) (event : ProcessorEvent F Clock)
    (_ : VoiceProcessor F Clock) (new : List (ProcessorCall F)) : Prop :=
  ∀ copied ∈ copiedBlocks new,
    copied = [dueBlock arithmetic past (blockLength event)]

/-- How many samples an event brings. -/
def remoteLength : ProcessorEvent F Clock → Nat
  | .remoteAudio data => data.length
  | .process _ _ _ => 0

/-- How many samples came in and how many of them calls used up. -/
structure SampleCounts where
  received : Nat
  used : Nat

/-- A call uses up as many samples as its block holds, or all that wait. -/
def SampleCounts.after (counts : SampleCounts)
    (event : ProcessorEvent F Clock) : SampleCounts where
  received := counts.received + remoteLength event
  used := min counts.received (counts.used + blockLength event)

def sampleCounts (events : List (ProcessorEvent F Clock)) : SampleCounts :=
  events.foldl SampleCounts.after ⟨0, 0⟩

/-- A packet of zeros in place of a packet. -/
def silenced : ProcessorEvent F Clock → ProcessorEvent F Clock
  | .remoteAudio data => .remoteAudio (List.replicate data.length 0)
  | .process input output currentTime => .process input output currentTime

/-- The same calls, and packets of the same lengths. -/
def SameSizes (events other : List (ProcessorEvent F Clock)) : Prop :=
  events.map silenced = other.map silenced

/-- The counts are those of the samples. -/
structure Counted (past : List (ProcessorEvent F Clock)) : Prop where
  received_eq : (sampleCounts past).received =
    (remoteSamples arithmetic past).length
  used_le : (sampleCounts past).used ≤ (sampleCounts past).received
  waiting : waitingSamples arithmetic past =
    (remoteSamples arithmetic past).drop (sampleCounts past).used

/-- The output ring after a history. -/
structure RingHolds (framesPerBuffer : Nat)
    (past : List (ProcessorEvent F Clock)) (processor : VoiceProcessor F Clock) :
    Prop where
  channels_eq : processor.channels = 1
  cells : processor.outputBuffer = (List.range framesPerBuffer).map
    (newest framesPerBuffer arithmetic.zero (remoteSamples arithmetic past))
  index : processor.outputBufferIndex =
    (remoteSamples arithmetic past).length % framesPerBuffer

variable {arithmetic}

theorem remoteSamples_append (first second : List (ProcessorEvent F Clock)) :
    remoteSamples arithmetic (first ++ second) =
      remoteSamples arithmetic first ++ remoteSamples arithmetic second := by
  induction first with
  | nil => rfl
  | cons event rest ih =>
      cases event with
      | remoteAudio data => simp [remoteSamples, ih]
      | process input output currentTime => exact ih

theorem waitingSamples_concat (past : List (ProcessorEvent F Clock))
    (event : ProcessorEvent F Clock) :
    waitingSamples arithmetic (past ++ [event]) =
      (waitingSamples arithmetic past).drop (blockLength event) ++
        remoteSamples arithmetic [event] := by
  rw [waitingSamples, List.foldl_append]
  rfl

theorem sampleCounts_concat (past : List (ProcessorEvent F Clock))
    (event : ProcessorEvent F Clock) :
    sampleCounts (past ++ [event]) = (sampleCounts past).after event := by
  rw [sampleCounts, List.foldl_append]
  rfl

theorem length_remoteSamples_singleton (event : ProcessorEvent F Clock) :
    (remoteSamples arithmetic [event]).length = remoteLength event := by
  cases event <;> simp [remoteSamples, remoteLength]

theorem counted (past : List (ProcessorEvent F Clock)) :
    Counted arithmetic past := by
  induction past using List.reverseRecOn with
  | nil => exact ⟨rfl, Nat.le_refl 0, rfl⟩
  | append_singleton past event ih =>
      obtain ⟨hreceived, hused, hwaiting⟩ := ih
      refine ⟨?_, ?_, ?_⟩
      · rw [sampleCounts_concat, remoteSamples_append, List.length_append,
          length_remoteSamples_singleton, ← hreceived]
        rfl
      · rw [sampleCounts_concat]
        exact (Nat.min_le_left _ _).trans (Nat.le_add_right _ _)
      · rw [waitingSamples_concat, hwaiting, List.drop_drop,
          List.drop_eq_drop_min, ← hreceived, Nat.min_comm, hreceived,
          ← List.drop_append_of_le_length (Nat.min_le_left _ _), ← hreceived,
          remoteSamples_append, sampleCounts_concat]
        rfl

theorem ringHolds_new (framesPerBuffer : Nat) :
    RingHolds arithmetic framesPerBuffer []
      (new arithmetic framesPerBuffer 1) where
  channels_eq := rfl
  cells := by
    have hblank : newest framesPerBuffer arithmetic.zero [] =
        fun _ => arithmetic.zero := rfl
    rw [remoteSamples, hblank, List.map_const', List.length_range]
    simp [new]
  index := (Nat.zero_mod _).symm

/-- The loop of `handleRemoteAudio`, on a ring that holds what was written. -/
theorem handleRemoteAudio_cells {framesPerBuffer : Nat}
    (hpos : 1 ≤ framesPerBuffer) {processor : VoiceProcessor F Clock}
    {written : List F}
    (hcells : processor.outputBuffer = (List.range framesPerBuffer).map
      (newest framesPerBuffer arithmetic.zero written))
    (hindex : processor.outputBufferIndex = written.length % framesPerBuffer)
    (data : List Int16) :
    (processor.handleRemoteAudio arithmetic data).outputBuffer =
        (List.range framesPerBuffer).map (newest framesPerBuffer
          arithmetic.zero (written ++ data.map arithmetic.scale)) ∧
      (processor.handleRemoteAudio arithmetic data).outputBufferIndex =
        (written ++ data.map arithmetic.scale).length % framesPerBuffer ∧
      (processor.handleRemoteAudio arithmetic data).channels =
        processor.channels := by
  induction data generalizing processor written with
  | nil => simp [handleRemoteAudio, hcells, hindex]
  | cons sample rest ih =>
      have hlength : processor.outputBuffer.length = framesPerBuffer := by
        simp [hcells]
      have hset : (processor.writeSample arithmetic sample).outputBuffer =
          (List.range framesPerBuffer).map (newest framesPerBuffer
            arithmetic.zero (written ++ [arithmetic.scale sample])) := by
        rw [← set_map_newest, ← hcells, ← hindex]
        rfl
      have hnext : (processor.writeSample arithmetic sample).outputBufferIndex =
          (written ++ [arithmetic.scale sample]).length % framesPerBuffer := by
        rw [List.length_append, List.length_singleton,
          ← succ_mod_eq hpos written.length, ← hindex, ← hlength]
        rfl
      have hrest := ih hset hnext
      rw [List.append_assoc] at hrest
      exact hrest

theorem handleInput_output (processor : VoiceProcessor F Clock)
    (block : List F) :
    (handleInput arithmetic processor block).1.channels = processor.channels ∧
      (handleInput arithmetic processor block).1.outputBuffer =
        processor.outputBuffer ∧
      (handleInput arithmetic processor block).1.outputBufferIndex =
        processor.outputBufferIndex := by
  induction block generalizing processor with
  | nil => exact ⟨rfl, rfl, rfl⟩
  | cons sample rest ih =>
      rw [handleInput]
      split
      · exact ih { processor.storeSample arithmetic sample with
          inputBufferIndex := 0 }
      · exact ih (processor.storeSample arithmetic sample)

theorem flush_output (processor : VoiceProcessor F Clock)
    (currentTime : Clock) :
    (processor.flush arithmetic currentTime).1.channels = processor.channels ∧
      (processor.flush arithmetic currentTime).1.outputBuffer =
        processor.outputBuffer ∧
      (processor.flush arithmetic currentTime).1.outputBufferIndex =
        processor.outputBufferIndex := by
  rw [flush]
  split
  · split
    · exact ⟨rfl, rfl, rfl⟩
    · exact ⟨rfl, rfl, rfl⟩
  · exact ⟨rfl, rfl, rfl⟩

/-- Nothing but samples from the network changes the ring. -/
theorem RingHolds.step {framesPerBuffer : Nat} (hpos : 1 ≤ framesPerBuffer)
    {past : List (ProcessorEvent F Clock)}
    {processor next : VoiceProcessor F Clock}
    (hholds : RingHolds arithmetic framesPerBuffer past processor)
    {event : ProcessorEvent F Clock} {calls : List (ProcessorCall F)}
    (hstep : processor.step arithmetic event = some (next, calls)) :
    RingHolds arithmetic framesPerBuffer (past ++ [event]) next := by
  obtain ⟨hchannels, hcells, hindex⟩ := hholds
  cases event with
  | remoteAudio data =>
      obtain ⟨rfl, -⟩ :
          processor.handleRemoteAudio arithmetic data = next ∧ [] = calls := by
        simpa [VoiceProcessor.step] using hstep
      obtain ⟨hbuffer, hwrite, hsame⟩ :=
        handleRemoteAudio_cells hpos hcells hindex data
      have hsamples : remoteSamples arithmetic
          (past ++ [ProcessorEvent.remoteAudio data]) =
          remoteSamples arithmetic past ++ data.map arithmetic.scale := by
        simp [remoteSamples_append, remoteSamples]
      exact ⟨hsame.trans hchannels, hsamples ▸ hbuffer, hsamples ▸ hwrite⟩
  | process input output currentTime =>
      simp only [VoiceProcessor.step, process, Option.ite_none_left_eq_some,
        Option.some.injEq, Prod.mk.injEq] at hstep
      obtain ⟨-, rfl, -⟩ := hstep
      obtain ⟨hchannels', hbuffer, hwrite⟩ :=
        @handleInput_output _ _ arithmetic processor (input.headD [])
      obtain ⟨hchannels'', hbuffer', hwrite'⟩ := @flush_output _ _ arithmetic
        (handleInput arithmetic processor (input.headD [])).1 currentTime
      have hsamples : remoteSamples arithmetic
          (past ++ [ProcessorEvent.process input output currentTime]) =
          remoteSamples arithmetic past := by
        simp [remoteSamples_append, remoteSamples]
      refine ⟨?_, ?_, ?_⟩
      · rw [hchannels'', hchannels', hchannels]
      · rw [hbuffer', hbuffer, hcells, hsamples]
      · rw [hwrite', hwrite, hindex, hsamples]

theorem ringHolds_of_run {framesPerBuffer : Nat} (hpos : 1 ≤ framesPerBuffer)
    {events : List (ProcessorEvent F Clock)} {final : VoiceProcessor F Clock}
    {calls : List (ProcessorCall F)}
    (hrun : run (step arithmetic) (new arithmetic framesPerBuffer 1) events =
      some (final, calls)) :
    RingHolds arithmetic framesPerBuffer events final := by
  apply run_induction (step arithmetic)
    (motive := fun past processor _ =>
      RingHolds arithmetic framesPerBuffer past processor)
    (ringHolds_new framesPerBuffer) ?_ hrun
  intro past processor calls event next new _ hholds hstep
  exact hholds.step hpos hstep

theorem copiedBlocks_append (first second : List (ProcessorCall F)) :
    copiedBlocks (first ++ second) =
      copiedBlocks first ++ copiedBlocks second := by
  induction first with
  | nil => rfl
  | cons call rest ih =>
      cases call with
      | postMessage buffer => exact ih
      | rendered copied output => exact congrArg (copied :: ·) ih

@[simp] theorem copiedBlocks_map_postMessage (buffers : List (List Int16)) :
    copiedBlocks (buffers.map fun buffer =>
      (.postMessage buffer : ProcessorCall F)) = [] := by
  induction buffers with
  | nil => rfl
  | cons buffer rest ih => exact ih

/-- A block no longer than the ring is the newest sample of each cell. -/
theorem RingHolds.copyOutput {framesPerBuffer : Nat}
    {past : List (ProcessorEvent F Clock)} {processor : VoiceProcessor F Clock}
    (hholds : RingHolds arithmetic framesPerBuffer past processor)
    {length : Nat} (hlength : length ≤ framesPerBuffer) :
    processor.copyOutput arithmetic length =
      (List.range length).map (newest framesPerBuffer arithmetic.zero
        (remoteSamples arithmetic past)) := by
  rw [VoiceProcessor.copyOutput, hholds.cells]
  apply List.map_congr_left
  intro i hi
  have hcell : i < framesPerBuffer := (List.mem_range.1 hi).trans_le hlength
  simp [hcell]

/-- The one block that a call copies. -/
theorem copiedBlocks_process {framesPerBuffer : Nat}
    {past : List (ProcessorEvent F Clock)}
    {processor next : VoiceProcessor F Clock}
    (hholds : RingHolds arithmetic framesPerBuffer past processor)
    {input : List (List F)} {output : List Nat} {currentTime : Clock}
    {calls : List (ProcessorCall F)}
    (hlength : output.headD 0 ≤ framesPerBuffer)
    (hstep : processor.step arithmetic (.process input output currentTime) =
      some (next, calls)) :
    copiedBlocks calls = [[(List.range (output.headD 0)).map
      (newest framesPerBuffer arithmetic.zero
        (remoteSamples arithmetic past))]] := by
  simp only [VoiceProcessor.step, process, Option.ite_none_left_eq_some,
    Option.some.injEq, Prod.mk.injEq] at hstep
  obtain ⟨hcount, rfl, rfl⟩ := hstep
  obtain ⟨-, hbuffer, -⟩ :=
    @handleInput_output _ _ arithmetic processor (input.headD [])
  rw [copiedBlocks_append, copiedBlocks_append, copiedBlocks_map_postMessage,
    copiedBlocks_map_postMessage, List.nil_append, List.append_nil,
    hholds.channels_eq]
  rw [hholds.channels_eq] at hcount
  cases output with
  | nil => simp at hcount
  | cons length others =>
      have hcopy := hholds.copyOutput hlength
      rw [List.headD_cons] at hcopy
      simp only [List.take_succ_cons, List.take_zero, List.map_cons,
        List.map_nil, copiedBlocks, VoiceProcessor.copyOutput, hbuffer,
        List.headD_cons]
      rw [← hcopy]
      rfl

/-- Whether a call copies what is due. -/
theorem playsDue_iff {framesPerBuffer : Nat}
    {past : List (ProcessorEvent F Clock)}
    {processor next : VoiceProcessor F Clock}
    (hholds : RingHolds arithmetic framesPerBuffer past processor)
    {event : ProcessorEvent F Clock} {calls new : List (ProcessorCall F)}
    (hlength : blockLength event ≤ framesPerBuffer)
    (hstep : processor.step arithmetic event = some (next, new)) :
    PlaysDue arithmetic past processor calls event next new ↔
      DueFrom framesPerBuffer arithmetic.zero (remoteSamples arithmetic past)
        (sampleCounts past).used (blockLength event) := by
  cases event with
  | remoteAudio data =>
      obtain ⟨-, rfl⟩ : _ = next ∧ [] = new := by
        simpa [VoiceProcessor.step] using hstep
      simp [PlaysDue, DueFrom, copiedBlocks, blockLength]
  | process input output currentTime =>
      rw [PlaysDue, copiedBlocks_process hholds hlength hstep, DueFrom,
        List.forall_mem_singleton, List.cons.injEq, and_iff_left rfl]
      change List.map _ (List.range (output.headD 0)) =
        List.map _ (List.range (output.headD 0)) ↔ _
      rw [List.map_inj_left]
      simp only [List.mem_range, blockLength, (counted past).waiting]

@[simp] theorem blockLength_silenced (event : ProcessorEvent F Clock) :
    blockLength (silenced event) = blockLength event := by
  cases event <;> rfl

@[simp] theorem remoteLength_silenced (event : ProcessorEvent F Clock) :
    remoteLength (silenced event) = remoteLength event := by
  cases event <;> simp [silenced, remoteLength]

theorem sampleCounts_map_silenced (events : List (ProcessorEvent F Clock)) :
    sampleCounts (events.map silenced) = sampleCounts events := by
  rw [sampleCounts, List.foldl_map, sampleCounts]
  congr 1
  funext counts event
  simp [SampleCounts.after]

theorem SameSizes.sampleCounts_eq {events other : List (ProcessorEvent F Clock)}
    (hsame : SameSizes events other) :
    sampleCounts events = sampleCounts other := by
  rw [← sampleCounts_map_silenced events, hsame, sampleCounts_map_silenced]

/-- Packets of the same lengths that hold the given samples. -/
theorem exists_sameSizes (events : List (ProcessorEvent F Clock))
    {samples : List Int16}
    (hlength : samples.length = (remoteSamples arithmetic events).length) :
    ∃ other, SameSizes events other ∧
      remoteSamples arithmetic other = samples.map arithmetic.scale := by
  induction events generalizing samples with
  | nil =>
      obtain rfl : samples = [] := List.length_eq_zero_iff.1 hlength
      exact ⟨[], rfl, rfl⟩
  | cons event rest ih =>
      cases event with
      | remoteAudio data =>
          rw [remoteSamples, List.length_append, List.length_map] at hlength
          have hrest : (samples.drop data.length).length =
              (remoteSamples arithmetic rest).length := by
            rw [List.length_drop]
            omega
          have htake : (samples.take data.length).length = data.length := by
            rw [List.length_take]
            omega
          obtain ⟨other, hsame, hsamples⟩ := ih hrest
          refine ⟨.remoteAudio (samples.take data.length) :: other, ?_, ?_⟩
          · rw [SameSizes, List.map_cons, List.map_cons, hsame, silenced,
              silenced, htake]
          · rw [remoteSamples, hsamples, ← List.map_append,
              List.take_append_drop]
      | process input output currentTime =>
          obtain ⟨other, hsame, hsamples⟩ := ih hlength
          refine ⟨.process input output currentTime :: other, ?_, hsamples⟩
          rw [SameSizes, List.map_cons, List.map_cons, hsame]

/-- Whether a call throws is a matter of the output it is given. -/
theorem isSome_step_silenced {processor other : VoiceProcessor F Clock}
    (hchannels : processor.channels = other.channels)
    (event : ProcessorEvent F Clock) :
    (other.step arithmetic (silenced event)).isSome =
      (processor.step arithmetic event).isSome := by
  cases event with
  | remoteAudio data => rfl
  | process input output currentTime =>
      simp only [silenced, VoiceProcessor.step, process, hchannels]
      split <;> rfl

/-- Packets with other contents are taken as well. -/
theorem exists_run_of_sameSizes {framesPerBuffer : Nat}
    (hpos : 1 ≤ framesPerBuffer) {events other : List (ProcessorEvent F Clock)}
    (hsame : SameSizes events other) {final : VoiceProcessor F Clock}
    {calls : List (ProcessorCall F)}
    (hrun : run (step arithmetic) (new arithmetic framesPerBuffer 1) events =
      some (final, calls)) :
    ∃ last posted, run (step arithmetic) (new arithmetic framesPerBuffer 1)
      other = some (last, posted) := by
  induction events using List.reverseRecOn generalizing other final calls with
  | nil =>
      obtain rfl : other = [] := List.map_eq_nil_iff.1 hsame.symm
      exact ⟨_, _, rfl⟩
  | append_singleton past event ih =>
      simp only [SameSizes, List.map_append, List.map_cons,
        List.map_nil] at hsame
      obtain ⟨before, right, rfl, hbefore, hright⟩ :=
        List.map_eq_append_iff.1 hsame.symm
      obtain ⟨first, rfl, hfirst⟩ := List.map_eq_singleton_iff.1 hright
      obtain ⟨state, outs, new, hstate, hstep, -⟩ :=
        (run_concat_eq_some (step arithmetic)).1 hrun
      obtain ⟨last, posted, hlast⟩ := ih hbefore.symm hstate
      have hchannels : state.channels = last.channels := by
        rw [(ringHolds_of_run hpos hstate).channels_eq,
          (ringHolds_of_run hpos hlast).channels_eq]
      have hsome : (last.step arithmetic first).isSome := by
        rw [← @isSome_step_silenced _ _ arithmetic _ last rfl first, hfirst,
          isSome_step_silenced hchannels event, hstep]
        rfl
      obtain ⟨⟨next, fresh⟩, hnext⟩ := Option.isSome_iff_exists.1 hsome
      exact ⟨next, posted ++ fresh, (run_concat_eq_some (step arithmetic)).2
        ⟨last, posted, fresh, hlast, hnext, rfl⟩⟩

variable (arithmetic)

/-- Every content of the packets is played in order exactly when each call that
finds samples waiting finds whole rounds used up and at most a ring of them, and
no call asks for more than what waits once a sample has been used up. -/
theorem plays_due_iff_whole_rounds {framesPerBuffer : Nat}
    (hpos : 1 ≤ framesPerBuffer) {loud : Int16}
    (hzero : arithmetic.scale 0 = arithmetic.zero)
    (hloud : arithmetic.scale loud ≠ arithmetic.zero)
    {events : List (ProcessorEvent F Clock)} {final : VoiceProcessor F Clock}
    {calls : List (ProcessorCall F)}
    (hrun : run (step arithmetic) (new arithmetic framesPerBuffer 1) events =
      some (final, calls))
    (hblocks : ∀ event ∈ events, blockLength event ≤ framesPerBuffer) :
    (∀ other, SameSizes events other → EachStep (step arithmetic)
        (PlaysDue arithmetic) (new arithmetic framesPerBuffer 1) other) ↔
      ∀ past event, past ++ [event] <+: events →
        WholeRounds framesPerBuffer (sampleCounts past).received
          (sampleCounts past).used (blockLength event) := by
  constructor
  · intro hall past event hpast
    have hlength := hblocks event (hpast.subset (by simp))
    have hcounted := @counted _ _ arithmetic past
    apply WholeRounds.of_marks hloud hlength hcounted.used_le
    intro position hposition
    -- The same packets with one sample that is not zero.
    obtain ⟨before, hsame, hsamples⟩ := @exists_sameSizes _ _ arithmetic past
      ((List.replicate (sampleCounts past).received 0).set position loud)
      (by simp [hcounted.received_eq])
    obtain ⟨rest, rfl⟩ := hpast
    have hother : SameSizes (past ++ [event] ++ rest)
        (before ++ [event] ++ rest) := by
      rw [SameSizes, List.map_append, List.map_append, hsame]
      simp
    obtain ⟨last, posted, hlast⟩ := exists_run_of_sameSizes hpos hother hrun
    obtain ⟨next, both, hboth⟩ := run_isPrefix hlast
      (List.prefix_append (before ++ [event]) rest)
    obtain ⟨state, outs, new, hstate, hstep, -⟩ :=
      (run_concat_eq_some (step arithmetic)).1 hboth
    have hplays := hall _ hother before event (List.prefix_append _ rest) state
      outs next new hstate hstep
    have hdue := (playsDue_iff (ringHolds_of_run hpos hstate) hlength hstep).1
      hplays
    rwa [hsamples, List.map_set, List.map_replicate, hzero,
      ← hsame.sampleCounts_eq] at hdue
  · intro hall other hsame past event hpast processor outs next new hstate hstep
    obtain ⟨before, first, hfirst, hbefore, hevent⟩ :=
      exists_prefix_of_map_eq hsame hpast
    have hblock : blockLength event = blockLength first := by
      rw [← blockLength_silenced, ← hevent, blockLength_silenced]
    have hlength := hblocks first (hfirst.subset (by simp))
    have hrounds := hall before first hfirst
    have hcounts : sampleCounts before = sampleCounts past :=
      SameSizes.sampleCounts_eq hbefore
    rw [hcounts, ← hblock, (counted past).received_eq] at hrounds
    apply (playsDue_iff (ringHolds_of_run hpos hstate) (hblock ▸ hlength)
      hstep).2
    exact hrounds.dueFrom (hblock ▸ hlength)

/-- Whole rings that are filled just before they are asked for. -/
theorem plays_due_iff_whole_rounds_two :
    let events : List (ProcessorEvent Int Int) :=
      [.process [] [2] 1, .remoteAudio [1, 2], .process [] [2] 2,
        .remoteAudio [3, 4], .process [] [2] 3]
    ∀ other, SameSizes events other → EachStep (step wholeArithmetic)
      (PlaysDue wholeArithmetic) (new wholeArithmetic 2 1) other := by
  intro events
  have hsome : ∃ final calls, run (step wholeArithmetic)
      (new wholeArithmetic 2 1) events = some (final, calls) := ⟨_, _, rfl⟩
  obtain ⟨final, calls, hrun⟩ := hsome
  have hzero : wholeArithmetic.scale 0 = wholeArithmetic.zero := by decide
  have hloud : wholeArithmetic.scale 1 ≠ wholeArithmetic.zero := by decide
  apply (plays_due_iff_whole_rounds wholeArithmetic (by decide) hzero hloud hrun
    (by decide)).2
  have hall : ∀ k < 5, ∀ event ∈ (events.drop k).head?, WholeRounds 2
      (sampleCounts (events.take k)).received
      (sampleCounts (events.take k)).used (blockLength event) := by
    unfold WholeRounds
    decide
  rintro past event ⟨rest, hpast⟩
  have hk : past.length < 5 := by
    have hlength := congrArg List.length hpast
    simp [events] at hlength
    omega
  have hrounds := hall past.length hk event
  rw [← hpast, List.append_assoc, List.drop_left, List.take_left] at hrounds
  exact hrounds rfl

/-- The first sample is heard again in place of the second one. -/
theorem ring_replayed :
    ¬ ∀ (F Clock : Type) (arithmetic : ProcessorArithmetic F Clock)
      (framesPerBuffer : Nat) (events : List (ProcessorEvent F Clock)) final
      calls, 1 ≤ framesPerBuffer →
      run (step arithmetic) (new arithmetic framesPerBuffer 1) events =
        some (final, calls) →
      (∀ event ∈ events, blockLength event ≤ framesPerBuffer) →
      (∀ past, past <+: events →
        (waitingSamples arithmetic past).length ≤ framesPerBuffer) →
      EachStep (step arithmetic) (PlaysDue arithmetic)
        (new arithmetic framesPerBuffer 1) events := by
  intro hclaim
  have hcapacity : ∀ past : List (ProcessorEvent Int Int),
      past <+: [.remoteAudio [1, 2], .process [] [1] 1, .process [] [1] 2] →
      (waitingSamples wholeArithmetic past).length ≤ 2 := by
    have hall : ∀ past ∈ List.inits
        ([.remoteAudio [1, 2], .process [] [1] 1, .process [] [1] 2] :
          List (ProcessorEvent Int Int)),
        (waitingSamples wholeArithmetic past).length ≤ 2 := by
      decide
    intro past hpast
    exact hall past ((List.mem_inits past _).2 hpast)
  have hplays := hclaim Int Int wholeArithmetic 2
    [.remoteAudio [1, 2], .process [] [1] 1, .process [] [1] 2] _ _ (by decide)
    rfl (by decide) hcapacity
    [.remoteAudio [1, 2], .process [] [1] 1] (.process [] [1] 2)
    List.prefix_rfl _ _ _ _ rfl rfl
  exact absurd (hplays _ (List.mem_singleton_self _)) (by decide)

end VoiceProcessor

end VoiceServer

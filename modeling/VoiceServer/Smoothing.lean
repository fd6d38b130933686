/-
Smoothing across packets.  Every callback starts its recurrence at zero, so a
stream that is cut into packets is smoothed like the uncut one only where the
level reached so far makes no difference to the first sample of a packet.
-/
import VoiceServer.Playback

namespace VoiceServer

section Restart

variable (next : Int → Int → Int)

@[simp] theorem length_smoothing (prev : Int) (values : List Int) :
    (smoothing next prev values).length = values.length := by
  induction values generalizing prev with
  | nil => rfl
  | cons value rest ih => rw [smoothing, List.length_cons, ih, List.length_cons]

theorem smoothing_append (prev : Int) (first second : List Int) :
    smoothing next prev (first ++ second) =
      smoothing next prev first ++
        smoothing next (first.foldl next prev) second := by
  induction first generalizing prev with
  | nil => rfl
  | cons value rest ih =>
      rw [List.cons_append, smoothing, smoothing, ih, List.cons_append,
        List.foldl_cons]

/-- Two starting points give one output exactly if they agree on its first
value. -/
theorem smoothing_eq_iff (start prev : Int) (values : List Int) :
    smoothing next start values = smoothing next prev values ↔
      ∀ first ∈ values.head?, next prev first = next start first := by
  cases values with
  | nil => simp [smoothing]
  | cons first rest =>
      simp only [smoothing, List.cons.injEq, List.head?_cons,
        Option.mem_some_iff, forall_eq']
      constructor
      · intro hsame
        exact hsame.1.symm
      · intro hsame
        rw [hsame]
        exact ⟨rfl, rfl⟩

/-- Blocks smoothed one by one from `start`, against all of them smoothed
together from `prev`. -/
theorem flatMap_smoothing_eq_iff (start prev : Int) (blocks : List (List Int)) :
    blocks.flatMap (smoothing next start) =
        smoothing next prev blocks.flatten ↔
      ∀ front block later, blocks = front ++ block :: later →
        ∀ first ∈ block.head?,
          next (front.flatten.foldl next prev) first = next start first := by
  induction blocks generalizing prev with
  | nil => simp [smoothing]
  | cons head tail ih =>
      have hlength : (smoothing next start head).length =
          (smoothing next prev head).length := by simp
      have hsplit : (head :: tail).flatMap (smoothing next start) =
            smoothing next prev (head :: tail).flatten ↔
          smoothing next start head = smoothing next prev head ∧
            tail.flatMap (smoothing next start) =
              smoothing next (head.foldl next prev) tail.flatten := by
        rw [List.flatMap_cons, List.flatten_cons, smoothing_append]
        constructor
        · intro hsame
          exact List.append_inj hsame hlength
        · rintro ⟨hhead, htail⟩
          rw [hhead, htail]
      rw [hsplit, smoothing_eq_iff, ih]
      constructor
      · rintro ⟨hhead, htail⟩ front block later hcut
        cases front with
        | nil =>
            obtain ⟨rfl, -⟩ := List.cons.inj hcut
            exact hhead
        | cons _ front =>
            obtain ⟨rfl, rfl⟩ := List.cons.inj hcut
            rw [List.flatten_cons, List.foldl_append]
            exact htail front block later rfl
      · intro hall
        refine ⟨hall [] head tail rfl, ?_⟩
        intro front block later hcut
        have hlater := hall (head :: front) block later (by rw [hcut]; rfl)
        rwa [List.flatten_cons, List.foldl_append] at hlater

end Restart

/-- A packet of samples, and the memory of a callback that it fills. -/
structure FilledBlock where
  samples : List Int16
  memory : List UInt8
  length_eq : memory.length = 2 * samples.length

namespace FilledBlock

def values (filled : FilledBlock) : List Int :=
  filled.samples.map Int16.toInt

def packet (filled : FilledBlock) : AudioPacket :=
  ⟨filled.values.flatMap AudioMixer.sampleBytes⟩

def block (filled : FilledBlock) : OutputBlock :=
  ⟨filled.samples.length, filled.memory, filled.length_eq⟩

/-- The packet arrives and is played. -/
def events (filled : FilledBlock) : List PlaybackEvent :=
  [.addOutputData filled.packet, .outputCallback filled.block]

theorem values_bounds (filled : FilledBlock) :
    ∀ value ∈ filled.values, -2 ^ 15 ≤ value ∧ value < 2 ^ 15 := by
  intro value hvalue
  obtain ⟨sample, -, rfl⟩ := List.mem_map.1 hvalue
  exact ⟨sample.le_toInt, sample.toInt_lt⟩

theorem samples_packet (filled : FilledBlock) :
    AudioMixer.samples filled.packet.data = filled.values :=
  AudioMixer.samples_flatMap_sampleBytes filled.values_bounds

theorem length_packet (filled : FilledBlock) :
    filled.packet.data.length = filled.samples.length * 2 := by
  rw [packet, AudioMixer.length_flatMap_sampleBytes, values, List.length_map]

end FilledBlock

namespace AudioOutput

/-- All that the callbacks write. -/
def written (next : Int → Int → Int) (stream : List FilledBlock) :
    Option (List UInt8) :=
  (run (step next) new (stream.flatMap FilledBlock.events)).map fun result =>
    result.2.flatMap PlayedBlock.memory

/-- A callback that its packet fills writes the smoothed samples and nothing
else. -/
theorem outputCallback_packet (next : Int → Int → Int) (filled : FilledBlock) :
    outputCallback next (addOutputData new filled.packet) filled.block =
      (new, ⟨filled.values, 0,
        (smoothing next 0 filled.values).flatMap AudioMixer.sampleBytes⟩) := by
  have hqueue : addOutputData new filled.packet = ⟨[filled.packet]⟩ := rfl
  have hcount : filled.values.length = filled.samples.length :=
    List.length_map _
  have hbytes : ((smoothing next 0 filled.values).flatMap
      AudioMixer.sampleBytes).length = filled.samples.length * 2 := by
    rw [AudioMixer.length_flatMap_sampleBytes, length_smoothing, hcount]
  have htake : filled.values.take filled.samples.length =
      filled.values :=
    List.take_of_length_le hcount.le
  simp only [hqueue, outputCallback, FilledBlock.block, filled.length_packet,
    Nat.min_self, filled.samples_packet, Nat.mul_div_cancel _ Nat.two_pos,
    htake, hbytes, Nat.sub_self, List.take_zero, List.replicate_zero,
    List.append_nil]
  rfl

/-- The output of a stream, packet by packet. -/
theorem written_eq (next : Int → Int → Int) (stream : List FilledBlock) :
    written next stream =
      some (((stream.map FilledBlock.values).flatMap
        (smoothing next 0)).flatMap AudioMixer.sampleBytes) := by
  induction stream with
  | nil => rfl
  | cons filled rest ih =>
      obtain ⟨⟨final, blocks⟩, hrun, hblocks⟩ :=
        Option.map_eq_some_iff.1 ih
      have hall : run (step next) new
          ((filled :: rest).flatMap FilledBlock.events) =
          some (final, (outputCallback next
            (addOutputData new filled.packet) filled.block).2 :: blocks) := by
        rw [List.flatMap_cons, FilledBlock.events, run_append_eq_some]
        refine ⟨(outputCallback next (addOutputData new filled.packet)
          filled.block).1, [(outputCallback next
          (addOutputData new filled.packet) filled.block).2], blocks,
          rfl, ?_, rfl⟩
        rw [outputCallback_packet]
        exact hrun
      rw [written, hall, outputCallback_packet, Option.map_some,
        List.flatMap_cons, hblocks, List.map_cons, List.flatMap_cons,
        List.flatMap_append]

theorem smoothingStep_eq (prev current : Int) :
    smoothingStep prev current = (9 * prev + current).tdiv 10 := by
  rw [smoothingStep]
  congr 1
  omega

/-- A step stays between its arguments. -/
theorem smoothingStep_bounds {prev current : Int}
    (hprev : -2 ^ 15 ≤ prev ∧ prev < 2 ^ 15)
    (hcurrent : -2 ^ 15 ≤ current ∧ current < 2 ^ 15) :
    -2 ^ 15 ≤ smoothingStep prev current ∧
      smoothingStep prev current < 2 ^ 15 := by
  rw [smoothingStep_eq]
  have hlow : (-327680 : Int) ≤ 9 * prev + current := by omega
  have hhigh : 9 * prev + current ≤ 327670 := by omega
  constructor
  · exact Int.tdiv_le_tdiv (by decide) hlow
  · exact Int.lt_of_le_of_lt (Int.tdiv_le_tdiv (by decide) hhigh) (by decide)

theorem smoothing_bounds {values : List Int} {prev : Int}
    (hprev : -2 ^ 15 ≤ prev ∧ prev < 2 ^ 15)
    (hvalues : ∀ value ∈ values, -2 ^ 15 ≤ value ∧ value < 2 ^ 15) :
    ∀ out ∈ smoothing smoothingStep prev values,
      -2 ^ 15 ≤ out ∧ out < 2 ^ 15 := by
  induction values generalizing prev with
  | nil => simp [smoothing]
  | cons value rest ih =>
      obtain ⟨hvalue, hrest⟩ := List.forall_mem_cons.1 hvalues
      have hnext := smoothingStep_bounds hprev hvalue
      rw [smoothing]
      exact List.forall_mem_cons.2 ⟨hnext, ih hnext hrest⟩

/-- The level at which the recurrence stands after some packets. -/
def level (stream : List FilledBlock) : Int :=
  (stream.flatMap FilledBlock.values).foldl smoothingStep 0

/-- Samples are written without loss. -/
theorem flatMap_sampleBytes_inj {first second : List Int}
    (hfirst : ∀ value ∈ first, -2 ^ 15 ≤ value ∧ value < 2 ^ 15)
    (hsecond : ∀ value ∈ second, -2 ^ 15 ≤ value ∧ value < 2 ^ 15) :
    first.flatMap AudioMixer.sampleBytes =
      second.flatMap AudioMixer.sampleBytes ↔ first = second := by
  constructor
  · intro hbytes
    rw [← AudioMixer.samples_flatMap_sampleBytes hfirst, hbytes,
      AudioMixer.samples_flatMap_sampleBytes hsecond]
  · intro hsame
    rw [hsame]

/-- What is smoothed packet by packet is 16 bits wide. -/
theorem smoothed_bounds (cut : List FilledBlock) :
    ∀ value ∈ (cut.map FilledBlock.values).flatMap (smoothing smoothingStep 0),
      -2 ^ 15 ≤ value ∧ value < 2 ^ 15 := by
  intro value hvalue
  obtain ⟨block, hblock, hvalue⟩ := List.mem_flatMap.1 hvalue
  obtain ⟨filled, -, rfl⟩ := List.mem_map.1 hblock
  exact smoothing_bounds (by decide) filled.values_bounds value hvalue

/-- Cutting a stream into packets leaves what is written as it is exactly when,
at the start of every packet, truncation swallows the level reached so far. -/
theorem written_cut_iff {cut : List FilledBlock} {whole : FilledBlock}
    (hwhole : whole.samples = cut.flatMap FilledBlock.samples) :
    written smoothingStep cut = written smoothingStep [whole] ↔
      ∀ front filled later, cut = front ++ filled :: later →
        ∀ first ∈ filled.samples.head?,
          (9 * level front + first.toInt).tdiv 10 = first.toInt.tdiv 10 := by
  have hvalues : whole.values = (cut.map FilledBlock.values).flatten := by
    rw [FilledBlock.values, hwhole, List.map_flatMap, ← List.flatMap_def]
    rfl
  have hone : ([whole].map FilledBlock.values).flatMap (smoothing smoothingStep 0) =
      smoothing smoothingStep 0 (cut.map FilledBlock.values).flatten := by
    simp [hvalues]
  have hbounds := smoothed_bounds [whole]
  rw [hone] at hbounds
  rw [written_eq, written_eq, Option.some_inj, hone,
    flatMap_sampleBytes_inj (smoothed_bounds cut) hbounds,
    flatMap_smoothing_eq_iff]
  have hstep : ∀ (front : List FilledBlock) (first : Int),
      smoothingStep ((front.map FilledBlock.values).flatten.foldl smoothingStep 0)
          first = smoothingStep 0 first ↔
        (9 * level front + first).tdiv 10 = first.tdiv 10 := by
    intro front first
    rw [smoothingStep_eq, smoothingStep_eq, level, List.flatMap_def, mul_zero,
      zero_add]
  constructor
  · intro hall front filled later hcut first hfirst
    apply (hstep front first.toInt).1
    apply hall _ filled.values (later.map FilledBlock.values)
    · rw [hcut, List.map_append, List.map_cons]
    · rw [FilledBlock.values, List.head?_map, Option.mem_def.1 hfirst]
      rfl
  · intro hall front block later hcut first hfirst
    obtain ⟨before, rest, rfl, rfl, hrest⟩ := List.map_eq_append_iff.1 hcut
    obtain ⟨filled, after, rfl, rfl, rfl⟩ := List.map_eq_cons_iff.1 hrest
    rw [FilledBlock.values, List.head?_map] at hfirst
    obtain ⟨sample, hsample, rfl⟩ := Option.map_eq_some_iff.1 hfirst
    exact (hstep before sample.toInt).2
      (hall before filled after rfl sample hsample)

/-- One packet of the given samples, played into cleared memory. -/
def fill (samples : List Int16) : FilledBlock :=
  ⟨samples, List.replicate (2 * samples.length) 0, List.length_replicate ..⟩

theorem written_cut_iff_three :
    written smoothingStep [fill [5, -20], fill [], fill [9]] =
        written smoothingStep [fill [5, -20, 9]] ↔
      ∀ front filled later,
        [fill [5, -20], fill [], fill [9]] =
          front ++ filled :: later →
        ∀ first ∈ filled.samples.head?,
          (9 * level front + first.toInt).tdiv 10 = first.toInt.tdiv 10 :=
  written_cut_iff rfl

/-- A constant tone falls back to its start at the second packet. -/
theorem written_cut_restarts :
    ¬ ∀ (cut : List FilledBlock) (whole : FilledBlock),
      whole.samples = cut.flatMap FilledBlock.samples →
      written smoothingStep cut = written smoothingStep [whole] := by
  intro hclaim
  have hsame := hclaim [fill [1000], fill [1000]] (fill [1000, 1000]) rfl
  rw [written_eq, written_eq] at hsame
  exact absurd hsame (by decide)

end AudioOutput

end VoiceServer

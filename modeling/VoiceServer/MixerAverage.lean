/-
What the mixer computes: at every position of the longest packet the mean of
the samples there, halved.  Fewer than 2^16 packets leave the accumulators
exact, so neither the clamp nor the branch for an empty position changes
anything.
-/
import Mathlib.Order.Bounds.Basic
import VoiceServer.MixerOverflow

namespace VoiceServer

namespace AudioMixer

theorem sampleOf_sampleBytes {value : Int} (hlow : -2 ^ 15 ≤ value)
    (hhigh : value < 2 ^ 15) :
    sampleOf (UInt8.ofNat (value % 256).toNat)
      (UInt8.ofNat (value / 256 % 256).toNat) = value := by
  have hlow256 : (value % 256).toNat < 256 := by omega
  have hhigh256 : (value / 256 % 256).toNat < 256 := by omega
  have hword : ((value % 256).toNat : Int) +
      256 * ((value / 256 % 256).toNat : Int) = value % ((2 ^ 16 : Nat) : Int) := by
    norm_num
    omega
  unfold sampleOf
  rw [UInt8.toNat_ofNat_of_lt' hlow256, UInt8.toNat_ofNat_of_lt' hhigh256,
    hword, Int.emod_bmod]
  apply Int.bmod_eq_of_le_mul_two
  · norm_num
    omega
  · norm_num
    omega

/-- A packet that is written and read back. -/
theorem samples_flatMap_sampleBytes {values : List Int}
    (hvalues : ∀ value ∈ values, -2 ^ 15 ≤ value ∧ value < 2 ^ 15) :
    samples (values.flatMap sampleBytes) = values := by
  induction values with
  | nil => rfl
  | cons value rest ih =>
      obtain ⟨hvalue, hrest⟩ := List.forall_mem_cons.1 hvalues
      rw [List.flatMap_cons, sampleBytes, List.cons_append, List.cons_append,
        List.nil_append, samples, ih hrest,
        sampleOf_sampleBytes hvalue.1 hvalue.2]

theorem column_bounds {packets : List AudioPacket} {i : Nat} {value : Int}
    (hvalue : value ∈ column packets i) : -2 ^ 15 ≤ value ∧ value < 2 ^ 15 := by
  obtain ⟨packet, -, hsome⟩ := List.mem_filterMap.1 hvalue
  exact samples_bounds (List.mem_of_getElem? hsome)

/-- Some packet reaches every position below the longest length. -/
theorem length_column_pos {packets : List AudioPacket} {i : Nat}
    (hi : i < maxSampleCount packets) : 1 ≤ (column packets i).length := by
  by_contra hnone
  have hempty : column packets i = [] :=
    List.length_eq_zero_iff.1 (by omega)
  have hshort : maxSampleCount packets ≤ i := by
    apply maxSampleCount_le_iff.2
    intro packet hpacket
    have hmissing : (samples packet.data)[i]? = none :=
      List.filterMap_eq_nil_iff.1 hempty packet hpacket
    rw [List.getElem?_eq_none_iff, length_samples] at hmissing
    exact hmissing
  omega

/-- The counter of a position; adding one at a time does not wrap. -/
theorem sampleCounts_cleared {packets : List AudioPacket} {i : Nat}
    (hi : i < maxSampleCount packets)
    (hfew : (column packets i).length < 2 ^ 31) :
    (packets.foldl mixPacket (cleared packets)).sampleCounts[i]? =
      some ((column packets i).length : Int) := by
  have hones : ((column packets i).map fun _ => (1 : Int)).sum =
      (column packets i).length := by
    rw [List.map_const', List.sum_replicate_int, mul_one]
  rw [(getElem?_foldl_mixPacket packets (cleared packets) i).2, cleared,
    List.getElem?_replicate, if_pos hi, Option.map_some,
    foldl_add32_of_small (by omega) (by omega), hones]

/-- The mean of samples, halved, both quotients truncated toward zero. -/
def halfMean (values : List Int) : Int :=
  (values.sum.tdiv values.length).tdiv 2

/-- A mean lies between the bounds of what it is taken of. -/
theorem tdiv_length_bounds {values : List Int} (hcount : 1 ≤ values.length)
    (hvalues : ∀ value ∈ values, -2 ^ 15 ≤ value ∧ value < 2 ^ 15) :
    -2 ^ 15 ≤ values.sum.tdiv values.length ∧
      values.sum.tdiv values.length ≤ 2 ^ 15 - 1 := by
  obtain ⟨hlow, hhigh⟩ := sum_bounds hvalues
  have hpos : (0 : Int) < values.length := by omega
  constructor
  · calc
      (-2 ^ 15 : Int) = (-2 ^ 15 * (values.length : Int)).tdiv values.length :=
        (Int.mul_tdiv_cancel _ hpos.ne').symm
      _ ≤ values.sum.tdiv values.length := Int.tdiv_le_tdiv hpos hlow
  · calc
      values.sum.tdiv values.length ≤
          ((2 ^ 15 - 1) * (values.length : Int)).tdiv values.length :=
        Int.tdiv_le_tdiv hpos hhigh
      _ = 2 ^ 15 - 1 := Int.mul_tdiv_cancel _ hpos.ne'

theorem halfMean_bounds {values : List Int} (hcount : 1 ≤ values.length)
    (hvalues : ∀ value ∈ values, -2 ^ 15 ≤ value ∧ value < 2 ^ 15) :
    -16384 ≤ halfMean values ∧ halfMean values ≤ 16383 := by
  obtain ⟨hlow, hhigh⟩ := tdiv_length_bounds hcount hvalues
  constructor
  · exact Int.tdiv_le_tdiv (by decide) hlow
  · exact Int.tdiv_le_tdiv (by decide) hhigh

theorem clamp_eq {value : Int} (hlow : -16384 ≤ value) (hhigh : value ≤ 16383) :
    max (-32768) (min value 32767) = value := by
  omega

/-- The sample put out where the accumulators are exact. -/
theorem outputSample_eq {values : List Int} (hcount : 1 ≤ values.length)
    (hvalues : ∀ value ∈ values, -2 ^ 15 ≤ value ∧ value < 2 ^ 15) :
    outputSample values.sum values.length = halfMean values := by
  obtain ⟨hlow, hhigh⟩ := halfMean_bounds hcount hvalues
  rw [outputSample, if_pos (by omega)]
  exact clamp_eq hlow hhigh

/-- With fewer than 2^16 packets every accumulator holds what it should. -/
theorem accumulators_exact {packets : List AudioPacket}
    (hfew : packets.length < 65536) {i : Nat}
    (hi : i < maxSampleCount packets) :
    (packets.foldl mixPacket (cleared packets)).mixBuffer[i]? =
        some (column packets i).sum ∧
      (packets.foldl mixPacket (cleared packets)).sampleCounts[i]? =
        some ((column packets i).length : Int) := by
  have hlength : (column packets i).length ≤ packets.length :=
    List.length_filterMap_le _ _
  obtain ⟨hlow, hhigh⟩ := sum_bounds fun value hvalue =>
    @column_bounds packets i value hvalue
  constructor
  · rw [mixBuffer_cleared ⟨by omega, by omega⟩, if_pos hi]
  · exact sampleCounts_cleared hi (by omega)

/-- The samples of the output, all of them. -/
theorem samples_mix {packets : List AudioPacket}
    (hfew : packets.length < 65536) :
    samples (mix packets).data =
      (List.range (maxSampleCount packets)).map fun i =>
        halfMean (column packets i) := by
  by_cases hpackets : packets = []
  · rw [hpackets]
    rfl
  · have hcolumn : ∀ i ∈ List.range (maxSampleCount packets),
        outputSample ((column packets i).foldl add32 0)
            (((column packets i).map fun _ => 1).foldl add32 0) =
          halfMean (column packets i) := by
      intro i hi
      have hlt := List.mem_range.1 hi
      obtain ⟨hsum, hcount⟩ := accumulators_exact hfew hlt
      rw [(getElem?_foldl_mixPacket packets (cleared packets) i).1, cleared,
        List.getElem?_replicate, if_pos hlt, Option.map_some] at hsum
      rw [(getElem?_foldl_mixPacket packets (cleared packets) i).2, cleared,
        List.getElem?_replicate, if_pos hlt, Option.map_some] at hcount
      rw [Option.some.inj hsum, Option.some.inj hcount]
      exact outputSample_eq (length_column_pos hlt) fun value hvalue =>
        column_bounds hvalue
    rw [mix_data hpackets, List.map_congr_left hcolumn]
    apply samples_flatMap_sampleBytes
    intro value hvalue
    obtain ⟨i, hi, rfl⟩ := List.mem_map.1 hvalue
    obtain ⟨hlow, hhigh⟩ := halfMean_bounds
      (length_column_pos (List.mem_range.1 hi))
      (fun value hvalue => column_bounds hvalue)
    constructor
    · omega
    · omega

/-- The longest of the packets, in samples. -/
theorem isGreatest_maxSampleCount (packets : List AudioPacket) :
    IsGreatest
      (insert 0 {count | ∃ packet ∈ packets,
        (samples packet.data).length = count})
      (maxSampleCount packets) := by
  constructor
  · by_contra hmissing
    have hzero : maxSampleCount packets ≠ 0 := fun hzero =>
      hmissing (Set.mem_insert_iff.2 (Or.inl hzero))
    have hless : maxSampleCount packets ≤ maxSampleCount packets - 1 := by
      apply maxSampleCount_le_iff.2
      intro packet hpacket
      have hle := le_maxSampleCount hpacket
      have hne : packet.data.length / 2 ≠ maxSampleCount packets := fun heq =>
        hmissing (Set.mem_insert_of_mem _
          ⟨packet, hpacket, (length_samples packet.data).trans heq⟩)
      omega
    omega
  · rintro count (rfl | ⟨packet, hpacket, rfl⟩)
    · exact Nat.zero_le _
    · rw [length_samples]
      exact le_maxSampleCount hpacket

/-- The work of `mix` at a position: what the accumulators hold when the
normalization starts, which branch it takes there, what the clamp does. -/
structure AveragedAt (packets : List AudioPacket) (i : Nat) : Prop where
  reached : 1 ≤ (column packets i).length
  summed : (packets.foldl mixPacket (cleared packets)).mixBuffer[i]? =
    some (column packets i).sum
  counted : (packets.foldl mixPacket (cleared packets)).sampleCounts[i]? =
    some ((column packets i).length : Int)
  sample : (samples (mix packets).data)[i]? = some (halfMean (column packets i))
  low : -16384 ≤ halfMean (column packets i)
  high : halfMean (column packets i) ≤ 16383
  unclamped : max (-32768) (min (halfMean (column packets i)) 32767) =
    halfMean (column packets i)

theorem averagedAt {packets : List AudioPacket}
    (hfew : packets.length < 65536) {i : Nat}
    (hi : i < maxSampleCount packets) : AveragedAt packets i := by
  have hreached := length_column_pos hi
  obtain ⟨hsummed, hcounted⟩ := accumulators_exact hfew hi
  obtain ⟨hlow, hhigh⟩ := halfMean_bounds hreached fun value hvalue =>
    column_bounds hvalue
  exact {
    reached := hreached
    summed := hsummed
    counted := hcounted
    sample := by simp [samples_mix hfew, hi]
    low := hlow
    high := hhigh
    unclamped := clamp_eq hlow hhigh }

theorem mix_average {packets : List AudioPacket}
    (hfew : packets.length < 65536) :
    ∃ m, IsGreatest
        (insert 0 {count | ∃ packet ∈ packets,
          (samples packet.data).length = count}) m ∧
      (mix packets).data.length = 2 * m ∧
      ∀ i < m, AveragedAt packets i :=
  ⟨maxSampleCount packets, isGreatest_maxSampleCount packets,
    length_mix packets, fun _ hi => averagedAt hfew hi⟩

/-- The sample below zero shows both truncations. -/
theorem mix_average_two :
    ∃ m, IsGreatest
        (insert 0 {count | ∃ packet ∈ [(⟨[0xFB, 0xFF, 7, 0, 9]⟩ : AudioPacket),
            ⟨[0xFE, 0xFF]⟩],
          (samples packet.data).length = count}) m ∧
      (mix [⟨[0xFB, 0xFF, 7, 0, 9]⟩, ⟨[0xFE, 0xFF]⟩]).data.length = 2 * m ∧
      ∀ i < m, AveragedAt [⟨[0xFB, 0xFF, 7, 0, 9]⟩, ⟨[0xFE, 0xFF]⟩] i :=
  mix_average (by decide)

example : samples (mix [⟨[0xFB, 0xFF, 7, 0, 9]⟩, ⟨[0xFE, 0xFF]⟩]).data =
    [-1, 3] := by
  decide +kernel

end AudioMixer

end VoiceServer

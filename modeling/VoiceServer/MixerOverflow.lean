/-
When the 32-bit accumulators of the mixer are wide enough.  Each packet adds at
most 2^15 to a cell, so 2^16 packets always fit, and one more need not.
-/
import VoiceServer.AudioMixer

namespace VoiceServer

namespace AudioMixer

/-- A value of an `int32_t`. -/
def InRange (value : Int) : Prop :=
  -2 ^ 31 ≤ value ∧ value < 2 ^ 31

/-- `mixBuffer` and `sampleCounts` before the first packet. -/
def cleared (packets : List AudioPacket) : Accumulators :=
  ⟨List.replicate (maxSampleCount packets) 0,
    List.replicate (maxSampleCount packets) 0⟩

/-- No `mixBuffer[i] += samples[i]` of the mixing loop leaves the range of an
`int32_t`. -/
def AdditionsFit (packets : List AudioPacket) : Prop :=
  ∀ front packet, front ++ [packet] <+: packets → ∀ (i : Nat) cell value,
    (front.foldl mixPacket (cleared packets)).mixBuffer[i]? = some cell →
    (samples packet.data)[i]? = some value → InRange (cell + value)

/-- The packet has a sample. -/
def hasSample (packet : AudioPacket) : Bool :=
  2 ≤ packet.data.length

theorem length_samples (data : List UInt8) :
    (samples data).length = data.length / 2 := by
  induction data using samples.induct with
  | case1 low high rest ih =>
      rw [samples, List.length_cons, ih, List.length_cons, List.length_cons]
      omega
  | case2 data hshort =>
      match data, hshort with
      | [], _ => simp [samples]
      | [_], _ => simp [samples]
      | low :: high :: rest, hshort => exact absurd rfl (hshort low high rest)

theorem samples_bounds {data : List UInt8} {value : Int}
    (hvalue : value ∈ samples data) : -2 ^ 15 ≤ value ∧ value < 2 ^ 15 := by
  induction data using samples.induct with
  | case1 low high rest ih =>
      rw [samples, List.mem_cons] at hvalue
      rcases hvalue with hvalue | hvalue
      · rw [hvalue]
        unfold sampleOf
        exact ⟨le_trans (by decide) (Int.le_bmod (by decide)),
          lt_of_lt_of_le (Int.bmod_lt (by decide)) (by decide)⟩
      · exact ih hvalue
  | case2 data hshort => simp [samples] at hvalue

theorem column_cons (packet : AudioPacket) (rest : List AudioPacket) (i : Nat) :
    column (packet :: rest) i =
      (samples packet.data)[i]?.toList ++ column rest i := by
  rw [column, column, List.filterMap_cons]
  cases (samples packet.data)[i]? <;> rfl

theorem column_concat (front : List AudioPacket) (packet : AudioPacket)
    (i : Nat) :
    column (front ++ [packet]) i =
      column front i ++ (samples packet.data)[i]?.toList := by
  rw [column, column, List.filterMap_append, List.filterMap_cons]
  cases (samples packet.data)[i]? <;> rfl

/-- A cell, as long as the sums so far fit. -/
theorem mixBuffer_cleared {packets front : List AudioPacket} {i : Nat}
    (hfits : InRange (column front i).sum) :
    (front.foldl mixPacket (cleared packets)).mixBuffer[i]? =
      if i < maxSampleCount packets then some (column front i).sum
      else none := by
  rw [(getElem?_foldl_mixPacket front (cleared packets) i).1, cleared,
    List.getElem?_replicate]
  by_cases hi : i < maxSampleCount packets
  · rw [if_pos hi, if_pos hi, Option.map_some,
      foldl_add32_of_small hfits.1 hfits.2]
  · rw [if_neg hi, if_neg hi, Option.map_none]

/-- The additions fit exactly if all sums they make do. -/
theorem additionsFit_iff (packets : List AudioPacket) :
    AdditionsFit packets ↔
      ∀ front, front <+: packets → ∀ i, InRange (column front i).sum := by
  constructor
  · intro hfits front hfront i
    induction front using List.reverseRecOn with
    | nil =>
        rw [column, List.filterMap_nil]
        exact ⟨by decide, by decide⟩
    | append_singleton front packet ih =>
        have hsum := ih ((List.prefix_append _ _).trans hfront)
        rw [column_concat]
        cases hvalue : (samples packet.data)[i]? with
        | none => simpa using hsum
        | some value =>
            have hmem : packet ∈ packets := hfront.subset (by simp)
            have hcell : i < maxSampleCount packets := by
              have hi := (List.getElem?_eq_some_iff.1 hvalue).1
              rw [length_samples] at hi
              exact hi.trans_le (le_maxSampleCount hmem)
            have hbuffer := @mixBuffer_cleared packets front i hsum
            rw [if_pos hcell] at hbuffer
            simpa using hfits front packet hfront i _ value hbuffer hvalue
  · intro hsums front packet hfront i cell value hcell hvalue
    have hbuffer := @mixBuffer_cleared packets front i
      (hsums front ((List.prefix_append _ _).trans hfront) i)
    rw [hbuffer, Option.ite_none_right_eq_some] at hcell
    obtain ⟨-, hcell⟩ := hcell
    have hnext := hsums _ hfront i
    rw [column_concat, hvalue] at hnext
    simpa [Option.some.inj hcell] using hnext

theorem length_column_le (packets : List AudioPacket) (i : Nat) :
    (column packets i).length ≤ packets.countP hasSample := by
  induction packets with
  | nil => exact le_rfl
  | cons packet rest ih =>
      rw [column_cons, List.countP_cons]
      cases hvalue : (samples packet.data)[i]? with
      | none => exact ih.trans (Nat.le_add_right ..)
      | some value =>
          have hi := (List.getElem?_eq_some_iff.1 hvalue).1
          rw [length_samples] at hi
          have hsample : hasSample packet = true := by
            simp only [hasSample, decide_eq_true_eq]
            omega
          rw [if_pos hsample, Option.toList_some, List.singleton_append,
            List.length_cons]
          exact Nat.succ_le_succ ih

theorem sum_bounds {values : List Int}
    (hvalues : ∀ value ∈ values, -2 ^ 15 ≤ value ∧ value < 2 ^ 15) :
    -2 ^ 15 * (values.length : Int) ≤ values.sum ∧
      values.sum ≤ (2 ^ 15 - 1) * (values.length : Int) := by
  induction values with
  | nil => exact ⟨le_rfl, le_rfl⟩
  | cons value rest ih =>
      obtain ⟨hvalue, hrest⟩ := List.forall_mem_cons.1 hvalues
      obtain ⟨hlow, hhigh⟩ := ih hrest
      rw [List.sum_cons, List.length_cons]
      push_cast
      omega

/-- Up to 2^16 packets with a sample fit, whatever their samples are. -/
theorem additionsFit_of_few {packets : List AudioPacket}
    (hfew : packets.countP hasSample ≤ 2 ^ 16) : AdditionsFit packets := by
  rw [additionsFit_iff]
  intro front hfront i
  have hcount : (column front i).length ≤ 2 ^ 16 :=
    (length_column_le front i).trans
      ((hfront.sublist.countP_le).trans hfew)
  obtain ⟨hlow, hhigh⟩ := @sum_bounds (column front i) (by
    intro value hvalue
    obtain ⟨packet, -, hsome⟩ := List.mem_filterMap.1 hvalue
    exact samples_bounds (List.mem_of_getElem? hsome))
  constructor
  · omega
  · omega

/-- Bytes whose samples are all the lowest `int16_t`. -/
def lowestBytes : Nat → List UInt8
  | 0 => []
  | 1 => [0]
  | size + 2 => 0 :: 0x80 :: lowestBytes size

/-- The packet of the same size with the lowest samples. -/
def lowest (packet : AudioPacket) : AudioPacket :=
  ⟨lowestBytes packet.data.length⟩

@[simp] theorem length_lowestBytes (size : Nat) :
    (lowestBytes size).length = size := by
  induction size using lowestBytes.induct with
  | case1 => rfl
  | case2 => rfl
  | case3 size ih => simp [lowestBytes, ih]

theorem lowest_lowest (packet : AudioPacket) :
    lowest (lowest packet) = lowest packet := by
  simp [lowest]

theorem column_lowest (packets : List AudioPacket) :
    column (packets.map lowest) 0 =
      List.replicate (packets.countP hasSample) (-2 ^ 15) := by
  induction packets with
  | nil => rfl
  | cons packet rest ih =>
      rw [List.map_cons, column_cons, ih, List.countP_cons]
      match hsize : packet.data.length with
      | 0 | 1 => simp [lowest, lowestBytes, hsize, hasSample, samples]
      | size + 2 =>
          have hsample : hasSample packet = true := by
            simp [hasSample, hsize]
          have hfirst : (samples (lowest packet).data)[0]? =
              some (-2 ^ 15) := by
            rw [lowest, hsize, lowestBytes, samples, List.getElem?_cons_zero]
            unfold sampleOf
            decide
          rw [hfirst, if_pos hsample, List.replicate_succ]
          rfl

/-- One packet more does not fit if all samples are the lowest. -/
theorem not_additionsFit_lowest {packets : List AudioPacket}
    (hmany : 2 ^ 16 < packets.countP hasSample) :
    ¬ AdditionsFit (packets.map lowest) := by
  rw [additionsFit_iff]
  intro hsums
  have hsum := (hsums _ List.prefix_rfl 0).1
  rw [column_lowest, List.sum_replicate_int] at hsum
  omega

end AudioMixer

end VoiceServer

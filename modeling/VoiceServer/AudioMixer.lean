/-
`AudioMixer::mix`: packets of 16-bit little-endian samples are added position
by position in 32-bit accumulators, averaged, halved and clamped.
-/
import Mathlib.Data.List.Perm.Basic
import Mathlib.Tactic.NormNum
import VoiceServer.BigEndian

namespace VoiceServer

structure AudioPacket where
  data : List UInt8
deriving DecidableEq, Repr

namespace AudioMixer

/-- An `int16_t` in memory. -/
def sampleOf (low high : UInt8) : Int :=
  Int.bmod (low.toNat + 256 * high.toNat) (2 ^ 16)

/-- The samples of a packet; a byte left over at the end is not read. -/
def samples : List UInt8 → List Int
  | low :: high :: rest => sampleOf low high :: samples rest
  | _ => []

def sampleBytes (sample : Int) : List UInt8 :=
  [UInt8.ofNat (sample % 256).toNat, UInt8.ofNat (sample / 256 % 256).toNat]

theorem length_flatMap_sampleBytes (values : List Int) :
    (values.flatMap sampleBytes).length = values.length * 2 := by
  have hsample : ∀ value, (sampleBytes value).length = 2 := fun _ => rfl
  simp only [List.length_flatMap, hsample, List.map_const',
    List.sum_replicate_nat]

/-- Addition in an `int32_t`, wrapping as the target's adder does. -/
def add32 (a b : Int) : Int :=
  Int.bmod (a + b) (2 ^ 32)

/-- `mixBuffer` and `sampleCounts`. -/
structure Accumulators where
  mixBuffer : List Int
  sampleCounts : List Int
deriving DecidableEq, Repr

/-- Add to the first cells, one value each. -/
def addCells : List Int → List Int → List Int
  | cell :: cells, value :: values => add32 cell value :: addCells cells values
  | cells, _ => cells

def mixPacket (accumulators : Accumulators) (packet : AudioPacket) :
    Accumulators where
  mixBuffer := addCells accumulators.mixBuffer (samples packet.data)
  sampleCounts := addCells accumulators.sampleCounts
    ((samples packet.data).map fun _ => 1)

def maxSampleCount (packets : List AudioPacket) : Nat :=
  packets.foldl (fun count packet => max count (packet.data.length / 2)) 0

/-- Halving a quotient is exact in `float`, so the cast truncates the half. -/
def outputSample (sum count : Int) : Int :=
  if 0 < count then
    max (-32768) (min ((sum.tdiv count).tdiv 2) 32767)
  else 0

def mix (packets : List AudioPacket) : AudioPacket :=
  if packets.isEmpty then ⟨[]⟩
  else
    let zeros := List.replicate (maxSampleCount packets) 0
    let accumulators := packets.foldl mixPacket ⟨zeros, zeros⟩
    ⟨(List.zipWith outputSample accumulators.mixBuffer
      accumulators.sampleCounts).flatMap sampleBytes⟩

example : mix [⟨[100, 0, 7, 0, 9]⟩, ⟨[0x38, 0xFF]⟩] = ⟨[0xE7, 0xFF, 3, 0]⟩ := by
  decide +kernel

theorem addCells_right_comm (cells first second : List Int) :
    addCells (addCells cells first) second =
      addCells (addCells cells second) first := by
  induction cells generalizing first second with
  | nil => cases first <;> cases second <;> rfl
  | cons cell cells ih =>
      cases first with
      | nil => cases second <;> rfl
      | cons a first =>
          cases second with
          | nil => rfl
          | cons b second =>
              simp only [addCells, ih, add32, Int.bmod_add_bmod]
              rw [Int.add_right_comm]

theorem maxSampleCount_right_comm (count : Nat) (first second : AudioPacket) :
    max (max count (first.data.length / 2)) (second.data.length / 2) =
      max (max count (second.data.length / 2)) (first.data.length / 2) := by
  rw [Nat.max_assoc, Nat.max_assoc, Nat.max_comm (first.data.length / 2)]

instance : RightCommutative mixPacket where
  right_comm accumulators first second := by
    simp only [mixPacket, addCells_right_comm]

/-- A room may walk its buffers in any order. -/
theorem mix_perm {packets other : List AudioPacket}
    (hperm : packets.Perm other) : mix packets = mix other := by
  have hcount : maxSampleCount packets = maxSampleCount other :=
    hperm.foldl_eq' (fun first _ second _ count =>
      maxSampleCount_right_comm count first second) 0
  have hempty : packets.isEmpty = other.isEmpty := hperm.isEmpty_eq
  simp only [mix, hcount, hempty]
  rw [hperm.foldl_eq]

/-- The samples at one position, of the packets that reach it. -/
def column (packets : List AudioPacket) (i : Nat) : List Int :=
  packets.filterMap fun packet => (samples packet.data)[i]?

theorem getElem?_addCells (cells values : List Int) (i : Nat) :
    (addCells cells values)[i]? =
      cells[i]?.map fun cell => values[i]?.elim cell (add32 cell) := by
  induction cells generalizing values i with
  | nil => cases values <;> rfl
  | cons cell cells ih =>
      cases values with
      | nil =>
          change (cell :: cells)[i]? = _
          cases (cell :: cells)[i]? <;> rfl
      | cons value values =>
          cases i with
          | zero => rfl
          | succ i => simpa [addCells] using ih values i

/-- Each accumulator is the fold of its column. -/
theorem getElem?_foldl_mixPacket (packets : List AudioPacket)
    (accumulators : Accumulators) (i : Nat) :
    (packets.foldl mixPacket accumulators).mixBuffer[i]? =
        accumulators.mixBuffer[i]?.map ((column packets i).foldl add32) ∧
      (packets.foldl mixPacket accumulators).sampleCounts[i]? =
        accumulators.sampleCounts[i]?.map
          (((column packets i).map fun _ => 1).foldl add32) := by
  induction packets generalizing accumulators with
  | nil => simp [column]
  | cons packet rest ih =>
      obtain ⟨hmix, hcount⟩ := ih (mixPacket accumulators packet)
      rw [List.foldl_cons, hmix, hcount]
      simp only [mixPacket, getElem?_addCells, column, List.filterMap_cons,
        List.getElem?_map, Option.map_map]
      cases (samples packet.data)[i]? with
      | none => exact ⟨rfl, rfl⟩
      | some value => exact ⟨rfl, rfl⟩

/-- The output, sample by sample. -/
theorem mix_data {packets : List AudioPacket} (hpackets : packets ≠ []) :
    (mix packets).data =
      ((List.range (maxSampleCount packets)).map fun i =>
        outputSample ((column packets i).foldl add32 0)
          (((column packets i).map fun _ => 1).foldl add32 0)).flatMap
        sampleBytes := by
  have hempty : packets.isEmpty = false := List.isEmpty_eq_false_iff.2 hpackets
  simp only [mix, hempty, Bool.false_eq_true, ↓reduceIte]
  congr 1
  apply List.ext_getElem?
  intro i
  obtain ⟨hmix, hcount⟩ := getElem?_foldl_mixPacket packets
    ⟨List.replicate (maxSampleCount packets) 0,
      List.replicate (maxSampleCount packets) 0⟩ i
  rw [List.getElem?_zipWith, hmix, hcount, List.getElem?_map]
  by_cases hi : i < maxSampleCount packets
  · simp [hi]
  · simp [hi]

/-- Wrapping at every addition is wrapping once. -/
theorem foldl_add32 (values : List Int) {start : Int}
    (hstart : start.bmod (2 ^ 32) = start) :
    values.foldl add32 start = (start + values.sum).bmod (2 ^ 32) := by
  induction values generalizing start with
  | nil => simpa using hstart.symm
  | cons value values ih =>
      have hwrapped : (add32 start value).bmod (2 ^ 32) = add32 start value :=
        Int.bmod_bmod
      rw [List.foldl_cons, ih hwrapped, List.sum_cons, add32,
        Int.bmod_add_bmod, Int.add_assoc]

theorem foldl_add32_of_small {values : List Int}
    (hlow : -2 ^ 31 ≤ values.sum) (hhigh : values.sum < 2 ^ 31) :
    values.foldl add32 0 = values.sum := by
  rw [foldl_add32 values (by decide), Int.zero_add]
  exact Int.bmod_eq_of_le_mul_two (by norm_num; omega) (by norm_num; omega)

theorem maxSampleCount_le_iff {packets : List AudioPacket} {bound : Nat} :
    maxSampleCount packets ≤ bound ↔
      ∀ packet ∈ packets, packet.data.length / 2 ≤ bound := by
  have hfold : ∀ count,
      packets.foldl (fun count packet => max count (packet.data.length / 2))
        count ≤ bound ↔
      count ≤ bound ∧ ∀ packet ∈ packets, packet.data.length / 2 ≤ bound := by
    induction packets with
    | nil => simp
    | cons head tail ih =>
        intro count
        rw [List.foldl_cons, ih, Nat.max_le, List.forall_mem_cons, and_assoc]
  exact (hfold 0).trans (and_iff_right (Nat.zero_le bound))

theorem le_maxSampleCount {packets : List AudioPacket} {packet : AudioPacket}
    (hpacket : packet ∈ packets) :
    packet.data.length / 2 ≤ maxSampleCount packets :=
  maxSampleCount_le_iff.1 (Nat.le_refl _) packet hpacket

theorem length_mix (packets : List AudioPacket) :
    (mix packets).data.length = 2 * maxSampleCount packets := by
  by_cases hpackets : packets = []
  · rw [hpackets]
    rfl
  · rw [mix_data hpackets, length_flatMap_sampleBytes, List.length_map,
      List.length_range, Nat.mul_comm]

/-- The first output sample, if some packet has one. -/
theorem mix_head {packets : List AudioPacket} {packet : AudioPacket}
    (hpacket : packet ∈ packets) (hsample : 2 ≤ packet.data.length) :
    ∃ rest, (mix packets).data =
      sampleBytes (outputSample ((column packets 0).foldl add32 0)
        (((column packets 0).map fun _ => 1).foldl add32 0)) ++ rest := by
  have hcount := le_maxSampleCount hpacket
  obtain ⟨count, hsucc⟩ : ∃ count, maxSampleCount packets = count + 1 :=
    ⟨maxSampleCount packets - 1, by omega⟩
  rw [mix_data (List.ne_nil_of_mem hpacket), hsucc, List.range_succ_eq_map,
    List.map_cons, List.flatMap_cons]
  exact ⟨_, rfl⟩

end AudioMixer

end VoiceServer

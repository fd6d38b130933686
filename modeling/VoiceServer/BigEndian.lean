/-
Naturals as big-endian byte strings of a fixed width, and the shift forms in
which C code writes and reads them.
-/
import Mathlib.Data.List.Induction
import Mathlib.Data.Nat.Bitwise
import Mathlib.Tactic.Ring

namespace VoiceServer

/-- The number a byte string spells, most significant byte first. -/
def beNat (bytes : List UInt8) : Nat :=
  bytes.foldl (fun value byte => value * 256 + byte.toNat) 0

/-- The low `width` bytes of a number, most significant first. -/
def beBytes : Nat → Nat → List UInt8
  | 0, _ => []
  | width + 1, n => UInt8.ofNat (n / 256 ^ width) :: beBytes width n

@[simp] theorem beNat_nil : beNat [] = 0 := rfl

@[simp] theorem length_beBytes (width n : Nat) :
    (beBytes width n).length = width := by
  induction width with
  | zero => rfl
  | succ width ih => simp [beBytes, ih]

theorem beNat_concat (bytes : List UInt8) (byte : UInt8) :
    beNat (bytes ++ [byte]) = beNat bytes * 256 + byte.toNat := by
  simp [beNat]

theorem beNat_append (left right : List UInt8) :
    beNat (left ++ right) =
      beNat left * 256 ^ right.length + beNat right := by
  induction right using List.reverseRecOn with
  | nil => simp
  | append_singleton right byte ih =>
      rw [← List.append_assoc, beNat_concat, ih, beNat_concat,
        List.length_append, List.length_singleton, pow_succ]
      ring

theorem beNat_cons (byte : UInt8) (bytes : List UInt8) :
    beNat (byte :: bytes) = byte.toNat * 256 ^ bytes.length + beNat bytes := by
  have hsplit := beNat_append [byte] bytes
  simpa [beNat] using hsplit

theorem beNat_lt (bytes : List UInt8) : beNat bytes < 256 ^ bytes.length := by
  induction bytes using List.reverseRecOn with
  | nil => simp
  | append_singleton bytes byte ih =>
      have hbyte := byte.toNat_lt
      rw [beNat_concat, List.length_append, List.length_singleton, pow_succ]
      omega

theorem beNat_beBytes (width n : Nat) :
    beNat (beBytes width n) = n % 256 ^ width := by
  induction width with
  | zero => simp [beBytes, Nat.mod_one]
  | succ width ih =>
      have hbyte : (UInt8.ofNat (n / 256 ^ width)).toNat =
          n / 256 ^ width % 256 := UInt8.toNat_ofNat'
      rw [beBytes, beNat_cons, length_beBytes, ih, hbyte, pow_succ,
        Nat.mod_mul, Nat.add_comm, Nat.mul_comm]

theorem beNat_beBytes_of_lt {width n : Nat} (hn : n < 256 ^ width) :
    beNat (beBytes width n) = n := by
  rw [beNat_beBytes, Nat.mod_eq_of_lt hn]

/-- High bytes, then low bytes. -/
theorem beBytes_add (high low n : Nat) :
    beBytes (high + low) n = beBytes high (n / 256 ^ low) ++ beBytes low n := by
  induction high with
  | zero => rw [Nat.zero_add, beBytes, List.nil_append]
  | succ high ih =>
      rw [Nat.add_right_comm, beBytes, beBytes, ih, Nat.div_div_eq_div_mul,
        ← pow_add, Nat.add_comm low high, List.cons_append]

/-- Two byte strings of one length that spell one number are equal. -/
theorem beNat_inj {left right : List UInt8}
    (hlength : left.length = right.length)
    (hvalue : beNat left = beNat right) : left = right := by
  induction left using List.reverseRecOn generalizing right with
  | nil => exact (List.length_eq_zero_iff.1 hlength.symm).symm
  | append_singleton left byte ih =>
      rcases List.eq_nil_or_concat right with rfl | ⟨right, last, rfl⟩
      · simp at hlength
      · rw [List.concat_eq_append] at hlength hvalue ⊢
        rw [beNat_concat, beNat_concat] at hvalue
        have hbyte := byte.toNat_lt
        have hlast := last.toNat_lt
        have hhead : left = right :=
          ih (by simpa using hlength) (by omega)
        have htail : byte = last := UInt8.toNat_inj.1 (by omega)
        rw [hhead, htail]

theorem beBytes_beNat {width : Nat} {bytes : List UInt8}
    (hlength : bytes.length = width) : beBytes width (beNat bytes) = bytes := by
  apply beNat_inj (by simp [hlength])
  rw [beNat_beBytes, Nat.mod_eq_of_lt (hlength ▸ beNat_lt bytes)]

/-- `(value << 8) | byte` appends a byte. -/
theorem shiftLeft_or_byte (value : Nat) (byte : UInt8) :
    value <<< 8 ||| byte.toNat = value * 256 + byte.toNat := by
  rw [← Nat.shiftLeft_add_eq_or_of_lt byte.toNat_lt, Nat.shiftLeft_eq]

/-- Reading `width` bytes into a `width`-byte unsigned accumulator loses no
bit: what the shift pushes out is still zero. -/
theorem foldl_shiftLeft_or {width : Nat} {bytes : List UInt8}
    (hlength : bytes.length ≤ width) :
    bytes.foldl
      (fun value byte => (value <<< 8) % 256 ^ width ||| byte.toNat) 0 =
      beNat bytes := by
  induction bytes using List.reverseRecOn with
  | nil => rfl
  | append_singleton bytes byte ih =>
      simp only [List.length_append, List.length_singleton] at hlength
      have hfits : beNat bytes <<< 8 < 256 ^ width :=
        calc beNat bytes <<< 8 = beNat bytes * 256 := Nat.shiftLeft_eq ..
          _ < 256 ^ bytes.length * 256 :=
              Nat.mul_lt_mul_of_pos_right (beNat_lt bytes) (by decide)
          _ = 256 ^ (bytes.length + 1) := (pow_succ ..).symm
          _ ≤ 256 ^ width := Nat.pow_le_pow_right (by decide) hlength
      rw [List.foldl_append, ih (by omega)]
      simp only [List.foldl_cons, List.foldl_nil]
      rw [Nat.mod_eq_of_lt hfits, shiftLeft_or_byte, beNat_concat]

/-- `(n >> (i * 8)) & 0xFF` is byte `i` of `n`. -/
theorem ofNat_shiftRight_and (n i : Nat) :
    UInt8.ofNat ((n >>> (i * 8)) &&& 0xFF) = UInt8.ofNat (n / 256 ^ i) := by
  have hpow : 2 ^ (i * 8) = 256 ^ i := by
    rw [Nat.mul_comm, pow_mul]
    rfl
  rw [show (0xFF : Nat) = 2 ^ 8 - 1 from rfl, Nat.and_two_pow_sub_one_eq_mod,
    Nat.shiftRight_eq_div_pow, hpow]
  apply UInt8.toNat_inj.1
  simp

end VoiceServer

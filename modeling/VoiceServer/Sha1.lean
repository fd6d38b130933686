/-
SHA-1 of FIPS 180-4, over bytes: its functions and constants, the message
schedule, the eighty rounds of a block, the padding.
-/
import VoiceServer.BigEndian

namespace VoiceServer

namespace Sha1

/-- Five words: a hash value, or the working variables of a block. -/
structure Words where
  a : BitVec 32
  b : BitVec 32
  c : BitVec 32
  d : BitVec 32
  e : BitVec 32
deriving DecidableEq, Repr

/-- The initial hash value. -/
def initial : Words where
  a := 0x67452301
  b := 0xefcdab89
  c := 0x98badcfe
  d := 0x10325476
  e := 0xc3d2e1f0

def ch (x y z : BitVec 32) : BitVec 32 := (x &&& y) ^^^ (~~~x &&& z)

def parity (x y z : BitVec 32) : BitVec 32 := x ^^^ y ^^^ z

def maj (x y z : BitVec 32) : BitVec 32 :=
  (x &&& y) ^^^ (x &&& z) ^^^ (y &&& z)

/-- The function of round `t`. -/
def f (t : Nat) : BitVec 32 → BitVec 32 → BitVec 32 → BitVec 32 :=
  if t < 20 then ch else if t < 40 then parity else if t < 60 then maj
  else parity

/-- The constant of round `t`. -/
def k (t : Nat) : BitVec 32 :=
  if t < 20 then 0x5a827999 else if t < 40 then 0x6ed9eba1
  else if t < 60 then 0x8f1bbcdc else 0xca62c1d6

/-- The message schedule: the words of the block, and a recurrence. -/
def schedule (block : List (BitVec 32)) (t : Nat) : BitVec 32 :=
  if t < 16 then block.getD t 0
  else (schedule block (t - 3) ^^^ schedule block (t - 8) ^^^
    schedule block (t - 14) ^^^ schedule block (t - 16)).rotateLeft 1

def round (t : Nat) (word : BitVec 32) (vars : Words) : Words where
  a := vars.a.rotateLeft 5 + f t vars.b vars.c vars.d + vars.e + k t + word
  b := vars.a
  c := vars.b.rotateLeft 30
  d := vars.c
  e := vars.d

/-- The working variables after the first rounds of a block. -/
def rounds (block : List (BitVec 32)) (vars : Words) : Nat → Words
  | 0 => vars
  | t + 1 => round t (schedule block t) (rounds block vars t)

def Words.add (left right : Words) : Words where
  a := left.a + right.a
  b := left.b + right.b
  c := left.c + right.c
  d := left.d + right.d
  e := left.e + right.e

/-- The hash value after one more block. -/
def compress (hash : Words) (block : List (BitVec 32)) : Words :=
  hash.add (rounds block hash 80)

/-- The words that bytes spell, most significant byte first. -/
def wordsOf : List UInt8 → List (BitVec 32)
  | first :: second :: third :: fourth :: rest =>
      BitVec.ofNat 32 (beNat [first, second, third, fourth]) :: wordsOf rest
  | _ => []

/-- A one bit, the fewest zeros that leave eight bytes to a whole block, and
the length in bits in these. -/
def padding (length : Nat) : List UInt8 :=
  0x80 :: List.replicate ((119 - length % 64) % 64) 0 ++ beBytes 8 (8 * length)

/-- The hash value after the whole blocks of the bytes. -/
def hashBlocks (hash : Words) (bytes : List UInt8) : Words :=
  if 64 ≤ bytes.length then
    hashBlocks (compress hash (wordsOf (bytes.take 64))) (bytes.drop 64)
  else hash
termination_by bytes.length
decreasing_by
  rw [List.length_drop]
  omega

def Words.bytes (hash : Words) : List UInt8 :=
  beBytes 4 hash.a.toNat ++ beBytes 4 hash.b.toNat ++ beBytes 4 hash.c.toNat ++
    beBytes 4 hash.d.toNat ++ beBytes 4 hash.e.toNat

def digest (message : List UInt8) : List UInt8 :=
  (hashBlocks initial (message ++ padding message.length)).bytes

theorem schedule_of_lt (block : List (BitVec 32)) {t : Nat} (ht : t < 16) :
    schedule block t = block.getD t 0 := by
  rw [schedule, if_pos ht]

theorem schedule_add (block : List (BitVec 32)) (t : Nat) :
    schedule block (t + 16) = (schedule block (t + 13) ^^^
      schedule block (t + 8) ^^^ schedule block (t + 2) ^^^
      schedule block t).rotateLeft 1 := by
  rw [schedule, if_neg (by omega)]
  rfl

theorem hashBlocks_of_lt (hash : Words) {bytes : List UInt8}
    (hshort : bytes.length < 64) : hashBlocks hash bytes = hash := by
  rw [hashBlocks, if_neg (Nat.not_le.2 hshort)]

theorem hashBlocks_block (hash : Words) {block : List UInt8}
    (hblock : block.length = 64) (rest : List UInt8) :
    hashBlocks hash (block ++ rest) =
      hashBlocks (compress hash (wordsOf block)) rest := by
  have hlong : 64 ≤ (block ++ rest).length := by
    rw [List.length_append, hblock]
    exact Nat.le_add_right 64 rest.length
  rw [hashBlocks, if_pos hlong, List.take_left' hblock, List.drop_left' hblock]

/-- Whole blocks first, and the rest after them. -/
theorem hashBlocks_append (hash : Words) {count : Nat} {whole : List UInt8}
    (hwhole : whole.length = 64 * count) (rest : List UInt8) :
    hashBlocks hash (whole ++ rest) =
      hashBlocks (hashBlocks hash whole) rest := by
  induction count generalizing hash whole with
  | zero =>
      rw [Nat.mul_zero, List.length_eq_zero_iff] at hwhole
      have hnone := @hashBlocks_of_lt hash [] (by decide)
      rw [hwhole, List.nil_append, hnone]
  | succ count ih =>
      have hfirst : (whole.take 64).length = 64 := by
        rw [List.length_take, hwhole]
        omega
      have hrest : (whole.drop 64).length = 64 * count := by
        rw [List.length_drop, hwhole]
        omega
      have hsplit := (List.take_append_drop 64 whole).symm
      rw [hsplit, List.append_assoc, hashBlocks_block hash hfirst,
        hashBlocks_block hash hfirst, ih _ hrest]

/-- One more block behind whole blocks. -/
theorem hashBlocks_concat (hash : Words) {count : Nat} {whole block : List UInt8}
    (hwhole : whole.length = 64 * count) (hblock : block.length = 64) :
    hashBlocks hash (whole ++ block) =
      compress (hashBlocks hash whole) (wordsOf block) := by
  have hlast := hashBlocks_block (hashBlocks hash whole) hblock []
  have hnone := @hashBlocks_of_lt
    (compress (hashBlocks hash whole) (wordsOf block)) [] (by decide)
  rw [List.append_nil] at hlast
  rw [hashBlocks_append hash hwhole, hlast, hnone]

@[simp] theorem length_bytes (hash : Words) : hash.bytes.length = 20 := by
  simp [Words.bytes]

@[simp] theorem length_digest (message : List UInt8) :
    (digest message).length = 20 :=
  length_bytes _

/-- The first four bytes of a string of whole words. -/
theorem exists_four_of_length {bytes : List UInt8} {count : Nat}
    (hbytes : bytes.length = 4 * (count + 1)) :
    ∃ first second third fourth rest,
      bytes = first :: second :: third :: fourth :: rest ∧
        rest.length = 4 * count := by
  rcases bytes with _ | ⟨first, _ | ⟨second, _ | ⟨third, _ | ⟨fourth, rest⟩⟩⟩⟩
  case cons.cons.cons.cons =>
    simp only [List.length_cons] at hbytes
    exact ⟨first, second, third, fourth, rest, rfl, by omega⟩
  all_goals
    simp only [List.length_cons, List.length_nil] at hbytes
    omega

theorem wordsOf_append {left : List UInt8} {count : Nat}
    (hleft : left.length = 4 * count) (right : List UInt8) :
    wordsOf (left ++ right) = wordsOf left ++ wordsOf right := by
  induction count generalizing left with
  | zero =>
      rw [Nat.mul_zero, List.length_eq_zero_iff] at hleft
      rw [hleft]
      rfl
  | succ count ih =>
      obtain ⟨first, second, third, fourth, rest, rfl, hrest⟩ :=
        exists_four_of_length hleft
      simp only [List.cons_append, wordsOf, ih hrest]

theorem length_wordsOf {bytes : List UInt8} {count : Nat}
    (hbytes : bytes.length = 4 * count) : (wordsOf bytes).length = count := by
  induction count generalizing bytes with
  | zero =>
      rw [Nat.mul_zero, List.length_eq_zero_iff] at hbytes
      rw [hbytes]
      rfl
  | succ count ih =>
      obtain ⟨first, second, third, fourth, rest, rfl, hrest⟩ :=
        exists_four_of_length hbytes
      rw [wordsOf, List.length_cons, ih hrest]

/-- The words by their places. -/
theorem wordsOf_eq_map {bytes : List UInt8} {count : Nat}
    (hbytes : bytes.length = 4 * count) :
    wordsOf bytes = (List.range count).map fun i =>
      BitVec.ofNat 32 (beNat [bytes.getD (4 * i) 0, bytes.getD (4 * i + 1) 0,
        bytes.getD (4 * i + 2) 0, bytes.getD (4 * i + 3) 0]) := by
  induction count generalizing bytes with
  | zero =>
      rw [Nat.mul_zero, List.length_eq_zero_iff] at hbytes
      rw [hbytes]
      rfl
  | succ count ih =>
      obtain ⟨first, second, third, fourth, rest, rfl, hrest⟩ :=
        exists_four_of_length hbytes
      rw [wordsOf, ih hrest, List.range_succ_eq_map, List.map_cons,
        List.map_map]
      rfl

theorem wordsOf_beBytes_four (n : Nat) :
    wordsOf (beBytes 4 n) = [BitVec.ofNat 32 n] := by
  have hword : wordsOf (beBytes 4 n) = [BitVec.ofNat 32 (beNat (beBytes 4 n))] :=
    rfl
  have hmod : BitVec.ofNat 32 (n % 256 ^ 4) = BitVec.ofNat 32 n :=
    BitVec.eq_of_toNat_eq (Nat.mod_mod n (2 ^ 32))
  rw [hword, beNat_beBytes, hmod]

/-- The length at the end of the padding, in two words. -/
theorem wordsOf_beBytes_eight (n : Nat) :
    wordsOf (beBytes 8 n) =
      [BitVec.ofNat 32 (n / 2 ^ 32), BitVec.ofNat 32 n] := by
  have hpow : (256 : Nat) ^ 4 = 2 ^ 32 := by decide
  have hhigh : (beBytes 4 (n / 256 ^ 4)).length = 4 * 1 := length_beBytes 4 _
  rw [beBytes_add 4 4, wordsOf_append hhigh, wordsOf_beBytes_four,
    wordsOf_beBytes_four, hpow]
  rfl

theorem wordsOf_zeros (count : Nat) :
    wordsOf (List.replicate (4 * count) 0) = List.replicate count 0 := by
  induction count with
  | zero => rfl
  | succ count ih =>
      have hfour : List.replicate (4 * (count + 1)) (0 : UInt8) =
          0 :: 0 :: 0 :: 0 :: List.replicate (4 * count) 0 := rfl
      rw [hfour, wordsOf, ih]
      rfl

/-- The padding of a message whose last, unfinished block has room for the
length, and of one whose has not. -/
theorem padding_eq {count rest : Nat} (hrest : rest < 64) :
    padding (64 * count + rest) =
      if rest < 56 then
        0x80 :: List.replicate (55 - rest) 0 ++
          beBytes 8 (8 * (64 * count + rest))
      else
        0x80 :: List.replicate (63 - rest) 0 ++
          (List.replicate 56 0 ++ beBytes 8 (8 * (64 * count + rest))) := by
  have hmod : (64 * count + rest) % 64 = rest := by omega
  rw [padding, hmod]
  split
  · have hzeros : (119 - rest) % 64 = 55 - rest := by omega
    rw [hzeros]
  · have hzeros : (119 - rest) % 64 = (63 - rest) + 56 := by omega
    rw [hzeros, ← List.replicate_append_replicate, List.cons_append,
      List.cons_append, List.append_assoc]

end Sha1

end VoiceServer

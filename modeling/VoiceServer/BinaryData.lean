/-
The integers of `BinaryData`.  A host keeps them in memory in its own byte
order; on the wire they are little-endian, since that is the order the code
leaves alone.
-/
import Mathlib.Data.List.Palindrome
import VoiceServer.BigEndian

namespace VoiceServer

namespace NetworkMessages

/-- What the code leaves to the platform: the byte order of integers and
whether plain `char` is signed. -/
structure Host where
  littleEndian : Bool
  charSigned : Bool
deriving DecidableEq, Repr

/-- A `std::vector<uint8_t>`, whose size is at most `PTRDIFF_MAX`. -/
structure ByteVector where
  bytes : List UInt8
  fits : bytes.length < 2 ^ 63

namespace ByteVector

def size (data : ByteVector) : Nat := data.bytes.length

/-- The vector that two iterators delimit. -/
def slice (data : ByteVector) (start count : Nat) : List UInt8 :=
  (data.bytes.drop start).take count

theorem length_slice {data : ByteVector} {start count : Nat}
    (hin : start + count ≤ data.size) :
    (data.slice start count).length = count := by
  rw [size] at hin
  rw [slice, List.length_take, List.length_drop]
  omega

/-- What lies between two other parts of the vector. -/
theorem slice_middle {data : ByteVector} {before middle after : List UInt8}
    {count : Nat} (hdata : data.bytes = before ++ (middle ++ after))
    (hcount : middle.length = count) :
    data.slice before.length count = middle := by
  rw [slice, hdata, List.drop_left, List.take_left' hcount]

theorem slice_add (data : ByteVector) (start first second : Nat) :
    data.slice start (first + second) =
      data.slice start first ++ data.slice (start + first) second := by
  rw [slice, slice, slice, List.take_add, List.drop_drop]

end ByteVector

/-- Addition of `size_t` values. -/
def sizeAdd (a b : Nat) : Nat := (a + b) % 2 ^ 64

theorem sizeAdd_eq {a b bound : Nat} (hbound : bound < 2 ^ 63)
    (hin : a + b ≤ bound) : sizeAdd a b = a + b :=
  Nat.mod_eq_of_lt (by omega)

namespace Host

/-- The bytes of an integer object. -/
def memory (host : Host) (n : Nat) (value : BitVec (8 * n)) : List UInt8 :=
  if host.littleEndian then (beBytes n value.toNat).reverse
  else beBytes n value.toNat

/-- The integer object with these bytes. -/
def object (host : Host) (n : Nat) (memory : List UInt8) : BitVec (8 * n) :=
  BitVec.ofNat (8 * n)
    (beNat (if host.littleEndian then memory.reverse else memory))

/-- `std::reverse` over the bytes of an object. -/
def reverseMemory (host : Host) (n : Nat) (value : BitVec (8 * n)) :
    BitVec (8 * n) :=
  host.object n (host.memory n value).reverse

/-- The first byte of an `int32_t` that is 1. -/
def isLittleEndian (host : Host) : Bool :=
  (host.memory 4 1).head? == some 1

def toNetworkOrder (host : Host) (n : Nat) (value : BitVec (8 * n)) :
    BitVec (8 * n) :=
  if !host.isLittleEndian then host.reverseMemory n value else value

def fromNetworkOrder (host : Host) (n : Nat) (value : BitVec (8 * n)) :
    BitVec (8 * n) :=
  if !host.isLittleEndian then host.reverseMemory n value else value

def toBytes (host : Host) (n : Nat) (object : BitVec (8 * n)) : List UInt8 :=
  host.memory n (host.toNetworkOrder n object)

def fromBytes (host : Host) (n : Nat) (bytes : List UInt8) : BitVec (8 * n) :=
  host.fromNetworkOrder n (host.object n (bytes.take n))

def appendBytes (host : Host) (n : Nat) (vec : List UInt8)
    (data : BitVec (8 * n)) : List UInt8 :=
  vec ++ host.toBytes n data

/-- The state is the caller's offset, passed by reference; the exceptions are
the texts of the `std::runtime_error`s. -/
def readBytes (host : Host) (n : Nat) (data : ByteVector) :
    EStateM String Nat (BitVec (8 * n)) := fun offset =>
  if data.size < sizeAdd offset n then
    .error "Not enough data to read" offset
  else if 2 ^ 63 - 1 < sizeAdd offset n then
    .error "Data size too large for this system" offset
  else
    let value := host.fromBytes n (data.slice offset n)
    .ok (host.fromNetworkOrder n value) (sizeAdd offset n)

variable {host : Host} {n : Nat}

@[simp] theorem isLittleEndian_eq (host : Host) :
    host.isLittleEndian = host.littleEndian := by
  obtain ⟨littleEndian, charSigned⟩ := host
  cases littleEndian <;> rfl

@[simp] theorem length_memory (value : BitVec (8 * n)) :
    (host.memory n value).length = n := by
  unfold memory
  split <;> simp

theorem toNat_lt_pow (value : BitVec (8 * n)) : value.toNat < 256 ^ n :=
  value.isLt.trans_eq (pow_mul 2 8 n)

/-- An object has the value its bytes spell. -/
theorem toNat_object {bytes : List UInt8} (hlength : bytes.length = n) :
    (host.object n bytes).toNat =
      beNat (if host.littleEndian then bytes.reverse else bytes) := by
  have hlt := beNat_lt (if host.littleEndian then bytes.reverse else bytes)
  have hsize : (if host.littleEndian then bytes.reverse else bytes).length =
      n := by
    split <;> simp [hlength]
  rw [hsize] at hlt
  rw [object, BitVec.toNat_ofNat, pow_mul]
  exact Nat.mod_eq_of_lt hlt

theorem memory_object {bytes : List UInt8} (hlength : bytes.length = n) :
    host.memory n (host.object n bytes) = bytes := by
  rw [memory, toNat_object hlength]
  split
  · rw [beBytes_beNat (by simpa using hlength), List.reverse_reverse]
  · exact beBytes_beNat hlength

theorem object_memory (value : BitVec (8 * n)) :
    host.object n (host.memory n value) = value := by
  apply BitVec.eq_of_toNat_eq
  rw [toNat_object (length_memory value), memory]
  split
  · rw [List.reverse_reverse, beNat_beBytes_of_lt (toNat_lt_pow value)]
  · exact beNat_beBytes_of_lt (toNat_lt_pow value)

/-- The bytes sent, on every host: the least significant one first. -/
theorem toBytes_eq (host : Host) (value : BitVec (8 * n)) :
    host.toBytes n value = (beBytes n value.toNat).reverse := by
  rw [toBytes, toNetworkOrder, isLittleEndian_eq]
  cases hendian : host.littleEndian with
  | true => simp [memory, hendian]
  | false =>
      rw [Bool.not_false, if_pos rfl, reverseMemory, memory_object (by simp)]
      simp [memory, hendian]

/-- The two reversals on the way in undo each other, so that the bytes received
are taken as they lie in memory. -/
theorem fromNetworkOrder_fromBytes {bytes : List UInt8}
    (hlength : bytes.length = n) :
    host.fromNetworkOrder n (host.fromBytes n bytes) = host.object n bytes := by
  rw [fromBytes, List.take_of_length_le hlength.le, fromNetworkOrder,
    fromNetworkOrder, isLittleEndian_eq]
  split
  · rw [reverseMemory, reverseMemory, memory_object (by simp),
      memory_object hlength, List.reverse_reverse]
  · rfl

/-- A read that has its bytes. -/
theorem readBytes_of_le {data : ByteVector} {offset : Nat}
    (hin : offset + n ≤ data.size) :
    host.readBytes n data offset =
      .ok (host.object n (data.slice offset n)) (offset + n) := by
  have hfits : data.size < 2 ^ 63 := data.fits
  have hvalue := @fromNetworkOrder_fromBytes host n _
    (ByteVector.length_slice hin)
  simp only [readBytes, sizeAdd_eq hfits hin, hvalue]
  rw [if_neg (Nat.not_lt.2 hin), if_neg (by omega)]

/-- A read beyond the end leaves the offset where it was. -/
theorem readBytes_of_lt {data : ByteVector} {offset : Nat}
    (hoffset : offset ≤ data.size) (hn : n < 2 ^ 63)
    (hout : data.size < offset + n) :
    host.readBytes n data offset = .error "Not enough data to read" offset := by
  have hfits : data.size < 2 ^ 63 := data.fits
  have hadd : sizeAdd offset n = offset + n := Nat.mod_eq_of_lt (by omega)
  rw [readBytes, hadd, if_pos hout]

/-- A host of the other byte order takes the bytes sent for a value to be the
same value only if they read the same from both ends. -/
theorem object_reverse_iff (host : Host) (value : BitVec (8 * n)) :
    host.object n (beBytes n value.toNat).reverse = value ↔
      host.littleEndian = true ∨ (beBytes n value.toNat).Palindrome := by
  rw [List.Palindrome.iff_reverse_eq]
  cases hendian : host.littleEndian with
  | true =>
      have hmemory : host.memory n value = (beBytes n value.toNat).reverse := by
        simp [memory, hendian]
      simp [← hmemory, object_memory]
  | false =>
      rw [← BitVec.toNat_inj, toNat_object (by simp), hendian]
      simp only [Bool.false_eq_true, ↓reduceIte, false_or]
      constructor
      · intro hvalue
        apply beNat_inj (by simp)
        rw [hvalue, beNat_beBytes_of_lt (toNat_lt_pow value)]
      · intro hreverse
        rw [hreverse, beNat_beBytes_of_lt (toNat_lt_pow value)]

/-- The other way round: what a host would send for the bytes it received. -/
theorem reverse_object_iff (host : Host) {bytes : List UInt8}
    (hlength : bytes.length = n) :
    (beBytes n (host.object n bytes).toNat).reverse = bytes ↔
      host.littleEndian = true ∨ bytes.Palindrome := by
  rw [List.Palindrome.iff_reverse_eq, toNat_object hlength]
  cases host.littleEndian with
  | true =>
      have hreverse : bytes.reverse.length = n := by simpa using hlength
      simp [beBytes_beNat hreverse]
  | false => simp [beBytes_beNat hlength]

theorem appendBytes_eq (host : Host) (vec : List UInt8)
    (value : BitVec (8 * n)) :
    host.appendBytes n vec value = vec ++ (beBytes n value.toNat).reverse := by
  rw [appendBytes, toBytes_eq]

/-- Reading the bytes of an integer out of the middle of a vector. -/
theorem readBytes_sent {data : ByteVector} {before after : List UInt8}
    {value : BitVec (8 * n)}
    (hdata : data.bytes = before ++ ((beBytes n value.toNat).reverse ++ after)) :
    host.readBytes n data before.length =
      .ok (host.object n (beBytes n value.toNat).reverse)
        (before.length + n) := by
  have hin : before.length + n ≤ data.size := by
    rw [ByteVector.size, hdata]
    simp
  rw [readBytes_of_le hin, ByteVector.slice_middle hdata (by simp)]

/-- Every host appends the same `n` bytes, and a host reads the value back
exactly when it is little-endian or the bytes are a palindrome. -/
theorem wire_integer_iff {writer reader : Host} {vec : List UInt8}
    {value : BitVec (8 * n)} {data : ByteVector}
    (hdata : data.bytes = writer.appendBytes n vec value) :
    ((∃ bytes, bytes.length = n ∧
        ∀ host : Host, host.appendBytes n vec value = vec ++ bytes) ∧
      reader.readBytes n data vec.length = .ok value (vec.length + n)) ↔
      reader.littleEndian = true ∨ (beBytes n value.toNat).Palindrome := by
  have hsame : ∃ bytes, bytes.length = n ∧
      ∀ host : Host, host.appendBytes n vec value = vec ++ bytes :=
    ⟨_, by simp, fun host => appendBytes_eq host vec value⟩
  rw [appendBytes_eq, ← List.append_nil (beBytes n value.toNat).reverse]
    at hdata
  rw [and_iff_right hsame, readBytes_sent hdata, ← object_reverse_iff]
  simp

def littleHost : Host := ⟨true, true⟩

def bigHost : Host := ⟨false, false⟩

theorem wire_integer_iff_word :
    ((∃ bytes, bytes.length = 4 ∧ ∀ host : Host,
        host.appendBytes 4 [7] (0x12345678 : BitVec 32) = [7] ++ bytes) ∧
      littleHost.readBytes 4 ⟨[7, 0x78, 0x56, 0x34, 0x12], by decide⟩ 1 =
        .ok (0x12345678 : BitVec 32) 5) ↔
      littleHost.littleEndian = true ∨
        (beBytes 4 (0x12345678 : BitVec 32).toNat).Palindrome :=
  wire_integer_iff (show _ = bigHost.appendBytes 4 [7] _ by decide)

/-- A big-endian host reads the `short` 1 as 256. -/
theorem wire_integer_swapped :
    ¬ ∀ (writer reader : Host) (n : Nat) (vec : List UInt8)
      (value : BitVec (8 * n)) (data : ByteVector),
      data.bytes = writer.appendBytes n vec value →
      reader.readBytes n data vec.length = .ok value (vec.length + n) := by
  intro hclaim
  have hread := hclaim littleHost bigHost 2 [] 1 ⟨[1, 0], by decide⟩ (by decide)
  have hswapped : bigHost.readBytes 2 ⟨[1, 0], by decide⟩ 0 = .ok 256 2 := rfl
  rw [List.length_nil, hswapped] at hread
  simp at hread

end Host

end NetworkMessages

end VoiceServer

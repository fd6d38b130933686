/-
Bit strings, most significant bit first, and the base64 encoding of RFC 4648
over them: its alphabet, its groups of three bytes, its padding.
-/
import Mathlib.Data.List.Induction
import Mathlib.Data.Nat.Bitwise
import Mathlib.Tactic.Ring

namespace VoiceServer

/-- The low `width` bits of a number. -/
def bits : Nat → Nat → List Bool
  | 0, _ => []
  | width + 1, value => value.testBit width :: bits width value

/-- The number that bits spell. -/
def ofBits (string : List Bool) : Nat :=
  string.foldl (fun value bit => 2 * value + bit.toNat) 0

/-- The whole groups of `width` bits, as numbers. -/
def bitGroups (width : Nat) (string : List Bool) : List Nat :=
  (List.range (string.length / width)).map fun i =>
    ofBits ((string.drop (width * i)).take width)

@[simp] theorem length_bits (width value : Nat) :
    (bits width value).length = width := by
  induction width with
  | zero => rfl
  | succ width ih => rw [bits, List.length_cons, ih]

/-- High bits, then low bits. -/
theorem bits_add (high low value : Nat) :
    bits (high + low) value = bits high (value / 2 ^ low) ++ bits low value := by
  induction high with
  | zero => rw [Nat.zero_add, bits, List.nil_append]
  | succ high ih =>
      rw [Nat.add_right_comm, bits, bits, ih, Nat.testBit_div_two_pow,
        List.cons_append]

/-- Bits above the width do not matter. -/
theorem bits_mod {width bound : Nat} (hle : width ≤ bound) (value : Nat) :
    bits width (value % 2 ^ bound) = bits width value := by
  induction width with
  | zero => rfl
  | succ width ih =>
      rw [bits, bits, ih (Nat.le_of_succ_le hle), Nat.testBit_mod_two_pow]
      simp [Nat.lt_of_succ_le hle]

/-- A number pushed in behind another one. -/
theorem bits_push {width : Nat} (count value : Nat) {next : Nat}
    (hnext : next < 2 ^ width) :
    bits (count + width) (value * 2 ^ width + next) =
      bits count value ++ bits width next := by
  have hhigh : (value * 2 ^ width + next) / 2 ^ width = value := by
    rw [Nat.mul_comm, Nat.mul_add_div (Nat.two_pow_pos width),
      Nat.div_eq_of_lt hnext, Nat.add_zero]
  have hlow : bits width (value * 2 ^ width + next) = bits width next := by
    rw [← bits_mod (Nat.le_refl width), Nat.mul_add_mod_self_right,
      bits_mod (Nat.le_refl width)]
  rw [bits_add, hhigh, hlow]

theorem ofBits_append (first second : List Bool) :
    ofBits (first ++ second) =
      ofBits first * 2 ^ second.length + ofBits second := by
  have hfold : ∀ (string : List Bool) (start : Nat),
      string.foldl (fun value bit => 2 * value + bit.toNat) start =
        start * 2 ^ string.length + ofBits string := by
    intro string
    induction string with
    | nil => simp [ofBits]
    | cons bit rest ih =>
        intro start
        rw [ofBits, List.foldl_cons, List.foldl_cons, ih, ih, List.length_cons]
        ring
  rw [ofBits, List.foldl_append, hfold]
  rfl

theorem ofBits_bits (width value : Nat) :
    ofBits (bits width value) = value % 2 ^ width := by
  induction width with
  | zero => simp [bits, ofBits, Nat.mod_one]
  | succ width ih =>
      have hcons : bits (width + 1) value =
          [value.testBit width] ++ bits width value := rfl
      have hbit : ofBits [value.testBit width] = value / 2 ^ width % 2 := by
        simp [ofBits, Nat.toNat_testBit]
      rw [hcons, ofBits_append, ih, length_bits, hbit, Nat.mod_pow_succ]
      ring

/-- The first group of a string. -/
theorem bitGroups_append {width : Nat} (hpos : 0 < width) {group : List Bool}
    (hgroup : group.length = width) (rest : List Bool) :
    bitGroups width (group ++ rest) = ofBits group :: bitGroups width rest := by
  have hcount : (group ++ rest).length / width = rest.length / width + 1 := by
    rw [List.length_append, hgroup, Nat.add_div_left _ hpos]
  rw [bitGroups, hcount, List.range_succ_eq_map, List.map_cons, List.map_map,
    Nat.mul_zero, List.drop_zero, List.take_left' hgroup]
  congr 1
  apply List.map_congr_left
  intro i _
  have hskip : width * (i + 1) = group.length + width * i := by
    rw [hgroup]
    ring
  rw [Function.comp_apply, Nat.succ_eq_add_one, hskip, List.drop_append,
    List.drop_of_length_le (Nat.le_add_right _ _)]
  simp

theorem bitGroups_of_short {width : Nat} {string : List Bool}
    (hshort : string.length < width) : bitGroups width string = [] := by
  rw [bitGroups, Nat.div_eq_of_lt hshort]
  rfl

@[simp] theorem length_bitGroups (width : Nat) (string : List Bool) :
    (bitGroups width string).length = string.length / width := by
  simp [bitGroups]

theorem bits_ofBits (string : List Bool) :
    bits string.length (ofBits string) = string := by
  induction string using List.reverseRecOn with
  | nil => rfl
  | append_singleton string bit ih =>
      have hbit : ofBits [bit] = bit.toNat := by simp [ofBits]
      have hlow : bits 1 bit.toNat = [bit] := by cases bit <;> rfl
      have hbound : bit.toNat < 2 ^ 1 := bit.toNat_lt
      rw [List.length_append, List.length_singleton, ofBits_append, hbit,
        List.length_singleton, bits_push _ _ hbound, ih, hlow]

/-- Groups written one after the other, and fewer bits than a group behind. -/
theorem bitGroups_flatMap_bits {width : Nat} (hpos : 0 < width)
    {values : List Nat} (hvalues : ∀ value ∈ values, value < 2 ^ width)
    {short : List Bool} (hshort : short.length < width) :
    bitGroups width (values.flatMap (bits width) ++ short) = values := by
  induction values with
  | nil => exact bitGroups_of_short hshort
  | cons value rest ih =>
      obtain ⟨hvalue, hrest⟩ := List.forall_mem_cons.1 hvalues
      rw [List.flatMap_cons, List.append_assoc,
        bitGroups_append hpos (length_bits width value), ih hrest, ofBits_bits,
        Nat.mod_eq_of_lt hvalue]

/-- A string of whole groups is its groups. -/
theorem flatMap_bits_bitGroups {width count : Nat} {string : List Bool}
    (hcount : string.length = width * count) (hpos : 0 < width) :
    (bitGroups width string).flatMap (bits width) = string := by
  induction count generalizing string with
  | zero =>
      rw [Nat.mul_zero, List.length_eq_zero_iff] at hcount
      rw [hcount, bitGroups_of_short (by simpa using hpos)]
      rfl
  | succ count ih =>
      have hfirst : (string.take width).length = width := by
        rw [List.length_take, hcount]
        exact Nat.min_eq_left (Nat.le_mul_of_pos_right width count.succ_pos)
      have hrest : (string.drop width).length = width * count := by
        rw [List.length_drop, hcount, Nat.mul_succ, Nat.add_sub_cancel]
      have hgroup := bits_ofBits (string.take width)
      rw [hfirst] at hgroup
      have hsplit := bitGroups_append hpos hfirst (string.drop width)
      rw [List.take_append_drop] at hsplit
      rw [hsplit, List.flatMap_cons, hgroup, ih hrest, List.take_append_drop]

theorem ofBits_lt (string : List Bool) :
    ofBits string < 2 ^ string.length := by
  have hround := congrArg ofBits (bits_ofBits string)
  rw [ofBits_bits] at hround
  rw [← hround]
  exact Nat.mod_lt _ (Nat.two_pow_pos _)

theorem bitGroups_lt {width value : Nat} {string : List Bool}
    (hvalue : value ∈ bitGroups width string) : value < 2 ^ width := by
  obtain ⟨i, -, rfl⟩ := List.mem_map.1 hvalue
  exact (ofBits_lt _).trans_le
    (Nat.pow_le_pow_right Nat.two_pos (List.length_take_le _ _))

theorem ofBits_zeros (count : Nat) :
    ofBits (List.replicate count false) = 0 := by
  induction count with
  | zero => rfl
  | succ count ih =>
      rw [List.replicate_succ', ofBits_append, ih]
      rfl

/-- Zeros behind a string, up to a multiple of the width. -/
def zeroFill (width length : Nat) : List Bool :=
  List.replicate ((width - length % width) % width) false

namespace Base64

/-- Table 1. -/
def char (value : Nat) : UInt8 :=
  if value < 26 then UInt8.ofNat (65 + value)
  else if value < 52 then UInt8.ofNat (71 + value)
  else if value < 62 then UInt8.ofNat (value - 4)
  else if value = 62 then 43
  else 47

/-- The value of a character of the alphabet. -/
def valueOf (char : UInt8) : Option Nat :=
  if 65 ≤ char ∧ char ≤ 90 then some (char.toNat - 65)
  else if 97 ≤ char ∧ char ≤ 122 then some (char.toNat - 71)
  else if 48 ≤ char ∧ char ≤ 57 then some (char.toNat + 4)
  else if char = 43 then some 62
  else if char = 47 then some 63
  else none

/-- `=`. -/
def pad : UInt8 := 61

/-- Groups of three bytes in four characters each.  A shorter group at the end
is filled up with zero bits to whole characters, and with padding. -/
def encode : List UInt8 → List UInt8
  | first :: second :: third :: rest =>
      let group := (first.toNat * 2 ^ 8 + second.toNat) * 2 ^ 8 + third.toNat
      char (group / 2 ^ 18) :: char (group / 2 ^ 12 % 2 ^ 6) ::
        char (group / 2 ^ 6 % 2 ^ 6) :: char (group % 2 ^ 6) :: encode rest
  | [first, second] =>
      let group := (first.toNat * 2 ^ 8 + second.toNat) * 2 ^ 2
      [char (group / 2 ^ 12), char (group / 2 ^ 6 % 2 ^ 6),
        char (group % 2 ^ 6), pad]
  | [first] =>
      let group := first.toNat * 2 ^ 4
      [char (group / 2 ^ 6), char (group % 2 ^ 6), pad, pad]
  | [] => []

example : encode [0x14, 0xFB, 0x9C, 0x03] = [70, 80, 117, 99, 65, 119, 61, 61] := by
  decide

/-- The bits of bytes. -/
def byteBits (bytes : List UInt8) : List Bool :=
  bytes.flatMap fun byte => bits 8 byte.toNat

/-- The six-bit values of an encoding. -/
def sextets (bytes : List UInt8) : List Nat :=
  bitGroups 6 (byteBits bytes ++ zeroFill 6 (byteBits bytes).length)

theorem valueOf_char {value : Nat} (hvalue : value < 64) :
    valueOf (char value) = some value ∧ char value ≠ pad := by
  have hall : ∀ value < 64,
      valueOf (char value) = some value ∧ char value ≠ pad := by
    decide +kernel
  exact hall value hvalue

/-- Every character with a value is that of its value. -/
theorem valueOf_spec {character : UInt8} {value : Nat}
    (hvalue : valueOf character = some value) :
    value < 64 ∧ char value = character := by
  have hall : ∀ index : Fin 256, ∀ value ∈ valueOf (UInt8.ofNat index),
      value < 64 ∧ char value = UInt8.ofNat index := by
    decide +kernel
  have hspec := hall ⟨character.toNat, character.toNat_lt⟩ value
  simp only [UInt8.ofNat_toNat] at hspec
  exact hspec hvalue

theorem sextet_lt {bytes : List UInt8} {value : Nat}
    (hvalue : value ∈ sextets bytes) : value < 64 :=
  bitGroups_lt hvalue

@[simp] theorem length_byteBits (bytes : List UInt8) :
    (byteBits bytes).length = 8 * bytes.length := by
  simp only [byteBits, List.length_flatMap, length_bits, List.map_const',
    List.sum_replicate_nat, Nat.mul_comm]

/-- Four groups of six in twenty-four bits. -/
theorem bitGroups_bits_24 (group : Nat) (rest : List Bool) :
    bitGroups 6 (bits 24 group ++ rest) =
      group / 2 ^ 18 % 2 ^ 6 :: group / 2 ^ 12 % 2 ^ 6 ::
        group / 2 ^ 6 % 2 ^ 6 :: group % 2 ^ 6 :: bitGroups 6 rest := by
  have hsplit : bits 24 group = bits 6 (group / 2 ^ 18) ++
      (bits 6 (group / 2 ^ 12) ++ (bits 6 (group / 2 ^ 6) ++ bits 6 group)) := by
    rw [← bits_add 6 6, ← bits_add 6 12, ← bits_add 6 18]
  simp only [hsplit, List.append_assoc, ofBits_bits,
    bitGroups_append (Nat.succ_pos 5) (length_bits 6 _)]

theorem sextets_cons_three (first second third : UInt8) (rest : List UInt8) :
    sextets (first :: second :: third :: rest) =
      bitGroups 6 (bits 24 ((first.toNat * 2 ^ 8 + second.toNat) * 2 ^ 8 +
        third.toNat) ++ (byteBits rest ++ zeroFill 6 (byteBits rest).length)) := by
  have hgroup : bits 24 ((first.toNat * 2 ^ 8 + second.toNat) * 2 ^ 8 +
      third.toNat) = bits 8 first.toNat ++ (bits 8 second.toNat ++
        bits 8 third.toNat) := by
    rw [bits_push 16 _ third.toNat_lt, bits_push 8 _ second.toNat_lt,
      List.append_assoc]
  have hzeros : zeroFill 6 (byteBits (first :: second :: third :: rest)).length =
      zeroFill 6 (byteBits rest).length := by
    rw [zeroFill, zeroFill, length_byteBits, length_byteBits]
    congr 1
    simp
    omega
  rw [sextets, hzeros, hgroup]
  simp [byteBits, List.append_assoc]

theorem sextets_two (first second : UInt8) :
    sextets [first, second] =
      [(first.toNat * 2 ^ 8 + second.toNat) * 2 ^ 2 / 2 ^ 12 % 2 ^ 6,
        (first.toNat * 2 ^ 8 + second.toNat) * 2 ^ 2 / 2 ^ 6 % 2 ^ 6,
        (first.toNat * 2 ^ 8 + second.toNat) * 2 ^ 2 % 2 ^ 6] := by
  have hgroup : byteBits [first, second] ++ zeroFill 6 16 =
      bits 18 ((first.toNat * 2 ^ 8 + second.toNat) * 2 ^ 2 + 0) := by
    rw [bits_push 16 _ (show 0 < 2 ^ 2 by decide),
      bits_push 8 _ second.toNat_lt]
    simp [byteBits]
    rfl
  have hsplit : ∀ group, bits 18 group = bits 6 (group / 2 ^ 12) ++
      (bits 6 (group / 2 ^ 6) ++ (bits 6 group ++ [])) := by
    intro group
    rw [List.append_nil, ← bits_add 6 6, ← bits_add 6 12]
  rw [sextets, length_byteBits]
  change bitGroups 6 (byteBits [first, second] ++ zeroFill 6 16) = _
  rw [hgroup, hsplit]
  simp only [Nat.add_zero, ofBits_bits,
    bitGroups_append (Nat.succ_pos 5) (length_bits 6 _)]
  rfl

theorem sextets_one (first : UInt8) :
    sextets [first] = [first.toNat * 2 ^ 4 / 2 ^ 6 % 2 ^ 6,
      first.toNat * 2 ^ 4 % 2 ^ 6] := by
  have hgroup : byteBits [first] ++ zeroFill 6 8 =
      bits 12 (first.toNat * 2 ^ 4 + 0) := by
    rw [bits_push 8 _ (show 0 < 2 ^ 4 by decide)]
    simp [byteBits]
    rfl
  have hsplit : ∀ group, bits 12 group = bits 6 (group / 2 ^ 6) ++
      (bits 6 group ++ []) := by
    intro group
    rw [List.append_nil, ← bits_add 6 6]
  rw [sextets, length_byteBits]
  change bitGroups 6 (byteBits [first] ++ zeroFill 6 8) = _
  rw [hgroup, hsplit]
  simp only [Nat.add_zero, ofBits_bits,
    bitGroups_append (Nat.succ_pos 5) (length_bits 6 _)]
  rfl

/-- The encoding, sextet by sextet. -/
theorem encode_eq (bytes : List UInt8) :
    encode bytes = (sextets bytes).map char ++
      List.replicate ((4 - (sextets bytes).length % 4) % 4) pad := by
  induction bytes using encode.induct with
  | case1 first second third rest ih =>
      have hfirst := first.toNat_lt
      have hsecond := second.toNat_lt
      have hthird := third.toNat_lt
      have htop : ((first.toNat * 2 ^ 8 + second.toNat) * 2 ^ 8 +
            third.toNat) / 2 ^ 18 % 2 ^ 6 =
          ((first.toNat * 2 ^ 8 + second.toNat) * 2 ^ 8 +
            third.toNat) / 2 ^ 18 := by omega
      have hpadding : ∀ count, (4 - (count + 1 + 1 + 1 + 1) % 4) % 4 =
          (4 - count % 4) % 4 := by
        intro count
        omega
      rw [sextets_cons_three, bitGroups_bits_24, encode, ih, htop]
      simp only [List.map_cons, List.length_cons, List.cons_append, hpadding]
      rfl
  | case2 first second =>
      have hfirst := first.toNat_lt
      have hsecond := second.toNat_lt
      have htop : (first.toNat * 2 ^ 8 + second.toNat) * 2 ^ 2 / 2 ^ 12 %
          2 ^ 6 = (first.toNat * 2 ^ 8 + second.toNat) * 2 ^ 2 / 2 ^ 12 := by
        omega
      rw [sextets_two, htop, encode]
      rfl
  | case3 first =>
      have hfirst := first.toNat_lt
      have htop : first.toNat * 2 ^ 4 / 2 ^ 6 % 2 ^ 6 =
          first.toNat * 2 ^ 4 / 2 ^ 6 := by
        omega
      rw [sextets_one, htop, encode]
      rfl
  | case4 => rfl

theorem length_encode (bytes : List UInt8) :
    (encode bytes).length = 4 * ((bytes.length + 2) / 3) := by
  induction bytes using encode.induct with
  | case1 first second third rest ih =>
      simp only [encode, List.length_cons, ih]
      omega
  | case2 first second => simp [encode]
  | case3 first => simp [encode]
  | case4 => rfl

/-- The values before the first padding; other characters are skipped. -/
def values (text : List UInt8) : List Nat :=
  (text.takeWhile (· ≠ pad)).filterMap valueOf

/-- The whole bytes of the bits that the values make up. -/
def decode (text : List UInt8) : List UInt8 :=
  (bitGroups 8 ((values text).flatMap (bits 6))).map UInt8.ofNat

/-- A character that the decoding looks at. -/
def meaningful (char : UInt8) : Bool :=
  (valueOf char).isSome || char == pad

theorem length_decode (text : List UInt8) :
    (decode text).length = 6 * (values text).length / 8 := by
  simp only [decode, List.length_map, length_bitGroups, List.length_flatMap,
    length_bits, List.map_const', List.sum_replicate_nat, Nat.mul_comm]

theorem values_cons_pad (rest : List UInt8) : values (pad :: rest) = [] := by
  simp [values]

theorem values_cons_of_ne {char : UInt8} (hchar : char ≠ pad)
    (rest : List UInt8) :
    values (char :: rest) = (valueOf char).toList ++ values rest := by
  rw [values, List.takeWhile_cons_of_pos (by simpa using hchar),
    List.filterMap_cons]
  cases valueOf char with
  | none => rfl
  | some value => rfl

/-- What is skipped might as well not be there. -/
theorem values_filter (text : List UInt8) :
    values (text.filter meaningful) = values text := by
  induction text with
  | nil => rfl
  | cons char rest ih =>
      by_cases hpad : char = pad
      · have hkept : meaningful pad = true := by decide
        rw [hpad, List.filter_cons_of_pos hkept, values_cons_pad,
          values_cons_pad]
      · rw [values_cons_of_ne hpad]
        cases hvalue : valueOf char with
        | none =>
            have hskipped : ¬ meaningful char = true := by
              simp [meaningful, hvalue, hpad]
            rw [List.filter_cons_of_neg hskipped, ih]
            rfl
        | some value =>
            have hkept : meaningful char = true := by
              simp [meaningful, hvalue]
            rw [List.filter_cons_of_pos hkept, values_cons_of_ne hpad, hvalue,
              ih]

theorem values_map_char {sextets : List Nat}
    (hsextets : ∀ value ∈ sextets, value < 64) (padding : Nat) :
    values (sextets.map char ++ List.replicate padding pad) = sextets := by
  induction sextets with
  | nil =>
      cases padding with
      | zero => rfl
      | succ padding => exact values_cons_pad _
  | cons value rest ih =>
      obtain ⟨hvalue, hrest⟩ := List.forall_mem_cons.1 hsextets
      obtain ⟨hround, hchar⟩ := valueOf_char hvalue
      rw [List.map_cons, List.cons_append, values_cons_of_ne hchar, hround,
        ih hrest]
      rfl

/-- An encoding is made of characters that the decoding looks at. -/
theorem filter_encode (bytes : List UInt8) :
    (encode bytes).filter meaningful = encode bytes := by
  rw [List.filter_eq_self, encode_eq]
  intro character hmem
  rcases List.mem_append.1 hmem with hchar | hpad
  · obtain ⟨value, hvalue, rfl⟩ := List.mem_map.1 hchar
    rw [meaningful, (valueOf_char (sextet_lt hvalue)).1]
    rfl
  · rw [(List.mem_replicate.1 hpad).2]
    decide

/-- An encoding is decoded to its bytes, whatever else stands between its
characters. -/
theorem decode_of_filter {bytes text : List UInt8}
    (htext : text.filter meaningful = encode bytes) : decode text = bytes := by
  have hvalues : values text = sextets bytes := by
    rw [← values_filter, htext, encode_eq]
    exact values_map_char (fun _ hvalue => sextet_lt hvalue) _
  have hzeros : (zeroFill 6 (byteBits bytes).length).length < 6 := by
    rw [zeroFill, List.length_replicate]
    exact Nat.mod_lt _ (by decide)
  have hwhole : ∃ count,
      (byteBits bytes ++ zeroFill 6 (byteBits bytes).length).length =
        6 * count := by
    refine ⟨((byteBits bytes).length + 5) / 6, ?_⟩
    rw [List.length_append, zeroFill, List.length_replicate]
    omega
  obtain ⟨count, hcount⟩ := hwhole
  have hbytes : byteBits bytes =
      (bytes.map UInt8.toNat).flatMap (bits 8) := by
    rw [byteBits, List.flatMap_map]
  have hbound : ∀ value ∈ bytes.map UInt8.toNat, value < 2 ^ 8 := by
    intro value hvalue
    obtain ⟨byte, -, rfl⟩ := List.mem_map.1 hvalue
    exact byte.toNat_lt
  have hgroups : bitGroups 8
      (byteBits bytes ++ zeroFill 6 (byteBits bytes).length) =
      bytes.map UInt8.toNat := by
    have hsplit := bitGroups_flatMap_bits (Nat.succ_pos 7) hbound
      (hzeros.trans (by decide))
    rwa [← hbytes] at hsplit
  rw [decode, hvalues, sextets, flatMap_bits_bitGroups hcount (by decide),
    hgroups, List.map_map]
  simp [Function.comp_def]

end Base64

end VoiceServer

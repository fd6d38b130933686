/-
`Base64Utilities`: the two loops over a 32-bit accumulator that is never
cleared.  Only its low bits count, as many as `val_b` says, and those are the
bits read and not yet written.
-/
import VoiceServer.Base64
import VoiceServer.TextCodec
import VoiceServer.WebSocketSession

namespace VoiceServer

namespace Base64Utilities

/-- `b64_chars`, or `b64_table`. -/
def b64Table : List UInt8 :=
  ascii "ABCDEFGHIJKLMNOPQRSTUVWXYZabcdefghijklmnopqrstuvwxyz0123456789+/"

/-- `b64_index`. -/
def b64Index (char : UInt8) : Option Nat :=
  b64Table.idxOf? char

/-- The variables of `from_base64`. -/
structure Decoder where
  val : BitVec 32
  valB : Int
  result : List UInt8
deriving DecidableEq, Repr

/-- A round with a character of the alphabet. -/
def Decoder.push (decoder : Decoder) (index : Nat) : Decoder :=
  let val := (decoder.val <<< 6) + BitVec.ofNat 32 index
  let valB := decoder.valB + 6
  if 0 ≤ valB then
    ⟨val, valB - 8,
      decoder.result ++
        [UInt8.ofNat (val.sshiftRight valB.toNat &&& 0xFF#32).toNat]⟩
  else ⟨val, valB, decoder.result⟩

def fromBase64Loop : List UInt8 → Decoder → Decoder
  | [], decoder => decoder
  | c :: rest, decoder =>
      if c = 61 then decoder
      else
        match b64Index c with
        | none => fromBase64Loop rest decoder
        | some index => fromBase64Loop rest (decoder.push index)

def fromBase64 (input : List UInt8) : List UInt8 :=
  (fromBase64Loop input ⟨0, -8, []⟩).result

example : fromBase64 (ascii "aGV sb-G8=") = ascii "hello" := by
  decide +kernel

theorem b64Table_eq : b64Table = (List.range 64).map Base64.char := by
  decide +kernel

theorem b64Index_eq (char : UInt8) : b64Index char = Base64.valueOf char := by
  rw [b64Index, b64Table_eq]
  cases hvalue : Base64.valueOf char with
  | some value =>
      have hall : ∀ value < 64,
          ((List.range 64).map Base64.char).idxOf? (Base64.char value) =
            some value := by
        decide +kernel
      rw [← (Base64.valueOf_spec hvalue).2]
      exact hall value (Base64.valueOf_spec hvalue).1
  | none =>
      rw [List.idxOf?_eq_none_iff]
      intro hmem
      obtain ⟨value, hrange, rfl⟩ := List.mem_map.1 hmem
      rw [(Base64.valueOf_char (List.mem_range.1 hrange)).1] at hvalue
      exact absurd hvalue (by simp)

/-- Shifting a value in. -/
theorem bits_shiftLeft_add {count width next : Nat} (val : BitVec 32)
    (hcount : count + width ≤ 32) (hnext : next < 2 ^ width) :
    bits (count + width) ((val <<< width) + BitVec.ofNat 32 next).toNat =
      bits count val.toNat ++ bits width next := by
  have hvalue : ((val <<< width) + BitVec.ofNat 32 next).toNat =
      (val.toNat * 2 ^ width + next) % 2 ^ 32 := by
    simp [BitVec.toNat_add, BitVec.toNat_shiftLeft, Nat.shiftLeft_eq]
  rw [hvalue, bits_mod hcount, bits_push _ _ hnext]

/-- The byte above `shift` low bits; the sign does not reach it. -/
theorem toNat_sshiftRight_and (val : BitVec 32) {shift : Nat}
    (hshift : shift ≤ 24) :
    (val.sshiftRight shift &&& 0xFF#32).toNat = val.toNat / 2 ^ shift % 2 ^ 8 := by
  have hsame : val.sshiftRight shift &&& 0xFF#32 = val >>> shift &&& 0xFF#32 := by
    apply BitVec.eq_of_getLsbD_eq
    intro i hi
    rw [BitVec.getLsbD_and, BitVec.getLsbD_and, BitVec.getLsbD_sshiftRight,
      BitVec.getLsbD_ushiftRight]
    by_cases hlow : i < 8
    · have hin : shift + i < 32 := by omega
      have hword : ¬ 32 ≤ i := by omega
      simp [hin, hword]
    · have hmask : (0xFF#32).getLsbD i = false := by
        rw [BitVec.getLsbD_ofNat]
        have hzero : Nat.testBit 255 i = false :=
          Nat.testBit_lt_two_pow
            ((show 255 < 2 ^ 8 by decide).trans_le
              (Nat.pow_le_pow_right Nat.two_pos (by omega)))
        rw [hzero, Bool.and_false]
      rw [hmask, Bool.and_false, Bool.and_false]
  rw [hsame, BitVec.toNat_and, BitVec.toNat_ushiftRight,
    Nat.shiftRight_eq_div_pow]
  exact Nat.and_two_pow_sub_one_eq_mod _ 8

/-- Fewer than eight bits pending, the loop gives the whole bytes of these and
of the values to come. -/
theorem fromBase64Loop_result (input : List UInt8) (val : BitVec 32)
    {count : Nat} (hcount : count < 8) (result : List UInt8) :
    (fromBase64Loop input ⟨val, (count : Int) - 8, result⟩).result =
      result ++ (bitGroups 8 (bits count val.toNat ++
        (Base64.values input).flatMap (bits 6))).map UInt8.ofNat := by
  induction input generalizing val count result with
  | nil =>
      have hshort : (bits count val.toNat).length < 8 := by simpa using hcount
      simp [fromBase64Loop, Base64.values, bitGroups_of_short hshort]
  | cons c rest ih =>
      rw [fromBase64Loop]
      by_cases hpad : c = 61
      · have hshort : (bits count val.toNat).length < 8 := by simpa using hcount
        have hnone : Base64.values (c :: rest) = [] := by
          rw [hpad]
          exact Base64.values_cons_pad rest
        rw [if_pos hpad, hnone]
        simp [bitGroups_of_short hshort]
      · rw [if_neg hpad, b64Index_eq, Base64.values_cons_of_ne hpad]
        cases hvalue : Base64.valueOf c with
        | none => exact ih val hcount result
        | some index =>
            have hindex : index < 2 ^ 6 :=
              (Base64.valueOf_spec hvalue).1
            have hpush := @bits_shiftLeft_add count 6 index val (by omega) hindex
            simp only [Decoder.push, Option.toList_some, List.singleton_append,
              List.flatMap_cons]
            rw [← List.append_assoc, ← hpush]
            by_cases hwhole : 0 ≤ (count : Int) - 8 + 6
            · -- A whole byte is pending: the high eight of the bits.
              obtain ⟨left, rfl⟩ : ∃ left, count = left + 2 :=
                ⟨count - 2, by omega⟩
              have hshift : (((left + 2 : Nat) : Int) - 8 + 6).toNat = left := by
                omega
              have hleft : ((left + 2 : Nat) : Int) - 8 + 6 - 8 =
                  (left : Int) - 8 := by omega
              have hwidth : left + 2 + 6 = 8 + left := by omega
              rw [if_pos hwhole, hshift, hleft, ih _ (by omega), hwidth,
                bits_add, toNat_sshiftRight_and _ (by omega),
                List.append_assoc, List.append_assoc,
                bitGroups_append (by decide) (length_bits 8 _), ofBits_bits]
              rfl
            · have hmore : (count : Int) - 8 + 6 = ((count + 6 : Nat) : Int) - 8 := by
                omega
              rw [if_neg hwhole, hmore, ih _ (by omega)]

/-- The decoder skips and stops where the library's does, whatever the text. -/
theorem fromBase64_eq (input : List UInt8) :
    fromBase64 input = Base64.decode input :=
  fromBase64Loop_result input 0 (show 0 < 8 by decide) []

/-- The value of a hexadecimal digit. -/
def hexValue (digit : UInt8) : Option Nat :=
  if 48 ≤ digit ∧ digit ≤ 57 then some (digit.toNat - 48)
  else if 97 ≤ digit ∧ digit ≤ 102 then some (digit.toNat - 87)
  else if 65 ≤ digit ∧ digit ≤ 70 then some (digit.toNat - 55)
  else none

/-- The digits in front of a text, from a value read so far. -/
def readHex : Option Nat → List UInt8 → Option Nat
  | value, [] => value
  | value, digit :: rest =>
      match hexValue digit with
      | none => value
      | some low => readHex (some (16 * value.getD 0 + low)) rest

/-- `std::stoi(text, nullptr, 16)` for a text of at most two characters: blanks,
a sign, digits.  Without a digit it throws. -/
def stoi (text : List UInt8) : Option Int :=
  match text.dropWhile fun char => char = 32 ∨ 9 ≤ char ∧ char ≤ 13 with
  | 45 :: digits => (readHex none digits).map fun value => -(value : Int)
  | 43 :: digits => (readHex none digits).map fun value => (value : Int)
  | digits => (readHex none digits).map fun value => (value : Int)

/-- The variables of `to_base_64`. -/
structure Encoder where
  val : BitVec 32
  valB : Int
  result : List UInt8
deriving DecidableEq, Repr

def b64Char (value : BitVec 32) : UInt8 :=
  b64Table.getD (value &&& 0x3F#32).toNat 0

/-- `while (val_b >= 0)`. -/
def Encoder.drain (encoder : Encoder) : Encoder :=
  if 0 ≤ encoder.valB then
    Encoder.drain { encoder with
      valB := encoder.valB - 6
      result := encoder.result ++
        [b64Char (encoder.val >>> encoder.valB.toNat)] }
  else encoder
termination_by (encoder.valB + 6).toNat
decreasing_by
  omega

def Encoder.push (encoder : Encoder) (c : UInt8) : Encoder :=
  Encoder.drain { encoder with
    val := (encoder.val <<< 8) + BitVec.ofNat 32 c.toNat
    valB := encoder.valB + 8 }

/-- The loop at the index `i`, an `int`, with the text from there on.  No value
if `std::stoi` throws or `i` overflows. -/
def toBase64Loop : List UInt8 → Nat → Encoder → Option Encoder
  | [], _, encoder => some encoder
  | [digit], i, encoder =>
      (stoi [digit]).bind fun value =>
        if i + 2 < 2 ^ 31 then
          some (encoder.push (UInt8.ofNat (value % 256).toNat))
        else none
  | first :: second :: rest, i, encoder =>
      (stoi [first, second]).bind fun value =>
        if i + 2 < 2 ^ 31 then
          toBase64Loop rest (i + 2)
            (encoder.push (UInt8.ofNat (value % 256).toNat))
        else none

/-- What follows the loop: the bits left over, and the padding. -/
def Encoder.finish (encoder : Encoder) : List UInt8 :=
  let result :=
    if -6 < encoder.valB then
      encoder.result ++
        [b64Char ((encoder.val <<< 8) >>> (encoder.valB + 8).toNat)]
    else encoder.result
  result ++ List.replicate ((4 - result.length % 4) % 4) 61

def toBase64 (input : List UInt8) : Option (List UInt8) :=
  (toBase64Loop input 0 ⟨0, -6, []⟩).map Encoder.finish

/-- The text has two hexadecimal digits for each of the bytes. -/
def Spells : List UInt8 → List UInt8 → Prop
  | [], [] => True
  | high :: low :: digits, byte :: bytes =>
      hexValue high = some (byte.toNat / 16) ∧
        hexValue low = some (byte.toNat % 16) ∧ Spells digits bytes
  | _, _ => False

instance decidableSpells : ∀ digits bytes, Decidable (Spells digits bytes)
  | [], [] => inferInstanceAs (Decidable True)
  | [], _ :: _ => inferInstanceAs (Decidable False)
  | [_], _ => inferInstanceAs (Decidable False)
  | _ :: _ :: _, [] => inferInstanceAs (Decidable False)
  | high :: low :: digits, byte :: bytes =>
      have := decidableSpells digits bytes
      inferInstanceAs (Decidable (hexValue high = some (byte.toNat / 16) ∧
        hexValue low = some (byte.toNat % 16) ∧ Spells digits bytes))

theorem hexValue_nonblank {digit : UInt8} {value : Nat}
    (hvalue : hexValue digit = some value) :
    ¬ (digit = 32 ∨ 9 ≤ digit ∧ digit ≤ 13) ∧ digit ≠ 45 ∧ digit ≠ 43 := by
  have hall : ∀ digit : UInt8, (hexValue digit).isSome = true →
      ¬ (digit = 32 ∨ 9 ≤ digit ∧ digit ≤ 13) ∧ digit ≠ 45 ∧ digit ≠ 43 :=
    NetworkMessages.forall_byte _ (by decide +kernel)
  exact hall digit (Option.isSome_iff_exists.2 ⟨value, hvalue⟩)

/-- The two digits of a byte. -/
theorem stoi_of_spells {high low byte : UInt8}
    (hhigh : hexValue high = some (byte.toNat / 16))
    (hlow : hexValue low = some (byte.toNat % 16)) :
    stoi [high, low] = some (byte.toNat : Int) := by
  obtain ⟨hblank, hminus, hplus⟩ := hexValue_nonblank hhigh
  have hdrop : [high, low].dropWhile
      (fun char => char = 32 ∨ 9 ≤ char ∧ char ≤ 13) = [high, low] :=
    List.dropWhile_cons_of_neg (by simpa using hblank)
  have hread : readHex none [high, low] = some byte.toNat := by
    simp only [readHex, hhigh, hlow, Option.getD_none, Option.getD_some]
    congr 1
    omega
  rw [stoi, hdrop]
  split
  · rename_i heq
    exact absurd (List.cons.inj heq).1 hminus
  · rename_i heq
    exact absurd (List.cons.inj heq).1 hplus
  · rw [hread]
    rfl

/-- A round of the loop at two digits. -/
theorem toBase64Loop_spells {high low byte : UInt8}
    (hhigh : hexValue high = some (byte.toNat / 16))
    (hlow : hexValue low = some (byte.toNat % 16)) (rest : List UInt8) (i : Nat)
    (encoder : Encoder) :
    toBase64Loop (high :: low :: rest) i encoder =
      if i + 2 < 2 ^ 31 then toBase64Loop rest (i + 2) (encoder.push byte)
      else none := by
  have hbyte : UInt8.ofNat ((byte.toNat : Int) % 256).toNat = byte := by
    have hlt : ((byte.toNat : Int) % 256).toNat = byte.toNat := by
      have hsize := byte.toNat_lt
      omega
    rw [hlt, UInt8.ofNat_toNat]
  rw [toBase64Loop, stoi_of_spells hhigh hlow, Option.bind_some, hbyte]

theorem b64Char_eq (value : BitVec 32) :
    b64Char value = Base64.char (value.toNat % 2 ^ 6) := by
  have hmask : (value &&& 0x3F#32).toNat = value.toNat % 2 ^ 6 := by
    rw [BitVec.toNat_and]
    exact Nat.and_two_pow_sub_one_eq_mod _ 6
  have hlt : value.toNat % 2 ^ 6 < 64 := Nat.mod_lt _ (by decide)
  rw [b64Char, hmask, b64Table_eq, List.getD_eq_getElem?_getD,
    List.getElem?_map, List.getElem?_range hlt]
  rfl

/-- The inner loop writes the groups of six that are pending and leaves the
bits behind them. -/
theorem drain_spec (val : BitVec 32) (count : Nat) (result : List UInt8) :
    ∃ emitted, Encoder.drain ⟨val, (count : Int) - 6, result⟩ =
        ⟨val, ((count % 6 : Nat) : Int) - 6, result ++ emitted⟩ ∧
      ∀ rest, (bitGroups 6 (bits count val.toNat ++ rest)).map Base64.char =
        emitted ++ (bitGroups 6 (bits (count % 6) val.toNat ++ rest)).map
          Base64.char := by
  induction count using Nat.strongRecOn generalizing result with
  | _ count ih =>
      rw [Encoder.drain]
      by_cases hmore : 0 ≤ (count : Int) - 6
      · obtain ⟨left, rfl⟩ : ∃ left, count = left + 6 := ⟨count - 6, by omega⟩
        have hvalB : ((left + 6 : Nat) : Int) - 6 = (left : Int) := by omega
        obtain ⟨emitted, hdrain, hgroups⟩ := ih left (by omega)
          (result ++ [b64Char (val >>> left)])
        refine ⟨b64Char (val >>> left) :: emitted, ?_, ?_⟩
        · rw [if_pos hmore]
          simp only [hvalB, Int.toNat_natCast, hdrain, Nat.add_mod_right,
            List.append_assoc, List.singleton_append]
        · intro rest
          rw [Nat.add_comm left 6, bits_add, List.append_assoc,
            bitGroups_append (by decide) (length_bits 6 _), ofBits_bits,
            List.map_cons, hgroups, b64Char_eq, BitVec.toNat_ushiftRight,
            Nat.shiftRight_eq_div_pow, Nat.add_mod_left, List.cons_append]
      · have hsmall : count % 6 = count := Nat.mod_eq_of_lt (by omega)
        rw [if_neg hmore, hsmall]
        exact ⟨[], by rw [List.append_nil], fun _ => rfl⟩

/-- Text with its padding. -/
def padded (text : List UInt8) : List UInt8 :=
  text ++ List.replicate ((4 - text.length % 4) % 4) 61

/-- Low bits moved to the top of six, by way of 32. -/
theorem low_bits_up (value : Nat) {left : Nat} (hleft : left < 5) :
    value % 2 ^ (left + 1) * 2 ^ (5 - left) =
      value * 2 ^ 8 % 2 ^ 32 / 2 ^ (left + 3) % 2 ^ 6 := by
  match left, hleft with
  | 0, _ | 1, _ | 2, _ | 3, _ | 4, _ =>
      simp only [Nat.reduceAdd, Nat.reduceSub, Nat.reducePow]
      omega

/-- The character after the loop holds the bits left over, and zeros. -/
theorem finish_spec (val : BitVec 32) {count : Nat} (hcount : count < 6)
    (result : List UInt8) :
    Encoder.finish ⟨val, (count : Int) - 6, result⟩ =
      padded (result ++ (bitGroups 6 (bits count val.toNat ++
        zeroFill 6 count)).map Base64.char) := by
  cases count with
  | zero => simp [Encoder.finish, padded, bits, zeroFill, bitGroups]
  | succ left =>
      have hsome : -6 < ((left + 1 : Nat) : Int) - 6 := by omega
      have hshift : (((left + 1 : Nat) : Int) - 6 + 8).toNat = left + 3 := by
        omega
      have hzeros : zeroFill 6 (left + 1) = List.replicate (5 - left) false := by
        rw [zeroFill]
        congr 1
        omega
      have hlength : (bits (left + 1) val.toNat ++
          zeroFill 6 (left + 1)).length = 6 := by
        rw [hzeros, List.length_append, length_bits, List.length_replicate]
        omega
      have hgroup : ofBits (bits (left + 1) val.toNat ++
          zeroFill 6 (left + 1)) =
          ((val <<< 8) >>> (left + 3)).toNat % 2 ^ 6 := by
        rw [hzeros, ofBits_append, ofBits_bits, ofBits_zeros,
          List.length_replicate, Nat.add_zero, BitVec.toNat_ushiftRight,
          BitVec.toNat_shiftLeft, Nat.shiftRight_eq_div_pow,
          Nat.shiftLeft_eq]
        exact low_bits_up val.toNat (by omega)
      have hone := bitGroups_append (show 0 < 6 by decide) hlength []
      rw [List.append_nil] at hone
      simp only [Encoder.finish, if_pos hsome, hshift, b64Char_eq]
      rw [hone, hgroup, padded, bitGroups_of_short (by decide)]
      rfl

/-- Fewer than six bits pending, the loop and what follows it write the groups
of six of these and of the bytes to come. -/
theorem toBase64Loop_finish {digits bytes : List UInt8}
    (hspells : Spells digits bytes) {i : Nat}
    (hindex : i + 2 * bytes.length < 2 ^ 31) (val : BitVec 32) {count : Nat}
    (hcount : count < 6) (result : List UInt8) :
    (toBase64Loop digits i ⟨val, (count : Int) - 6, result⟩).map
        Encoder.finish =
      some (padded (result ++ (bitGroups 6 (bits count val.toNat ++
        (Base64.byteBits bytes ++
          zeroFill 6 (count + 8 * bytes.length)))).map Base64.char)) := by
  induction bytes generalizing digits i val count result with
  | nil =>
      match digits, hspells with
      | [], _ =>
          rw [toBase64Loop, Option.map_some, finish_spec val hcount]
          rfl
      | [_], hspells => exact False.elim hspells
      | _ :: _ :: _, hspells => exact False.elim hspells
  | cons byte rest ih =>
      match digits, hspells with
      | high :: low :: digits, hspells =>
          obtain ⟨hhigh, hlow, hrest⟩ := hspells
          rw [List.length_cons] at hindex
          have hpush := @bits_shiftLeft_add count 8 byte.toNat val (by omega)
            byte.toNat_lt
          obtain ⟨emitted, hdrain, hgroups⟩ := drain_spec
            ((val <<< 8) + BitVec.ofNat 32 byte.toNat) (count + 8) result
          have hvalB : (count : Int) - 6 + 8 = ((count + 8 : Nat) : Int) - 6 := by
            omega
          have hzeros : zeroFill 6 ((count + 8) % 6 + 8 * rest.length) =
              zeroFill 6 (count + 8 * (rest.length + 1)) := by
            rw [zeroFill, zeroFill]
            congr 1
            omega
          have hbytes : Base64.byteBits (byte :: rest) =
              bits 8 byte.toNat ++ Base64.byteBits rest := rfl
          rw [toBase64Loop_spells hhigh hlow, if_pos (by omega), Encoder.push,
            hvalB, hdrain, ih hrest (by omega) _ (Nat.mod_lt _ (by decide)),
            hzeros, hbytes, List.append_assoc, List.append_assoc, ← hgroups,
            hpush, List.append_assoc, List.length_cons]

/-- The index runs out of the range of an `int` on a longer text. -/
theorem toBase64Loop_overflow {digits bytes : List UInt8}
    (hspells : Spells digits bytes) {i : Nat} (hsome : bytes ≠ [])
    (hindex : 2 ^ 31 ≤ i + 2 * bytes.length) (encoder : Encoder) :
    toBase64Loop digits i encoder = none := by
  induction bytes generalizing digits i encoder with
  | nil => exact absurd rfl hsome
  | cons byte rest ih =>
      match digits, hspells with
      | high :: low :: digits, hspells =>
          obtain ⟨hhigh, hlow, hrest⟩ := hspells
          rw [List.length_cons] at hindex
          rw [toBase64Loop_spells hhigh hlow]
          by_cases hnext : i + 2 < 2 ^ 31
          · have hmore : rest ≠ [] := by
              rintro rfl
              rw [List.length_nil] at hindex
              omega
            rw [if_pos hnext]
            exact ih hrest hmore (by omega) _
          · rw [if_neg hnext]

/-- The encoder computes the encoding of RFC 4648. -/
theorem toBase64_eq {digits bytes : List UInt8}
    (hspells : Spells digits bytes) (hshort : bytes.length < 2 ^ 30) :
    toBase64 digits = some (Base64.encode bytes) := by
  have hindex : 0 + 2 * bytes.length < 2 ^ 31 := by omega
  have hloop := toBase64Loop_finish hspells hindex 0 (show 0 < 6 by decide) []
  rw [Nat.zero_add] at hloop
  rw [Base64.encode_eq, Base64.sextets, Base64.length_byteBits]
  refine hloop.trans ?_
  simp only [List.nil_append, bits, padded, List.length_map]
  rfl

/-- `magic_string`. -/
def magicString : List UInt8 :=
  ascii "258EAFA5-E914-47DA-95CA-C5AB0DC85B11"

/-- `generate_websocket_accept`; `sha1` is what `SHA1::final` returns after an
`update` with the text. -/
def generateWebsocketAccept (sha1 : List UInt8 → List UInt8)
    (key : List UInt8) : Option (List UInt8) :=
  toBase64 (sha1 (key ++ magicString))

/-- Hexadecimal digits of bytes become the encoding of the bytes, and so the
accept value is that of the digest. -/
theorem toBase64_rfc {bytes digits : List UInt8}
    (hshort : bytes.length < 2 ^ 30) (hspells : Spells digits bytes)
    {sha1 digest : List UInt8 → List UInt8}
    (hdigest : ∀ text, (digest text).length = 20)
    (hsha1 : ∀ text, Spells (sha1 text) (digest text)) (key : List UInt8) :
    toBase64 digits = some (Base64.encode bytes) ∧
      generateWebsocketAccept sha1 key =
        some (Base64.encode (digest (key ++ magicString))) ∧
      (Base64.encode (digest (key ++ magicString))).length = 28 := by
  have hlength := hdigest (key ++ magicString)
  refine ⟨toBase64_eq hspells hshort, ?_, ?_⟩
  · exact toBase64_eq (hsha1 _) (by omega)
  · rw [Base64.length_encode, hlength]

/-- The key of the sample handshake, its digest, and the digits of this. -/
def sampleKey : List UInt8 := ascii "dGhlIHNhbXBsZSBub25jZQ=="

def sampleDigest : List UInt8 :=
  [0xB3, 0x7A, 0x4F, 0x2C, 0xC0, 0x62, 0x4F, 0x16, 0x90, 0xF6, 0x46, 0x06,
    0xCF, 0x38, 0x59, 0x45, 0xB2, 0xBE, 0xC4, 0xEA]

def sampleDigits : List UInt8 :=
  ascii "b37a4f2cc0624f1690f64606cf385945b2bec4ea"

example : Base64.encode sampleDigest = ascii "s3pPLMBiTxaQ9kYGzzhZRbK+xOo=" := by
  decide +kernel

theorem spells_sample : Spells sampleDigits sampleDigest := by
  decide +kernel

theorem toBase64_rfc_sample :
    toBase64 sampleDigits = some (Base64.encode sampleDigest) ∧
      generateWebsocketAccept (fun _ => sampleDigits) sampleKey =
        some (Base64.encode sampleDigest) ∧
      (Base64.encode sampleDigest).length = 28 :=
  @toBase64_rfc sampleDigest sampleDigits (by decide) spells_sample
    (fun _ => sampleDigits) (fun _ => sampleDigest) (fun _ => rfl)
    (fun _ => spells_sample) sampleKey

/-- Decoding gives the whole bytes of the bits that the characters before the
first padding stand for; for bytes whose digits the encoder can index it undoes
the encoder, other characters in between or not. -/
theorem fromBase64_toBase64 {bytes digits : List UInt8}
    (hshort : bytes.length < 2 ^ 30) (hspells : Spells digits bytes) :
    (∀ input, fromBase64 input =
        (bitGroups 8 (((input.takeWhile (· ≠ Base64.pad)).filterMap
          Base64.valueOf).flatMap (bits 6))).map UInt8.ofNat ∧
      (fromBase64 input).length =
        6 * ((input.takeWhile (· ≠ Base64.pad)).filterMap
          Base64.valueOf).length / 8) ∧
      ∃ encoded, toBase64 digits = some encoded ∧ fromBase64 encoded = bytes ∧
        ∀ text, text.filter Base64.meaningful = encoded →
          fromBase64 text = bytes := by
  constructor
  · intro input
    rw [fromBase64_eq]
    exact ⟨rfl, Base64.length_decode input⟩
  · refine ⟨Base64.encode bytes, toBase64_eq hspells hshort, ?_, ?_⟩
    · rw [fromBase64_eq]
      exact Base64.decode_of_filter (Base64.filter_encode bytes)
    · intro text htext
      rw [fromBase64_eq]
      exact Base64.decode_of_filter htext

theorem fromBase64_toBase64_sample :
    (∀ input, fromBase64 input =
        (bitGroups 8 (((input.takeWhile (· ≠ Base64.pad)).filterMap
          Base64.valueOf).flatMap (bits 6))).map UInt8.ofNat ∧
      (fromBase64 input).length =
        6 * ((input.takeWhile (· ≠ Base64.pad)).filterMap
          Base64.valueOf).length / 8) ∧
      ∃ encoded, toBase64 sampleDigits = some encoded ∧
        fromBase64 encoded = sampleDigest ∧
        ∀ text, text.filter Base64.meaningful = encoded →
          fromBase64 text = sampleDigest :=
  fromBase64_toBase64 (by decide) spells_sample

/-- Digits of zero bytes. -/
theorem spells_zeros (count : Nat) :
    Spells (List.replicate (2 * count) 48) (List.replicate count 0) := by
  induction count with
  | zero => exact True.intro
  | succ count ih => exact ⟨rfl, rfl, ih⟩

/-- Two to the thirty bytes are too many for the index. -/
theorem toBase64_range :
    ¬ ∀ bytes digits, Spells digits bytes → ∃ encoded,
      toBase64 digits = some encoded ∧ fromBase64 encoded = bytes := by
  intro hclaim
  have hspells := spells_zeros (2 ^ 30)
  obtain ⟨encoded, hencoded, -⟩ := hclaim _ _ hspells
  have hsome : List.replicate (2 ^ 30) (0 : UInt8) ≠ [] := by
    intro hnone
    have hlength := congrArg List.length hnone
    rw [List.length_replicate] at hlength
    simp at hlength
  have hindex : 2 ^ 31 ≤ 0 + 2 * (List.replicate (2 ^ 30) (0 : UInt8)).length := by
    rw [List.length_replicate]
    decide
  rw [toBase64, toBase64Loop_overflow hspells hsome hindex] at hencoded
  exact absurd hencoded (by simp)

end Base64Utilities

end VoiceServer

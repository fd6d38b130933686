/-
The WebSocket base framing of RFC 6455, section 5.2: what one frame is on the
wire, the encoding a sender must choose (one unfragmented frame, shortest
length form), and a strict parser for a server-to-client stream.
-/
import VoiceServer.BigEndian

namespace VoiceServer

namespace Rfc6455

/-- XOR with the repeating four-byte key.  The empty key leaves a payload as it
is, which is the unmasked case. -/
def mask (key payload : List UInt8) : List UInt8 :=
  payload.mapIdx fun i byte => byte ^^^ key.getD (i % 4) 0

@[simp] theorem length_mask (key payload : List UInt8) :
    (mask key payload).length = payload.length := by
  simp [mask]

/-- Masking is its own inverse, position by position. -/
@[simp] theorem mask_mask (key payload : List UInt8) :
    mask key (mask key payload) = payload := by
  apply List.ext_getElem?
  intro i
  simp only [mask, List.getElem?_mapIdx, Option.map_map]
  have hundo : ((fun byte => byte ^^^ key.getD (i % 4) 0) ∘
      fun byte : UInt8 => byte ^^^ key.getD (i % 4) 0) = id := by
    funext byte
    change byte ^^^ _ ^^^ _ = byte
    rw [UInt8.xor_assoc, UInt8.xor_self, UInt8.xor_zero]
  rw [hundo, Option.map_id, id]

@[simp] theorem mask_nil_key (payload : List UInt8) :
    mask [] payload = payload := by
  apply List.ext_getElem?
  intro i
  simp only [mask, List.getElem?_mapIdx, List.getD_nil, UInt8.xor_zero,
    Option.map_id']

/-- Four bytes, as a masking key has. -/
structure MaskKey where
  bytes : List UInt8
  length_eq : bytes.length = 4
deriving DecidableEq, Repr

/-- The low nibble of the first header byte. -/
def opcodeOf (first : UInt8) : Fin 16 :=
  ⟨(first &&& 0x0F).toNat, by
    have hle : (first &&& 0x0F).toNat ≤ 0x0F := by
      rw [UInt8.toNat_and]
      exact Nat.and_le_right
    exact Nat.lt_succ_of_le hle⟩

def isMasked (second : UInt8) : Bool :=
  second &&& 0x80 != 0

def lengthCodeOf (second : UInt8) : Nat :=
  (second &&& 0x7F).toNat

theorem lengthCodeOf_le (second : UInt8) : lengthCodeOf second ≤ 127 := by
  rw [lengthCodeOf, UInt8.toNat_and]
  exact Nat.and_le_right

/-- How many bytes of extended length follow the two header bytes. -/
def extLength (second : UInt8) : Nat :=
  if lengthCodeOf second = 126 then 2
  else if lengthCodeOf second = 127 then 8
  else 0

/-- The payload length a header declares. -/
def declaredLength (second : UInt8) (ext : List UInt8) : Nat :=
  if lengthCodeOf second < 126 then lengthCodeOf second else beNat ext

/-- One whole frame.  The fields are the parts in wire order, and the lengths
the header announces are the lengths the parts have. -/
@[ext]
structure WireFrame where
  first : UInt8
  second : UInt8
  extended : List UInt8
  key : List UInt8
  body : List UInt8
  extended_length : extended.length = extLength second
  key_length : key.length = if isMasked second then 4 else 0
  body_length : body.length = declaredLength second extended

namespace WireFrame

def bytes (frame : WireFrame) : List UInt8 :=
  frame.first :: frame.second :: (frame.extended ++ (frame.key ++ frame.body))

def opcode (frame : WireFrame) : Fin 16 :=
  opcodeOf frame.first

def payload (frame : WireFrame) : List UInt8 :=
  mask frame.key frame.body

@[simp] theorem length_bytes (frame : WireFrame) :
    frame.bytes.length = 2 + frame.extended.length + frame.key.length +
      frame.body.length := by
  simp only [bytes, List.length_cons, List.length_append]
  omega

@[simp] theorem length_payload (frame : WireFrame) :
    frame.payload.length = frame.body.length :=
  length_mask ..

/-- A header in front of some bytes is the header of any frame there. -/
theorem header_of_isPrefix {frame : WireFrame} {first second : UInt8}
    {ext tail : List UInt8} (hext : ext.length = extLength second)
    (hlead : frame.bytes <+: first :: second :: (ext ++ tail)) :
    frame.first = first ∧ frame.second = second ∧ frame.extended = ext ∧
      frame.key ++ frame.body <+: tail := by
  simp only [bytes, List.cons_prefix_cons] at hlead
  obtain ⟨rfl, rfl, rest, hrest⟩ := hlead
  rw [List.append_assoc] at hrest
  obtain ⟨hsame, htail⟩ :=
    List.append_inj hrest (frame.extended_length.trans hext.symm)
  exact ⟨rfl, rfl, hsame, rest, htail⟩

/-- The header fixes the lengths of the parts, so no frame is a proper prefix
of another. -/
theorem eq_of_isPrefix {frame other : WireFrame} {bytes : List UInt8}
    (hframe : frame.bytes <+: bytes) (hother : other.bytes <+: bytes) :
    frame = other := by
  obtain ⟨rest, rfl⟩ := hframe
  have hbytes : frame.bytes ++ rest = frame.first :: frame.second ::
      (frame.extended ++ (frame.key ++ (frame.body ++ rest))) := by
    simp [bytes]
  rw [hbytes] at hother
  obtain ⟨hfirst, hsecond, hext, last, hlast⟩ :=
    header_of_isPrefix frame.extended_length hother
  have hkeyLength : other.key.length = frame.key.length := by
    rw [other.key_length, frame.key_length, hsecond]
  have hbodyLength : other.body.length = frame.body.length := by
    rw [other.body_length, frame.body_length, hsecond, hext]
  rw [List.append_assoc] at hlast
  obtain ⟨hkey, hlast⟩ := List.append_inj hlast hkeyLength
  obtain ⟨hbody, -⟩ := List.append_inj hlast hbodyLength
  exact WireFrame.ext hfirst.symm hsecond.symm hext.symm hkey.symm hbody.symm

end WireFrame

/-- The seven-bit length code of the shortest form. -/
def lengthCode (n : Nat) : Nat :=
  if n ≤ 125 then n else if n ≤ 65535 then 126 else 127

/-- The extended length of the shortest form. -/
def lengthExt (n : Nat) : List UInt8 :=
  if n ≤ 125 then [] else if n ≤ 65535 then beBytes 2 n else beBytes 8 n

def firstByte (opcode : Fin 16) : UInt8 :=
  0x80 ||| UInt8.ofNat opcode

def secondByte (masked : Bool) (n : Nat) : UInt8 :=
  (if masked then 0x80 else 0) ||| UInt8.ofNat (lengthCode n)

def keyBytes : Option MaskKey → List UInt8
  | none => []
  | some key => key.bytes

/-- One final frame in the shortest length form, masked if there is a key. -/
def encode (opcode : Fin 16) (key : Option MaskKey) (payload : List UInt8) :
    List UInt8 :=
  firstByte opcode :: secondByte key.isSome payload.length ::
    (lengthExt payload.length ++ (keyBytes key ++ mask (keyBytes key) payload))

@[simp] theorem opcodeOf_firstByte : ∀ opcode : Fin 16,
    opcodeOf (firstByte opcode) = opcode := by
  decide

theorem firstByte_flags : ∀ opcode : Fin 16,
    firstByte opcode &&& 0xF0 = 0x80 := by
  decide

theorem lengthCode_lt (n : Nat) : lengthCode n < 128 := by
  unfold lengthCode
  split
  · omega
  · split <;> decide

private theorem second_byte_fields : ∀ (masked : Bool) (code : Fin 128),
    isMasked ((if masked then 0x80 else 0) ||| UInt8.ofNat code) = masked ∧
      lengthCodeOf ((if masked then 0x80 else 0) ||| UInt8.ofNat code) =
        code := by
  decide

@[simp] theorem isMasked_secondByte (masked : Bool) (n : Nat) :
    isMasked (secondByte masked n) = masked :=
  (second_byte_fields masked ⟨lengthCode n, lengthCode_lt n⟩).1

@[simp] theorem lengthCodeOf_secondByte (masked : Bool) (n : Nat) :
    lengthCodeOf (secondByte masked n) = lengthCode n :=
  (second_byte_fields masked ⟨lengthCode n, lengthCode_lt n⟩).2

theorem length_lengthExt (masked : Bool) (n : Nat) :
    (lengthExt n).length = extLength (secondByte masked n) := by
  simp only [extLength, lengthCodeOf_secondByte, lengthCode, lengthExt]
  split
  · rw [if_neg (by omega), if_neg (by omega)]
    rfl
  · split <;> simp

theorem declaredLength_encode (masked : Bool) {n : Nat} (hn : n < 2 ^ 64) :
    declaredLength (secondByte masked n) (lengthExt n) = n := by
  simp only [declaredLength, lengthCodeOf_secondByte, lengthCode, lengthExt]
  split
  · rw [if_pos (by omega)]
  · split
    · exact beNat_beBytes_of_lt (by norm_num; omega)
    · exact beNat_beBytes_of_lt (by norm_num; omega)

/-- The encoding is one whole frame with the opcode and payload encoded. -/
theorem exists_wireFrame_encode (opcode : Fin 16) (key : Option MaskKey)
    {payload : List UInt8} (hlength : payload.length < 2 ^ 64) :
    ∃ frame : WireFrame, frame.bytes = encode opcode key payload ∧
      frame.opcode = opcode ∧ frame.payload = payload := by
  refine ⟨{
    first := firstByte opcode
    second := secondByte key.isSome payload.length
    extended := lengthExt payload.length
    key := keyBytes key
    body := mask (keyBytes key) payload
    extended_length := length_lengthExt ..
    key_length := ?_
    body_length := ?_ }, rfl, opcodeOf_firstByte opcode, mask_mask ..⟩
  · cases key with
    | none => simp [keyBytes]
    | some key => simpa [keyBytes] using key.length_eq
  · rw [length_mask, declaredLength_encode _ hlength]

/-- Split off a length field, accepting the shortest form only and a 64-bit
length only with its top bit clear. -/
def parseLength (code : Nat) (bytes : List UInt8) :
    Option (Nat × List UInt8) :=
  if code ≤ 125 then some (code, bytes)
  else if code = 126 then
    if 2 ≤ bytes.length ∧ 125 < beNat (bytes.take 2) then
      some (beNat (bytes.take 2), bytes.drop 2)
    else none
  else if 8 ≤ bytes.length ∧ 65535 < beNat (bytes.take 8) ∧
      beNat (bytes.take 8) < 2 ^ 63 then
    some (beNat (bytes.take 8), bytes.drop 8)
  else none

/-- Split off one frame: FIN set, reserved bits clear, unmasked. -/
def parseFrame : List UInt8 → Option ((Fin 16 × List UInt8) × List UInt8)
  | first :: second :: rest =>
      if first &&& 0xF0 = 0x80 ∧ isMasked second = false then
        (parseLength (lengthCodeOf second) rest).bind fun field =>
          if field.1 ≤ field.2.length then
            some ((opcodeOf first, field.2.take field.1),
              field.2.drop field.1)
          else none
      else none
  | _ => none

/-- Parse frames until no byte is left, at most `fuel` of them. -/
def parseFrames : Nat → List UInt8 → Option (List (Fin 16 × List UInt8))
  | _, [] => some []
  | 0, _ :: _ => none
  | fuel + 1, bytes =>
      (parseFrame bytes).bind fun parsed =>
        (parseFrames fuel parsed.2).map (parsed.1 :: ·)

/-- A frame takes at least two bytes, so the length of the stream is enough
fuel for every frame in it. -/
def parseStream (bytes : List UInt8) : Option (List (Fin 16 × List UInt8)) :=
  parseFrames bytes.length bytes

theorem parseLength_lengthExt {n : Nat} (hn : n < 2 ^ 63)
    (rest : List UInt8) :
    parseLength (lengthCode n) (lengthExt n ++ rest) = some (n, rest) := by
  unfold lengthCode lengthExt parseLength
  by_cases hshort : n ≤ 125
  · simp [hshort]
  by_cases hmedium : n ≤ 65535
  · have hvalue : beNat (beBytes 2 n) = n :=
      beNat_beBytes_of_lt (by norm_num; omega)
    simp only [hshort, hmedium, ↓reduceIte]
    rw [List.take_left' (length_beBytes 2 n),
      List.drop_left' (length_beBytes 2 n), hvalue, List.length_append,
      length_beBytes, if_neg (by decide), if_pos (by omega)]
  · have hvalue : beNat (beBytes 8 n) = n :=
      beNat_beBytes_of_lt (by norm_num; omega)
    simp only [hshort, hmedium, ↓reduceIte]
    rw [List.take_left' (length_beBytes 8 n),
      List.drop_left' (length_beBytes 8 n), hvalue, List.length_append,
      length_beBytes, if_neg (by decide), if_neg (by decide),
      if_pos (by omega)]

/-- A frame in front of other bytes is split off exactly. -/
theorem parseFrame_encode (opcode : Fin 16) {payload : List UInt8}
    (hlength : payload.length < 2 ^ 63) (rest : List UInt8) :
    parseFrame (encode opcode none payload ++ rest) =
      some ((opcode, payload), rest) := by
  have hfield := parseLength_lengthExt hlength (payload ++ rest)
  simp [encode, parseFrame, firstByte_flags, keyBytes, hfield]

theorem parseFrames_succ (fuel : Nat) {bytes : List UInt8}
    (hbytes : bytes ≠ []) :
    parseFrames (fuel + 1) bytes =
      (parseFrame bytes).bind fun parsed =>
        (parseFrames fuel parsed.2).map (parsed.1 :: ·) := by
  cases bytes with
  | nil => exact absurd rfl hbytes
  | cons first rest => rfl

theorem parseFrames_encode {messages : List (Fin 16 × List UInt8)}
    (hlength : ∀ message ∈ messages, message.2.length < 2 ^ 63) {fuel : Nat}
    (hfuel : messages.length ≤ fuel) :
    parseFrames fuel
      (messages.flatMap fun message => encode message.1 none message.2) =
      some messages := by
  induction messages generalizing fuel with
  | nil => cases fuel <;> rfl
  | cons message rest ih =>
      obtain ⟨hhead, hrest⟩ := List.forall_mem_cons.1 hlength
      cases fuel with
      | zero => simp at hfuel
      | succ fuel =>
          have hparse := parseFrame_encode message.1 hhead
            (rest.flatMap fun message => encode message.1 none message.2)
          have htail := ih hrest (Nat.le_of_succ_le_succ hfuel)
          rw [List.flatMap_cons, parseFrames_succ fuel (by simp [encode]),
            hparse, Option.bind_some, htail, Option.map_some]

/-- The frames of a server stream delimit themselves: parsing the concatenation
gives back the messages, whatever their lengths. -/
theorem parseStream_encode {messages : List (Fin 16 × List UInt8)}
    (hlength : ∀ message ∈ messages, message.2.length < 2 ^ 63) :
    parseStream
      (messages.flatMap fun message => encode message.1 none message.2) =
      some messages := by
  apply parseFrames_encode hlength
  induction messages with
  | nil => simp
  | cons message rest ih =>
      have hrest := ih fun later hlater =>
        hlength later (List.mem_cons_of_mem message hlater)
      simp only [List.flatMap_cons, List.length_append, List.length_cons,
        encode] at hrest ⊢
      omega

end Rfc6455

end VoiceServer

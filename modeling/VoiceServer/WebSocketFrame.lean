/-
`handle_frame` and `create_websocket_frame` of `WebSocketSession.h`.  The reader
is a computation over the read buffer, so that which bytes it looks at can be
stated beside what it delivers.
-/
import VoiceServer.ByteReads
import VoiceServer.Rfc6455

namespace VoiceServer

open Rfc6455

/-- `enum class WebSocketOpCode : uint8_t`.  Every value the program makes is
one of its enumerators or a cast of a nibble, so it fits four bits. -/
structure WebSocketOpCode where
  nibble : Fin 16
deriving DecidableEq, Repr

namespace WebSocketOpCode

def continuation : WebSocketOpCode := ⟨0x0⟩
def text : WebSocketOpCode := ⟨0x1⟩
def binary : WebSocketOpCode := ⟨0x2⟩
def close : WebSocketOpCode := ⟨0x8⟩
def ping : WebSocketOpCode := ⟨0x9⟩
def pong : WebSocketOpCode := ⟨0xA⟩

end WebSocketOpCode

/-- `MAX_REASONABLE_PAYLOAD`, 100 MiB. -/
def maxReasonablePayload : Nat := 1024 * 1024 * 100

/-- What one call of `handle_frame` does: one call of `on_message_`, or none
and a line for `std::cerr` (empty where the source returns silently). -/
inductive FrameOutcome where
  | message (opcode : WebSocketOpCode) (payload : List UInt8)
  | dropped (log : String)
deriving DecidableEq, Repr

/-- The payload length and the header length, or the line logged on the way
out.  Shifting into the 64-bit accumulator is modulo `2 ^ 64`. -/
def lengthFields (length : Nat) (second : UInt8) :
    Reads UInt8 (Except String (Nat × Nat)) := do
  let payloadLength := (second &&& 0x7F).toNat
  if payloadLength = 126 then
    if length < 4 then return .error ""
    let high ← Reads.fetch 2
    let low ← Reads.fetch 3
    return .ok (high.toNat <<< 8 ||| low.toNat, 4)
  else if payloadLength = 127 then
    if length < 10 then return .error ""
    let bytes ← Reads.slice 2 8
    let payloadLength := bytes.foldl
      (fun value byte => (value <<< 8) % 2 ^ 64 ||| byte.toNat) 0
    if 0x7FFFFFFFFFFFFFFF < payloadLength then
      return .error
        "Error: Payload length exceeds maximum allowed by WebSocket protocol."
    return .ok (payloadLength, 10)
  else
    return .ok (payloadLength, 2)

/-- The checks and copies after the length fields.  The sums cannot wrap: the
payload length has passed the 100 MiB check. -/
def deliverPayload (length : Nat) (opcode : WebSocketOpCode) (masked : Bool) :
    Except String (Nat × Nat) → Reads UInt8 FrameOutcome
  | .error log => return .dropped log
  | .ok (payloadLength, headerLength) => do
      if maxReasonablePayload < payloadLength then
        return .dropped ("Error: Payload length " ++ toString payloadLength ++
          " exceeds maximum reasonable size.")
      if length < headerLength + payloadLength then
        return .dropped "Error: Incomplete WebSocket frame."
      if masked then
        if length < headerLength + 4 then return .dropped ""
        let mask ← Reads.slice headerLength 4
        let payload ← Reads.slice (headerLength + 4) payloadLength
        return .message opcode
          (payload.mapIdx fun i byte => byte ^^^ mask.getD (i % 4) 0)
      else
        let payload ← Reads.slice headerLength payloadLength
        return .message opcode payload

/-- `handle_frame` on the first `length` bytes of the buffer. -/
def handleFrame (length : Nat) : Reads UInt8 FrameOutcome := do
  if length < 2 then return .dropped ""
  let first ← Reads.fetch 0
  let opcode : WebSocketOpCode := ⟨opcodeOf first⟩
  let second ← Reads.fetch 1
  let masked := second &&& 0x80 != 0
  let fields ← lengthFields length second
  deliverPayload length opcode masked fields

/-- `create_websocket_frame`; the conversions to `uint8_t` keep the low byte. -/
def createWebsocketFrame (message : List UInt8) (opcode : WebSocketOpCode) :
    List UInt8 :=
  let size := message.length
  (0x80 ||| UInt8.ofNat opcode.nibble) ::
    (if size ≤ 125 then
      [UInt8.ofNat size]
    else if size ≤ 65535 then
      [126, UInt8.ofNat ((size >>> 8) &&& 0xFF), UInt8.ofNat (size &&& 0xFF)]
    else
      127 :: [7, 6, 5, 4, 3, 2, 1, 0].map fun i =>
        UInt8.ofNat ((size >>> (i * 8)) &&& 0xFF)) ++
    message

/-- The writer produces the shortest unmasked final frame. -/
theorem createWebsocketFrame_eq_encode (message : List UInt8)
    (opcode : WebSocketOpCode) :
    createWebsocketFrame message opcode =
      encode opcode.nibble none message := by
  have hbyte := ofNat_shiftRight_and message.length
  have hlow := hbyte 0
  have hhigh := hbyte 1
  simp only [Nat.zero_mul, Nat.one_mul, Nat.shiftRight_zero] at hlow hhigh
  simp only [createWebsocketFrame, encode, firstByte, secondByte, lengthCode,
    lengthExt, keyBytes, mask_nil_key, Option.isSome_none]
  by_cases hshort : message.length ≤ 125
  · simp [hshort]
  by_cases hmedium : message.length ≤ 65535
  · simp [hshort, hmedium, hlow, hhigh, beBytes]
  · simp only [hshort, hmedium, ↓reduceIte, List.map_cons, List.map_nil, hbyte,
      beBytes]
    rfl

section Header

variable {first second : UInt8} {ext tail : List UInt8} {length : Nat}

theorem lengthFields_of_short (hheader : 2 ≤ length)
    (hshort : length < 2 + extLength second) :
    lengthFields length second = pure (.error "") := by
  unfold extLength lengthCodeOf at hshort
  unfold lengthFields
  by_cases hmedium : (second &&& 0x7F).toNat = 126
  · rw [if_pos hmedium] at hshort
    simp only [hmedium, ↓reduceIte]
    exact if_pos (by omega)
  rw [if_neg hmedium] at hshort
  by_cases hlong : (second &&& 0x7F).toNat = 127
  · rw [if_pos hlong] at hshort
    rw [if_neg hmedium, if_pos hlong]
    exact if_pos (by omega)
  · rw [if_neg hlong] at hshort
    omega

/-- With the extended length inside `length`, the decoder reads exactly its
bytes and finds the declared payload length. -/
theorem lengthFields_spec (hext : ext.length = extLength second)
    (hlength : 2 + ext.length ≤ length) :
    ∃ fields, (lengthFields length second).run
        (first :: second :: (ext ++ tail)) = some fields ∧
      (lengthFields length second).touched
        (first :: second :: (ext ++ tail)) = List.range' 2 ext.length ∧
      ((∃ log, fields = .error log ∧
          maxReasonablePayload < declaredLength second ext) ∨
        fields = .ok (declaredLength second ext, 2 + ext.length)) := by
  unfold extLength lengthCodeOf at hext
  unfold lengthFields declaredLength lengthCodeOf
  have hcode := lengthCodeOf_le second
  unfold lengthCodeOf at hcode
  by_cases hmedium : (second &&& 0x7F).toNat = 126
  · rw [if_pos hmedium] at hext
    obtain ⟨high, low, rfl⟩ := List.length_eq_two.1 hext
    simp only [hmedium, ↓reduceIte, Nat.lt_irrefl]
    rw [if_neg (by omega)]
    refine ⟨_, rfl, rfl, Or.inr ?_⟩
    simp [shiftLeft_or_byte, beNat]
  rw [if_neg hmedium] at hext
  by_cases hlong : (second &&& 0x7F).toNat = 127
  · rw [if_pos hlong] at hext
    have hin : 2 + 8 ≤ (first :: second :: (ext ++ tail)).length := by
      simp only [List.length_cons, List.length_append]
      omega
    have hslice : (Reads.slice 2 8).run (first :: second :: (ext ++ tail)) =
        some ext := by
      rw [Reads.run_slice hin]
      simp [← hext]
    have hvalue : ext.foldl
        (fun value byte => (value <<< 8) % 2 ^ 64 ||| byte.toNat) 0 =
        beNat ext :=
      foldl_shiftLeft_or (Nat.le_of_eq hext)
    rw [if_neg hmedium, if_pos hlong, if_neg (by omega), if_neg (by omega),
      Reads.run_bind, hslice, Reads.touched_bind_of_run hslice,
      Reads.touched_slice hin, hext, Option.bind_some, hvalue]
    by_cases htop : 0x7FFFFFFFFFFFFFFF < beNat ext
    · rw [if_pos htop]
      refine ⟨_, rfl, List.append_nil _, Or.inl ⟨_, rfl, ?_⟩⟩
      exact Nat.lt_trans (by decide) htop
    · rw [if_neg htop]
      exact ⟨_, rfl, List.append_nil _, Or.inr rfl⟩
  · rw [if_neg hlong, List.length_eq_zero_iff] at hext
    subst hext
    rw [if_neg hmedium, if_neg hlong, if_pos (by omega)]
    exact ⟨_, rfl, rfl, Or.inr rfl⟩

/-- Past the first two bytes: the length fields, and on with what they say. -/
theorem handleFrame_of_fields (hheader : 2 ≤ length)
    {fields : Except String (Nat × Nat)} {rest : List UInt8}
    (hrun : (lengthFields length second).run (first :: second :: rest) =
      some fields) :
    (handleFrame length).run (first :: second :: rest) =
        (deliverPayload length ⟨opcodeOf first⟩ (isMasked second) fields).run
          (first :: second :: rest) ∧
      (handleFrame length).touched (first :: second :: rest) =
        0 :: 1 ::
          ((lengthFields length second).touched (first :: second :: rest) ++
            (deliverPayload length ⟨opcodeOf first⟩ (isMasked second)
              fields).touched (first :: second :: rest)) := by
  unfold handleFrame
  rw [if_neg (by omega)]
  constructor
  · change (lengthFields length second >>= _).run _ = _
    rw [Reads.run_bind, hrun]
    rfl
  · change 0 :: 1 :: (lengthFields length second >>= _).touched _ = _
    rw [Reads.touched_bind_of_run hrun]
    rfl

theorem range_header (ext : List UInt8) :
    List.range (2 + ext.length) = 0 :: 1 :: List.range' 2 ext.length := by
  rw [List.range_eq_range', Nat.add_comm, List.range'_succ, List.range'_succ]

/-- A declared length over the limit is dropped with only the header read. -/
theorem handleFrame_of_large (hext : ext.length = extLength second)
    (hlength : 2 + ext.length ≤ length)
    (hlarge : maxReasonablePayload < declaredLength second ext) :
    (∃ log, (handleFrame length).run (first :: second :: (ext ++ tail)) =
        some (.dropped log)) ∧
      (handleFrame length).touched (first :: second :: (ext ++ tail)) =
        List.range (2 + ext.length) := by
  obtain ⟨fields, hrun, htouched, hfields⟩ :=
    @lengthFields_spec first second ext tail length hext hlength
  obtain ⟨hvalue, hread⟩ := handleFrame_of_fields (by omega) hrun
  rw [hvalue, hread, htouched, range_header]
  rcases hfields with ⟨log, rfl, -⟩ | rfl
  · exact ⟨⟨log, rfl⟩, by simp [deliverPayload]⟩
  · simp only [deliverPayload, if_pos hlarge]
    exact ⟨⟨_, rfl⟩, by simp⟩

/-- Otherwise the call goes on with the declared length. -/
theorem handleFrame_of_small (hext : ext.length = extLength second)
    (hlength : 2 + ext.length ≤ length)
    (hsmall : declaredLength second ext ≤ maxReasonablePayload) :
    (handleFrame length).run (first :: second :: (ext ++ tail)) =
        (deliverPayload length ⟨opcodeOf first⟩ (isMasked second)
          (.ok (declaredLength second ext, 2 + ext.length))).run
          (first :: second :: (ext ++ tail)) ∧
      (handleFrame length).touched (first :: second :: (ext ++ tail)) =
        List.range (2 + ext.length) ++
          (deliverPayload length ⟨opcodeOf first⟩ (isMasked second)
            (.ok (declaredLength second ext, 2 + ext.length))).touched
            (first :: second :: (ext ++ tail)) := by
  obtain ⟨fields, hrun, htouched, hfields⟩ :=
    @lengthFields_spec first second ext tail length hext hlength
  obtain ⟨hvalue, hread⟩ := handleFrame_of_fields (by omega) hrun
  rcases hfields with ⟨log, rfl, hlarge⟩ | rfl
  · omega
  · rw [hvalue, hread, htouched, range_header]
    exact ⟨rfl, rfl⟩

end Header

end VoiceServer

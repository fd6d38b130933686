/-
Which calls of `handle_frame` deliver a message.  The reader is compared with
whole frames at the front of the received bytes: it agrees with them except on
a masked frame cut inside its last four bytes, where it reads past `length`.
-/
import VoiceServer.WebSocketFrame

namespace VoiceServer

open Rfc6455

section Payload

variable {buffer : List UInt8} {length n header : Nat}
  {opcode : WebSocketOpCode}

theorem deliverPayload_of_incomplete {masked : Bool}
    (hsmall : n ≤ maxReasonablePayload) (hshort : length < header + n) :
    deliverPayload length opcode masked (.ok (n, header)) =
      pure (.dropped "Error: Incomplete WebSocket frame.") := by
  simp only [deliverPayload]
  rw [if_neg (by omega), if_pos hshort]

theorem deliverPayload_unmasked (hsmall : n ≤ maxReasonablePayload)
    (hin : header + n ≤ length) (hbuffer : length ≤ buffer.length) :
    (deliverPayload length opcode false (.ok (n, header))).run buffer =
        some (.message opcode ((buffer.drop header).take n)) ∧
      (deliverPayload length opcode false (.ok (n, header))).touched buffer =
        List.range' header n := by
  have hslice := @Reads.run_slice _ buffer header n (by omega)
  have htouched := @Reads.touched_slice _ buffer header n (by omega)
  simp only [deliverPayload]
  rw [if_neg (by omega), if_neg (by omega), if_neg (by simp)]
  constructor
  · rw [Reads.run_bind, hslice]
    rfl
  · rw [Reads.touched_bind_of_run hslice, htouched, Reads.touched_pure,
      List.append_nil]

theorem deliverPayload_of_no_key (hsmall : n ≤ maxReasonablePayload)
    (hin : header + n ≤ length) (hshort : length < header + 4) :
    deliverPayload length opcode true (.ok (n, header)) =
      pure (.dropped "") := by
  simp only [deliverPayload]
  rw [if_neg (by omega), if_neg (by omega)]
  exact if_pos hshort

theorem deliverPayload_masked (hsmall : n ≤ maxReasonablePayload)
    (hin : header + 4 + n ≤ length) (hbuffer : length ≤ buffer.length) :
    (deliverPayload length opcode true (.ok (n, header))).run buffer =
        some (.message opcode (mask ((buffer.drop header).take 4)
          ((buffer.drop (header + 4)).take n))) ∧
      (deliverPayload length opcode true (.ok (n, header))).touched buffer =
        List.range' header (4 + n) := by
  have hkey := @Reads.run_slice _ buffer header 4 (by omega)
  have hbody := @Reads.run_slice _ buffer (header + 4) n (by omega)
  simp only [deliverPayload]
  rw [if_neg (by omega), if_neg (by omega), if_pos trivial, if_neg (by omega)]
  constructor
  · rw [Reads.run_bind, hkey, Option.bind_some, Reads.run_bind, hbody]
    rfl
  · rw [Reads.touched_bind_of_run hkey, Reads.touched_bind_of_run hbody,
      Reads.touched_slice (by omega), Reads.touched_slice (by omega),
      Reads.touched_pure, List.append_nil, ← List.range'_append_1]

/-- The length check is made before the key is counted, so a masked frame that
lacks its last bytes is read past `length`. -/
theorem deliverPayload_truncated (hsmall : n ≤ maxReasonablePayload)
    (hin : header + n ≤ length) (hkey : header + 4 ≤ length)
    (hshort : length < header + 4 + n) (hbuffer : length ≤ buffer.length) :
    length ∈
      (deliverPayload length opcode true (.ok (n, header))).touched buffer := by
  have hslice := @Reads.run_slice _ buffer header 4 (by omega)
  simp only [deliverPayload]
  rw [if_neg (by omega), if_neg (by omega), if_pos trivial, if_neg (by omega),
    Reads.touched_bind_of_run hslice]
  apply List.mem_append_right
  apply Reads.mem_touched_bind_left
  exact Reads.mem_touched_slice hkey hshort hbuffer

end Payload

/-- The received bytes hold a masked header and its length, and then at least
the key and as many bytes as the payload, but not both together. -/
def TruncatedMasked (received : List UInt8) : Prop :=
  ∃ first second ext tail, received = first :: second :: (ext ++ tail) ∧
    ext.length = extLength second ∧ isMasked second = true ∧
    declaredLength second ext ≤ maxReasonablePayload ∧
    4 ≤ tail.length ∧ declaredLength second ext ≤ tail.length ∧
    tail.length < 4 + declaredLength second ext

/-- `received` begins with `frame`, and its payload is within the limit. -/
def Receives (received : List UInt8) (frame : WireFrame) : Prop :=
  frame.bytes <+: received ∧ frame.body.length ≤ maxReasonablePayload

theorem handleFrame_truncated {buffer : List UInt8} {length : Nat}
    (hlength : length ≤ buffer.length)
    (htruncated : TruncatedMasked (buffer.take length)) :
    length ∈ (handleFrame length).touched buffer := by
  obtain ⟨first, second, ext, tail, hreceived, hext, hmasked, hsmall, hkey,
    hbody, hshort⟩ := htruncated
  have hcount := congrArg List.length hreceived
  simp only [List.length_take, List.length_cons, List.length_append] at hcount
  have hbuffer : buffer =
      first :: second :: (ext ++ (tail ++ buffer.drop length)) := by
    calc buffer = buffer.take length ++ buffer.drop length :=
          (List.take_append_drop ..).symm
      _ = first :: second :: (ext ++ (tail ++ buffer.drop length)) := by
          rw [hreceived]
          simp
  generalize buffer.drop length = rest at hbuffer
  subst hbuffer
  rw [(handleFrame_of_small hext (by omega) hsmall).2, hmasked]
  apply List.mem_append_right
  exact deliverPayload_truncated hsmall (by omega) (by omega) (by omega) hlength

/-- What one call does, in three cases: nothing to deliver, one whole frame
delivered, or the truncated frame that is read past its end. -/
inductive FrameCase (buffer : List UInt8) (length : Nat) : Prop where
  | dropped (log : String)
      (hrun : (handleFrame length).run buffer = some (.dropped log))
      (hreads : ∀ i ∈ (handleFrame length).touched buffer, i < length)
      (hnone : ∀ frame, ¬ Receives (buffer.take length) frame)
  | delivered (frame : WireFrame) (hframe : Receives (buffer.take length) frame)
      (hrun : (handleFrame length).run buffer =
        some (.message ⟨frame.opcode⟩ frame.payload))
      (hreads : ∀ i ∈ (handleFrame length).touched buffer, i < length)
  | truncated (htruncated : TruncatedMasked (buffer.take length))

section Cases

variable {first second : UInt8} {ext tail : List UInt8} {length : Nat}

theorem drop_header (first second : UInt8) (ext tail : List UInt8) :
    (first :: second :: (ext ++ tail)).drop (2 + ext.length) = tail := by
  rw [Nat.add_comm]
  simp

theorem take_header (hheader : 2 + ext.length ≤ length) :
    (first :: second :: (ext ++ tail)).take length =
      first :: second :: (ext ++ tail.take (length - (2 + ext.length))) := by
  obtain ⟨rest, rfl⟩ := Nat.exists_eq_add_of_le hheader
  rw [Nat.add_sub_cancel_left, Nat.add_assoc, Nat.add_comm 2]
  have hall : ext.take (ext.length + rest) = ext :=
    List.take_of_length_le (Nat.le_add_right ..)
  simp [List.take_append, hall]

/-- A frame behind a known header has the declared length, and its key and body
lie in the bytes received after the header. -/
theorem parts_of_receives {frame : WireFrame} {got : List UInt8}
    (hext : ext.length = extLength second)
    (hframe : Receives (first :: second :: (ext ++ got)) frame) :
    (if isMasked second then 4 else 0) + declaredLength second ext ≤
      got.length := by
  obtain ⟨-, hsecond, hextended, hparts⟩ :=
    WireFrame.header_of_isPrefix hext hframe.1
  have hle := hparts.length_le
  rwa [List.length_append, frame.key_length, frame.body_length, hsecond,
    hextended] at hle

/-- Conversely, once key and body have been received there is a frame, and its
parts are what follows the header. -/
theorem exists_receives {received keySize : Nat}
    (hext : ext.length = extLength second)
    (hsmall : declaredLength second ext ≤ maxReasonablePayload)
    (hkeySize : keySize = if isMasked second then 4 else 0)
    (hparts : keySize + declaredLength second ext ≤ received)
    (hreceived : received ≤ tail.length) :
    ∃ frame, Receives (first :: second :: (ext ++ tail.take received)) frame ∧
      frame.opcode = opcodeOf first ∧
      frame.payload = mask (tail.take keySize)
        ((tail.drop keySize).take (declaredLength second ext)) := by
  have hkey : (tail.take keySize).length = keySize := by
    rw [List.length_take]
    omega
  have hbody : ((tail.drop keySize).take (declaredLength second ext)).length =
      declaredLength second ext := by
    rw [List.length_take, List.length_drop]
    omega
  refine ⟨{
    first := first
    second := second
    extended := ext
    key := tail.take keySize
    body := (tail.drop keySize).take (declaredLength second ext)
    extended_length := hext
    key_length := hkey.trans hkeySize
    body_length := hbody }, ⟨?_, hbody.trans_le hsmall⟩, rfl, rfl⟩
  have hlead := List.take_prefix_take_left (l := tail) hparts
  simp only [WireFrame.bytes, List.cons_prefix_cons, true_and]
  rw [← List.take_add]
  exact (List.prefix_append_right_inj ext).2 hlead

/-- Reading a header and then the bytes right behind it. -/
theorem reads_below {header count : Nat} (hle : header + count ≤ length) :
    ∀ i ∈ List.range header ++ List.range' header count, i < length := by
  intro i hi
  rw [List.mem_append, List.mem_range, List.mem_range'_1] at hi
  omega

/-- The cases once the header is there and declares an acceptable length. -/
theorem frameCase_of_small (hext : ext.length = extLength second)
    (hheader : 2 + ext.length ≤ length)
    (hlength : length ≤ (first :: second :: (ext ++ tail)).length)
    (hsmall : declaredLength second ext ≤ maxReasonablePayload) :
    FrameCase (first :: second :: (ext ++ tail)) length := by
  obtain ⟨hrun, htouched⟩ :=
    @handleFrame_of_small first second ext tail length hext hheader hsmall
  have hreceived := @take_header first second ext tail length hheader
  have htail : length - (2 + ext.length) ≤ tail.length := by
    simp only [List.length_cons, List.length_append] at hlength
    omega
  have hgot : (tail.take (length - (2 + ext.length))).length =
      length - (2 + ext.length) := List.length_take_of_le htail
  have hnoFrame : length < (if isMasked second then 4 else 0) +
      (2 + ext.length + declaredLength second ext) →
      ∀ frame, ¬ Receives ((first :: second :: (ext ++ tail)).take length)
        frame := by
    intro hshort frame hframe
    rw [hreceived] at hframe
    have hparts := parts_of_receives hext hframe
    omega
  by_cases hincomplete : length < 2 + ext.length + declaredLength second ext
  · rw [deliverPayload_of_incomplete hsmall hincomplete] at hrun htouched
    refine .dropped _ hrun ?_ (hnoFrame (by omega))
    rw [htouched]
    exact reads_below (by omega : 2 + ext.length + 0 ≤ length)
  cases hmasked : isMasked second with
  | false =>
      rw [hmasked] at hrun htouched
      obtain ⟨hvalue, hreads⟩ := @deliverPayload_unmasked _ length _
        (2 + ext.length) ⟨opcodeOf first⟩ hsmall (by omega) hlength
      obtain ⟨frame, hframe, hopcode, hpayload⟩ :=
        @exists_receives first second ext tail _ 0 hext hsmall
          (by simp [hmasked]) (by omega) htail
      refine .delivered frame (hreceived ▸ hframe) ?_ ?_
      · rw [hrun, hvalue, drop_header, hopcode, hpayload]
        simp
      · rw [htouched, hreads]
        exact reads_below (by omega)
  | true =>
      rw [hmasked] at hrun htouched
      by_cases hnoKey : length < 2 + ext.length + 4
      · rw [deliverPayload_of_no_key hsmall (by omega) hnoKey] at hrun htouched
        refine .dropped _ hrun ?_ (hnoFrame (by simp [hmasked]; omega))
        rw [htouched]
        exact reads_below (by omega : 2 + ext.length + 0 ≤ length)
      by_cases hshort :
          length < 2 + ext.length + 4 + declaredLength second ext
      · -- Key and payload are not both there, yet both checks have passed.
        exact .truncated ⟨first, second, ext, _, hreceived, hext, hmasked,
          hsmall, by omega, by omega, by omega⟩
      obtain ⟨hvalue, hreads⟩ := @deliverPayload_masked _ length _
        (2 + ext.length) ⟨opcodeOf first⟩ hsmall (by omega) hlength
      obtain ⟨frame, hframe, hopcode, hpayload⟩ :=
        @exists_receives first second ext tail _ 4 hext hsmall
          (by simp [hmasked]) (by omega) htail
      refine .delivered frame (hreceived ▸ hframe) ?_ ?_
      · have hbody : (first :: second :: (ext ++ tail)).drop
            (2 + ext.length + 4) = tail.drop 4 := by
          rw [← List.drop_drop, drop_header]
        rw [hrun, hvalue, drop_header, hbody, hopcode, hpayload]
      · rw [htouched, hreads]
        exact reads_below (by omega)

theorem length_le_of_receives {received : List UInt8} {frame : WireFrame}
    (hframe : Receives received frame) :
    2 + frame.extended.length ≤ received.length := by
  have hle := hframe.1.length_le
  rw [frame.length_bytes] at hle
  omega

theorem handleFrame_cases {buffer : List UInt8} {length : Nat}
    (hlength : length ≤ buffer.length) : FrameCase buffer length := by
  by_cases hheader : length < 2
  · have hreturn : handleFrame length = pure (.dropped "") := if_pos hheader
    refine .dropped "" (by rw [hreturn]; rfl) (by simp [hreturn]) ?_
    intro frame hframe
    have hle := length_le_of_receives hframe
    rw [List.length_take] at hle
    omega
  obtain ⟨first, second, rest, rfl⟩ :
      ∃ first second rest, buffer = first :: second :: rest := by
    match buffer with
    | [] | [_] => simp at hlength; omega
    | first :: second :: rest => exact ⟨first, second, rest, rfl⟩
  by_cases hextended : length < 2 + extLength second
  · have hreturn := lengthFields_of_short (by omega) hextended
    obtain ⟨hrun, htouched⟩ := @handleFrame_of_fields first second length
      (by omega) (.error "") rest (by rw [hreturn]; rfl)
    refine .dropped "" hrun ?_ ?_
    · rw [htouched, hreturn]
      exact reads_below (by omega : 2 + 0 ≤ length)
    · intro frame hframe
      have hle := length_le_of_receives hframe
      have hsecond : frame.second = second := by
        obtain ⟨short, rfl⟩ : ∃ short, length = short + 2 :=
          ⟨length - 2, by omega⟩
        have hlead := hframe.1
        simp only [List.take_succ_cons, WireFrame.bytes,
          List.cons_prefix_cons] at hlead
        exact hlead.2.1
      rw [frame.extended_length, hsecond, List.length_take] at hle
      omega
  · obtain ⟨ext, tail, rfl, hext⟩ : ∃ ext tail, rest = ext ++ tail ∧
        ext.length = extLength second := by
      refine ⟨rest.take (extLength second), rest.drop (extLength second),
        (List.take_append_drop ..).symm, List.length_take_of_le ?_⟩
      simp only [List.length_cons] at hlength
      omega
    by_cases hsmall : declaredLength second ext ≤ maxReasonablePayload
    · exact frameCase_of_small hext (by omega) hlength hsmall
    · obtain ⟨⟨log, hrun⟩, htouched⟩ := @handleFrame_of_large first second ext
        tail length hext (by omega) (by omega)
      refine .dropped log hrun ?_ ?_
      · rw [htouched]
        intro i hi
        rw [List.mem_range] at hi
        omega
      · intro frame hframe
        have hreceived := @take_header first second ext tail length (by omega)
        rw [hreceived] at hframe
        obtain ⟨-, hsecond, hextended, -⟩ :=
          WireFrame.header_of_isPrefix hext hframe.1
        have hbody := hframe.2
        rw [frame.body_length, hsecond, hextended] at hbody
        exact hsmall hbody

end Cases

/-- One call looks at the first `length` bytes and at nothing else, and calls
`on_message_` exactly for a whole frame of acceptable size at their front. -/
structure ExactlyWholeFrames (buffer : List UInt8) (length : Nat) : Prop where
  delivers : ∀ opcode payload,
    (handleFrame length).run buffer = some (.message opcode payload) ↔
      ∃ frame, Receives (buffer.take length) frame ∧
        opcode = ⟨frame.opcode⟩ ∧ payload = frame.payload
  reads : ∀ i ∈ (handleFrame length).touched buffer, i < length
  depends : ∀ other : List UInt8, other.take length = buffer.take length →
    (handleFrame length).run other = (handleFrame length).run buffer

theorem FrameCase.exactlyWholeFrames {buffer : List UInt8} {length : Nat}
    (hcase : FrameCase buffer length)
    (hwhole : ¬ TruncatedMasked (buffer.take length)) :
    ExactlyWholeFrames buffer length := by
  cases hcase with
  | truncated htruncated => exact absurd htruncated hwhole
  | dropped log hrun hreads hnone =>
      refine ⟨?_, hreads, fun other hother =>
        (Reads.run_eq_of_take_eq hreads hother.symm).1⟩
      intro opcode payload
      rw [hrun]
      constructor
      · intro heq
        simp at heq
      · rintro ⟨frame, hframe, -⟩
        exact absurd hframe (hnone frame)
  | delivered frame hframe hrun hreads =>
      refine ⟨?_, hreads, fun other hother =>
        (Reads.run_eq_of_take_eq hreads hother.symm).1⟩
      intro opcode payload
      rw [hrun]
      simp only [Option.some.injEq, FrameOutcome.message.injEq]
      constructor
      · rintro ⟨rfl, rfl⟩
        exact ⟨frame, hframe, rfl, rfl⟩
      · rintro ⟨found, hfound, rfl, rfl⟩
        obtain rfl := WireFrame.eq_of_isPrefix hframe.1 hfound.1
        exact ⟨rfl, rfl⟩

/-- `handle_frame` accepts exactly whole frames, unless the received bytes end
inside the last four bytes of a masked frame. -/
theorem handleFrame_exact_iff {buffer : List UInt8} {length : Nat}
    (hlength : length ≤ buffer.length) :
    ExactlyWholeFrames buffer length ↔
      ¬ TruncatedMasked (buffer.take length) := by
  constructor
  · intro hexact htruncated
    exact Nat.lt_irrefl length
      (hexact.reads length (handleFrame_truncated hlength htruncated))
  · exact (handleFrame_cases hlength).exactlyWholeFrames

/-- A masked frame with a payload of four bytes, and one byte behind it. -/
theorem handleFrame_exact_iff_masked :
    ExactlyWholeFrames [0x82, 0x84, 1, 2, 3, 4, 0x69, 0x6B, 0x22, 0x25, 0x82] 11 ↔
      ¬ TruncatedMasked ([0x82, 0x84, 1, 2, 3, 4, 0x69, 0x6B, 0x22, 0x25,
        0x82].take 11) :=
  handleFrame_exact_iff (by decide)

/-- A masked frame announcing four payload bytes, cut right after its key: the
call delivers four bytes that were never received. -/
theorem handleFrame_not_exact :
    (handleFrame 6).run [0x82, 0x84, 1, 2, 3, 4, 0, 0, 0, 0] =
        some (.message .binary [1, 2, 3, 4]) ∧
      ¬ ExactlyWholeFrames [0x82, 0x84, 1, 2, 3, 4, 0, 0, 0, 0] 6 := by
  refine ⟨by decide, fun hexact => ?_⟩
  exact absurd (hexact.reads 6 (by decide)) (by decide)

/-- The frame as a client sends it: the mask bit set, the key after the length
field, the payload XORed with the repeating key. -/
def clientFrame (key : MaskKey) (message : List UInt8)
    (opcode : WebSocketOpCode) : List UInt8 :=
  encode opcode.nibble (some key) message

/-- It differs from the server's frame in those three places only. -/
theorem clientFrame_eq (key : MaskKey) (message : List UInt8)
    (opcode : WebSocketOpCode) :
    ∃ first second ext, ext.length = extLength second ∧
      createWebsocketFrame message opcode =
        first :: second :: (ext ++ message) ∧
      clientFrame key message opcode =
        first :: (0x80 ||| second) ::
          (ext ++ (key.bytes ++ mask key.bytes message)) := by
  refine ⟨firstByte opcode.nibble, secondByte false message.length,
    lengthExt message.length, length_lengthExt .., ?_, ?_⟩
  · rw [createWebsocketFrame_eq_encode]
    simp [encode, keyBytes]
  · simp [clientFrame, encode, keyBytes, secondByte]

theorem Receives.not_truncated {received : List UInt8} {frame : WireFrame}
    (hframe : Receives received frame) : ¬ TruncatedMasked received := by
  rintro ⟨first, second, ext, tail, rfl, hext, hmasked, -, -, -, hshort⟩
  have hparts := parts_of_receives hext hframe
  rw [hmasked, if_pos rfl] at hparts
  omega

/-- A whole frame in front of any bytes is delivered. -/
theorem handleFrame_encode {message : List UInt8}
    (hsmall : message.length ≤ maxReasonablePayload) (opcode : WebSocketOpCode)
    (key : Option MaskKey) (rest : List UInt8) {length : Nat}
    (hfrom : (encode opcode.nibble key message).length ≤ length)
    (hto : length ≤ (encode opcode.nibble key message ++ rest).length) :
    (handleFrame length).run (encode opcode.nibble key message ++ rest) =
      some (.message opcode message) := by
  obtain ⟨frame, hbytes, hopcode, hpayload⟩ :=
    exists_wireFrame_encode opcode.nibble key
      (Nat.lt_of_le_of_lt hsmall (by decide))
  have hframe : Receives
      ((encode opcode.nibble key message ++ rest).take length) frame := by
    refine ⟨?_, ?_⟩
    · rw [List.prefix_take_iff, hbytes]
      exact ⟨List.prefix_append _ _, hfrom⟩
    · rwa [← frame.length_payload, hpayload]
  have hexact :=
    (handleFrame_cases hto).exactlyWholeFrames hframe.not_truncated
  exact (hexact.delivers opcode message).2
    ⟨frame, hframe, by rw [hopcode], hpayload.symm⟩

/-- Decoding undoes encoding, as the server sends and as a client sends,
whatever bytes follow. -/
theorem handleFrame_createWebsocketFrame {message : List UInt8}
    (hsmall : message.length ≤ maxReasonablePayload) (opcode : WebSocketOpCode)
    (rest : List UInt8) :
    (handleFrame (createWebsocketFrame message opcode ++ rest).length).run
        (createWebsocketFrame message opcode ++ rest) =
        some (.message opcode message) ∧
      ∀ key : MaskKey,
        (handleFrame (clientFrame key message opcode ++ rest).length).run
          (clientFrame key message opcode ++ rest) =
          some (.message opcode message) := by
  rw [createWebsocketFrame_eq_encode]
  have hlead : ∀ key : Option MaskKey,
      (encode opcode.nibble key message).length ≤
        (encode opcode.nibble key message ++ rest).length := by
    intro key
    rw [List.length_append]
    exact Nat.le_add_right ..
  exact ⟨handleFrame_encode hsmall opcode none rest (hlead none) le_rfl,
    fun key =>
      handleFrame_encode hsmall opcode (some key) rest (hlead _) le_rfl⟩

theorem handleFrame_createWebsocketFrame_hi :
    (handleFrame (createWebsocketFrame [0x68, 0x69] .text ++ [0]).length).run
        (createWebsocketFrame [0x68, 0x69] .text ++ [0]) =
        some (.message .text [0x68, 0x69]) ∧
      ∀ key : MaskKey,
        (handleFrame (clientFrame key [0x68, 0x69] .text ++ [0]).length).run
          (clientFrame key [0x68, 0x69] .text ++ [0]) =
          some (.message .text [0x68, 0x69]) :=
  handleFrame_createWebsocketFrame (by decide) .text [0]

end VoiceServer

/-
Everything that one read of `do_read` can lead to: a frame, nothing, or the end
of a masked frame that has not come yet.  In the last case `handle_frame` takes
what lies behind the bytes received, and may leave its buffer.
-/
import VoiceServer.ReceivePath

namespace VoiceServer

open Rfc6455

/-- A masked frame of acceptable size without some of its last four bytes. -/
structure CutFrame where
  first : UInt8
  second : UInt8
  extended : List UInt8
  key : List UInt8
  body : List UInt8
  extended_length : extended.length = extLength second
  masked : isMasked second = true
  key_length : key.length = 4
  small : declaredLength second extended ≤ maxReasonablePayload
  missing : body.length < declaredLength second extended
  enough : declaredLength second extended ≤ 4 + body.length

namespace CutFrame

def bytes (cut : CutFrame) : List UInt8 :=
  cut.first :: cut.second :: (cut.extended ++ (cut.key ++ cut.body))

/-- The bytes of the frame that are missing. -/
def lacks (cut : CutFrame) : Nat :=
  declaredLength cut.second cut.extended - cut.body.length

/-- What is delivered.  Behind the bytes received the buffer is zero, so the
bytes that are missing come out as bytes of the key. -/
def payload (cut : CutFrame) : List UInt8 :=
  mask cut.key (cut.body ++ List.replicate cut.lacks 0)

theorem length_bytes (cut : CutFrame) :
    cut.bytes.length = 2 + cut.extended.length + 4 + cut.body.length := by
  have hkey := cut.key_length
  simp only [bytes, List.length_cons, List.length_append]
  omega

theorem length_payload (cut : CutFrame) :
    cut.payload.length = declaredLength cut.second cut.extended := by
  have hmissing := cut.missing
  rw [payload, length_mask, List.length_append, List.length_replicate, lacks]
  omega

end CutFrame

theorem truncatedMasked_iff {received : List UInt8} :
    TruncatedMasked received ↔ ∃ cut : CutFrame, cut.bytes = received := by
  constructor
  · rintro ⟨first, second, ext, tail, rfl, hext, hmasked, hsmall, hkey, hbody,
      hshort⟩
    refine ⟨⟨first, second, ext, tail.take 4, tail.drop 4, hext, hmasked, ?_,
      hsmall, ?_, ?_⟩, ?_⟩
    · exact List.length_take_of_le hkey
    · rw [List.length_drop]
      omega
    · rw [List.length_drop]
      omega
    · rw [CutFrame.bytes, List.take_append_drop]
  · rintro ⟨cut, rfl⟩
    have hkey := cut.key_length
    have hmissing := cut.missing
    have henough := cut.enough
    refine ⟨cut.first, cut.second, cut.extended, cut.key ++ cut.body, rfl,
      cut.extended_length, cut.masked, cut.small, ?_, ?_, ?_⟩
    · rw [List.length_append]
      omega
    · rw [List.length_append]
      omega
    · rw [List.length_append]
      omega

section Payload

variable {buffer : List UInt8} {length n header : Nat}
  {opcode : WebSocketOpCode}

/-- Once both checks have passed, only the buffer bounds what is read. -/
theorem deliverPayload_reaches (hsmall : n ≤ maxReasonablePayload)
    (hin : header + n ≤ length) (hkey : header + 4 ≤ length)
    (hlength : length ≤ buffer.length) :
    (deliverPayload length opcode true (.ok (n, header))).run buffer =
      if header + 4 + n ≤ buffer.length then
        some (.message opcode (mask ((buffer.drop header).take 4)
          ((buffer.drop (header + 4)).take n)))
      else none := by
  have hslice := @Reads.run_slice _ buffer header 4 (by omega)
  simp only [deliverPayload]
  rw [if_neg (by omega), if_neg (by omega), if_pos trivial, if_neg (by omega),
    Reads.run_bind, hslice, Option.bind_some, Reads.run_bind]
  by_cases hbody : header + 4 + n ≤ buffer.length
  · rw [if_pos hbody, Reads.run_slice hbody]
    rfl
  · have houtside : (Reads.slice (header + 4) n).run buffer = none := by
      rw [← Option.not_isSome_iff_eq_none, Reads.run_isSome_iff]
      intro hall
      have hlast := hall buffer.length
        (Reads.mem_touched_slice (by omega) (by omega) (Nat.le_refl _))
      exact Nat.lt_irrefl _ hlast
    rw [if_neg hbody, houtside]
    rfl

end Payload

/-- The rest of a frame that has not come is taken from the buffer, if the
buffer is long enough. -/
theorem readCalls_cut (cut : CutFrame)
    (hlength : cut.bytes.length ≤ readBufferSize) :
    readCalls cut.bytes =
      if cut.bytes.length + cut.lacks ≤ readBufferSize then
        some [(⟨opcodeOf cut.first⟩, cut.payload)]
      else none := by
  have hcount := cut.length_bytes
  have hkey := cut.key_length
  have hmissing := cut.missing
  have henough := cut.enough
  have hbuffer : readBuffer cut.bytes = cut.first :: cut.second ::
      (cut.extended ++ (cut.key ++ cut.body ++
        List.replicate (readBufferSize - cut.bytes.length) 0)) := by
    simp [readBuffer, CutFrame.bytes]
  have hrun := (@handleFrame_of_small cut.first cut.second cut.extended
    (cut.key ++ cut.body ++
      List.replicate (readBufferSize - cut.bytes.length) 0)
    cut.bytes.length cut.extended_length (by omega) cut.small).1
  have hsize : (readBuffer cut.bytes).length = readBufferSize := by
    rw [readBuffer, List.length_append, List.length_replicate]
    omega
  rw [← hbuffer, cut.masked, deliverPayload_reaches cut.small (by omega)
    (by omega) (by omega), hsize] at hrun
  have hfits : 2 + cut.extended.length + 4 +
      declaredLength cut.second cut.extended =
      cut.bytes.length + cut.lacks := by
    rw [CutFrame.lacks]
    omega
  rw [hfits] at hrun
  rw [readCalls, hrun]
  by_cases hroom : cut.bytes.length + cut.lacks ≤ readBufferSize
  · have hdrop : (readBuffer cut.bytes).drop (2 + cut.extended.length) =
        cut.key ++ (cut.body ++
          List.replicate (readBufferSize - cut.bytes.length) 0) := by
      rw [hbuffer, drop_header, List.append_assoc]
    rw [if_pos hroom, if_pos hroom, hdrop, List.take_left' hkey,
      ← List.drop_drop, hdrop, List.drop_left' hkey]
    have hbody : (cut.body ++
        List.replicate (readBufferSize - cut.bytes.length) (0 : UInt8)).take
          (declaredLength cut.second cut.extended) =
        cut.body ++ List.replicate cut.lacks 0 := by
      rw [List.take_append, List.take_of_length_le hmissing.le,
        List.take_replicate, Nat.min_eq_left (by rw [CutFrame.lacks] at hroom; omega),
        CutFrame.lacks]
    rw [hbody]
    rfl
  · rw [if_neg hroom, if_neg hroom]
    rfl

/-- What one read leads to. -/
inductive ReadCase (bytes : List UInt8) : Prop
  | frame (frame : WireFrame) (hframe : Receives bytes frame)
      (hcalls : readCalls bytes = some [(⟨frame.opcode⟩, frame.payload)])
  | cut (cut : CutFrame) (hcut : cut.bytes = bytes)
  | nothing (hcalls : readCalls bytes = some [])

theorem readCase (bytes : List UInt8) : ReadCase bytes := by
  have hcase := handleFrame_cases (length_readBuffer bytes)
  cases hcase with
  | dropped log hrun hreads hnone =>
      apply ReadCase.nothing
      rw [readCalls, hrun]
      rfl
  | delivered frame hframe hrun hreads =>
      rw [take_readBuffer] at hframe
      apply ReadCase.frame frame hframe
      rw [readCalls, hrun]
      rfl
  | truncated htruncated =>
      rw [take_readBuffer] at htruncated
      obtain ⟨cut, hcut⟩ := truncatedMasked_iff.1 htruncated
      exact .cut cut hcut

/-- A whole frame at the front is delivered, whatever follows it. -/
theorem readCalls_of_receives {bytes : List UInt8} {frame : WireFrame}
    (hframe : Receives bytes frame) :
    readCalls bytes = some [(⟨frame.opcode⟩, frame.payload)] := by
  have hcase := handleFrame_cases (length_readBuffer bytes)
  cases hcase with
  | dropped log hrun hreads hnone =>
      rw [take_readBuffer] at hnone
      exact absurd hframe (hnone frame)
  | delivered other hother hrun hreads =>
      rw [take_readBuffer] at hother
      obtain rfl := WireFrame.eq_of_isPrefix hframe.1 hother.1
      rw [readCalls, hrun]
      rfl
  | truncated htruncated =>
      rw [take_readBuffer] at htruncated
      exact absurd htruncated hframe.not_truncated

/-- Exactly what one read leads to.  `handle_frame` leaves its buffer on a masked
frame that misses some of its last four bytes and would not fit whole; it
delivers the whole frames, and the other frames of that kind, filled up with
their own key. -/
theorem readCalls_exact {bytes : List UInt8}
    (hlength : bytes.length ≤ readBufferSize) :
    (readCalls bytes = none ↔ ∃ cut : CutFrame, cut.bytes = bytes ∧
        readBufferSize < bytes.length + cut.lacks) ∧
      ∀ message, readCalls bytes = some [message] ↔
        (∃ frame : WireFrame, Receives bytes frame ∧
          message = (⟨frame.opcode⟩, frame.payload)) ∨
        ∃ cut : CutFrame, cut.bytes = bytes ∧
          bytes.length + cut.lacks ≤ readBufferSize ∧
          message = (⟨opcodeOf cut.first⟩, cut.payload) := by
  have hcut : ∀ cut : CutFrame, cut.bytes = bytes → readCalls bytes =
      if bytes.length + cut.lacks ≤ readBufferSize then
        some [(⟨opcodeOf cut.first⟩, cut.payload)]
      else none := by
    rintro cut rfl
    exact readCalls_cut cut hlength
  refine ⟨⟨?_, ?_⟩, fun message => ⟨?_, ?_⟩⟩
  · intro hnone
    cases readCase bytes with
    | frame frame hframe hcalls => simp [hcalls] at hnone
    | cut cut hbytes =>
        refine ⟨cut, hbytes, ?_⟩
        by_contra hroom
        rw [hcut cut hbytes, if_pos (Nat.le_of_not_lt hroom)] at hnone
        exact absurd hnone (Option.some_ne_none _)
    | nothing hcalls => simp [hcalls] at hnone
  · rintro ⟨cut, hbytes, hroom⟩
    rw [hcut cut hbytes, if_neg (Nat.not_le_of_lt hroom)]
  · intro hone
    cases readCase bytes with
    | frame frame hframe hcalls =>
        refine Or.inl ⟨frame, hframe, ?_⟩
        simpa [hcalls, eq_comm] using hone
    | cut cut hbytes =>
        rw [hcut cut hbytes, Option.ite_none_right_eq_some] at hone
        refine Or.inr ⟨cut, hbytes, hone.1, ?_⟩
        simpa [eq_comm] using hone.2
    | nothing hcalls => simp [hcalls] at hone
  · rintro (⟨frame, hframe, rfl⟩ | ⟨cut, hbytes, hroom, rfl⟩)
    · exact readCalls_of_receives hframe
    · rw [hcut cut hbytes, if_pos hroom]

theorem readCalls_exact_cut :
    (readCalls [130, 129, 1, 2, 3, 4] = none ↔
        ∃ cut : CutFrame, cut.bytes = [130, 129, 1, 2, 3, 4] ∧
          readBufferSize <
            [130, 129, 1, 2, 3, (4 : UInt8)].length + cut.lacks) ∧
      ∀ message, readCalls [130, 129, 1, 2, 3, 4] = some [message] ↔
        (∃ frame : WireFrame, Receives [130, 129, 1, 2, 3, 4] frame ∧
          message = (⟨frame.opcode⟩, frame.payload)) ∨
        ∃ cut : CutFrame, cut.bytes = [130, 129, 1, 2, 3, 4] ∧
          [130, 129, 1, 2, 3, (4 : UInt8)].length + cut.lacks ≤
            readBufferSize ∧
          message = (⟨opcodeOf cut.first⟩, cut.payload) :=
  readCalls_exact (by decide)

/-- Every payload delivered is within the limit. -/
theorem length_of_readCalls {bytes : List UInt8} {calls : List Message}
    (hlength : bytes.length ≤ readBufferSize)
    (hcalls : readCalls bytes = some calls) :
    ∀ message ∈ calls, message.2.length ≤ maxReasonablePayload := by
  intro message hmessage
  cases readCase bytes with
  | frame frame hframe hframeCalls =>
      rw [hframeCalls, Option.some.injEq] at hcalls
      rw [← hcalls, List.mem_singleton] at hmessage
      rw [hmessage, WireFrame.length_payload]
      exact hframe.2
  | cut cut hbytes =>
      subst hbytes
      rw [readCalls_cut cut hlength, Option.ite_none_right_eq_some,
        Option.some.injEq] at hcalls
      rw [← hcalls.2, List.mem_singleton] at hmessage
      rw [hmessage, CutFrame.length_payload]
      exact cut.small
  | nothing hnone =>
      rw [hnone, Option.some.injEq] at hcalls
      rw [← hcalls] at hmessage
      exact absurd hmessage List.not_mem_nil

end VoiceServer

/-
`do_read`: one buffer is allocated for each read and `handle_frame` is called on
what that read returned, so nothing is carried from one read to the next.  The
messages delivered are those of the client for every content exactly when the
reads are the frames.
-/
import Mathlib.Data.List.SplitLengths
import VoiceServer.FrameAcceptance
import VoiceServer.PartialRun

namespace VoiceServer

open Rfc6455

/-- `read_buffer_->resize(65536)`. -/
def readBufferSize : Nat := 65536

/-- A new buffer, filled with zeros, after a read stored `bytes` in it. -/
def readBuffer (bytes : List UInt8) : List UInt8 :=
  bytes ++ List.replicate (readBufferSize - bytes.length) 0

abbrev Message := WebSocketOpCode × List UInt8

/-- The calls of `on_message_`. -/
def FrameOutcome.calls : FrameOutcome → List Message
  | .message opcode payload => [(opcode, payload)]
  | .dropped _ => []

/-- The handler of one successful read; no value means that `handle_frame`
left the buffer. -/
def readCalls (bytes : List UInt8) : Option (List Message) :=
  ((handleFrame bytes.length).run (readBuffer bytes)).map FrameOutcome.calls

/-- `do_read` again and again: the handler keeps no state between reads. -/
def doRead (_ : Unit) (bytes : List UInt8) : Option (Unit × List Message) :=
  (readCalls bytes).map fun calls => ((), calls)

def receive (reads : List (List UInt8)) : Option (List Message) :=
  (run doRead () reads).map Prod.snd

/-- What a client sends: the payload is within the reader's limit. -/
structure ClientMessage where
  opcode : WebSocketOpCode
  key : MaskKey
  payload : List UInt8
  small : payload.length ≤ maxReasonablePayload

namespace ClientMessage

def frame (message : ClientMessage) : List UInt8 :=
  clientFrame message.key message.payload message.opcode

def content (message : ClientMessage) : Message :=
  (message.opcode, message.payload)

end ClientMessage

/-- The bytes of the connection. -/
def stream (messages : List ClientMessage) : List UInt8 :=
  messages.flatMap ClientMessage.frame

/-- A masked frame around a payload of `n` bytes. -/
def frameSize (n : Nat) : Nat :=
  2 + (lengthExt n).length + 4 + n

theorem ClientMessage.length_frame (message : ClientMessage) :
    message.frame.length = frameSize message.payload.length := by
  simp only [frame, clientFrame, encode, keyBytes, frameSize,
    List.length_cons, List.length_append, length_mask, message.key.length_eq]
  omega

theorem frameSize_pos (n : Nat) : 0 < frameSize n := by
  unfold frameSize
  omega

theorem length_readBuffer (bytes : List UInt8) :
    bytes.length ≤ (readBuffer bytes).length := by
  simp [readBuffer]

theorem take_readBuffer (bytes : List UInt8) :
    (readBuffer bytes).take bytes.length = bytes := by
  simp [readBuffer]

/-- A read that begins with a whole frame delivers that frame's message, and
nothing of what follows it in the same read. -/
theorem readCalls_frame (message : ClientMessage) (rest : List UInt8) :
    readCalls (message.frame ++ rest) = some [message.content] := by
  have hrun := @handleFrame_encode message.payload message.small message.opcode
    (some message.key) (rest ++ List.replicate
      (readBufferSize - (message.frame ++ rest).length) 0)
    (message.frame ++ rest).length
    (by
      change message.frame.length ≤ _
      simp)
    (by
      change _ ≤ (message.frame ++ _).length
      simp)
  rw [← List.append_assoc] at hrun
  change (handleFrame _).run (message.frame ++ rest ++ _) = _ at hrun
  rw [readCalls, readBuffer, hrun]
  rfl

/-- One read delivers at most one message. -/
theorem readCalls_cases {bytes : List UInt8} {calls : List Message}
    (hcalls : readCalls bytes = some calls) :
    calls = [] ∨ ∃ call, calls = [call] := by
  rw [readCalls, Option.map_eq_some_iff] at hcalls
  obtain ⟨outcome, -, rfl⟩ := hcalls
  cases outcome with
  | message opcode payload => exact Or.inr ⟨(opcode, payload), rfl⟩
  | dropped log => exact Or.inl rfl

theorem receive_cons (bytes : List UInt8) (reads : List (List UInt8)) :
    receive (bytes :: reads) = (readCalls bytes).bind fun calls =>
      (receive reads).map (calls ++ ·) := by
  simp only [receive, run, doRead]
  cases readCalls bytes with
  | none => rfl
  | some calls => cases hrun : run doRead () reads <;> simp [hrun]

/-- Reads that are the frames deliver the messages. -/
theorem receive_frames (messages : List ClientMessage) :
    receive (messages.map ClientMessage.frame) =
      some (messages.map ClientMessage.content) := by
  induction messages with
  | nil => rfl
  | cons message rest ih =>
      have hfirst := readCalls_frame message []
      rw [List.append_nil] at hfirst
      rw [List.map_cons, receive_cons, hfirst, Option.bind_some, ih]
      rfl

/-- Any list of acceptable payload lengths is the lengths of some messages. -/
def plain (opcode : WebSocketOpCode) (n : Nat)
    (small : n ≤ maxReasonablePayload) : ClientMessage where
  opcode := opcode
  key := ⟨[0, 0, 0, 0], rfl⟩
  payload := List.replicate n 0
  small := by simpa using small

def payloadLengths (messages : List ClientMessage) : List Nat :=
  messages.map fun message => message.payload.length

theorem exists_messages {lengths : List Nat}
    (hsmall : ∀ n ∈ lengths, n ≤ maxReasonablePayload) :
    ∃ messages, payloadLengths messages = lengths := by
  induction lengths with
  | nil => exact ⟨[], rfl⟩
  | cons n rest ih =>
      obtain ⟨hn, hrest⟩ := List.forall_mem_cons.1 hsmall
      obtain ⟨messages, hmessages⟩ := ih hrest
      refine ⟨plain .text n hn :: messages, ?_⟩
      rw [payloadLengths, List.map_cons]
      exact congrArg₂ _ (List.length_replicate ..) hmessages

/-- The opcode is in the first byte of a frame and nowhere else. -/
theorem frame_plain (n : Nat) (small : n ≤ maxReasonablePayload) :
    ∃ rest, ∀ opcode, (plain opcode n small).frame =
      firstByte opcode.nibble :: rest :=
  ⟨secondByte true (List.replicate n 0).length ::
    (lengthExt (List.replicate n 0).length ++
      ([0, 0, 0, 0] ++ mask [0, 0, 0, 0] (List.replicate n 0))),
    fun _ => rfl⟩

/-- The last payload byte is in the last byte of a frame and nowhere else. -/
theorem frame_concat (opcode : WebSocketOpCode) (key : MaskKey)
    (payload : List UInt8) :
    ∃ front, ∀ last, ∃ masked,
      clientFrame key (payload ++ [last]) opcode = front ++ [masked] := by
  refine ⟨firstByte opcode.nibble :: secondByte true (payload.length + 1) ::
    (lengthExt (payload.length + 1) ++
      (key.bytes ++ mask key.bytes payload)), fun last =>
    ⟨last ^^^ key.bytes.getD (payload.length % 4) 0, ?_⟩⟩
  simp only [clientFrame, encode, keyBytes, Option.isSome_some, mask,
    List.mapIdx_concat, List.length_append, List.length_singleton,
    List.append_assoc, List.cons_append]

/-- A frame cut short delivers something only if it has a payload. -/
theorem payload_pos_of_cut {message : ClientMessage} {size : Nat}
    (hcut : size < message.frame.length) {call : Message}
    (hcalls : readCalls (message.frame.take size) = some [call]) :
    0 < message.payload.length := by
  obtain ⟨whole, hbytes, -, hpayload⟩ :=
    exists_wireFrame_encode message.opcode.nibble (some message.key)
      (Nat.lt_of_le_of_lt message.small (by decide))
  change whole.bytes = message.frame at hbytes
  have hcase := handleFrame_cases (length_readBuffer (message.frame.take size))
  rw [readCalls] at hcalls
  cases hcase with
  | dropped log hrun =>
      rw [hrun] at hcalls
      simp [FrameOutcome.calls] at hcalls
  | delivered frame hframe =>
      rw [take_readBuffer] at hframe
      have hlead : frame.bytes <+: message.frame :=
        hframe.1.trans ( List.take_prefix _ _)
      have hsame : frame = whole :=
        WireFrame.eq_of_isPrefix hlead (hbytes ▸ List.prefix_rfl)
      have hle := hframe.1.length_le
      rw [hsame, hbytes, List.length_take] at hle
      omega
  | truncated htruncated =>
      rw [take_readBuffer] at htruncated
      obtain ⟨first, second, ext, tail, htake, hext, -, -, hkey, -, hshort⟩ :=
        htruncated
      have hwhole : whole.bytes <+:
          first :: second :: (ext ++ (tail ++ message.frame.drop size)) := by
        have hsplit := List.take_append_drop size message.frame
        rw [htake] at hsplit
        simp only [List.cons_append, List.append_assoc] at hsplit
        rw [hsplit, hbytes]
      obtain ⟨-, hsecond, hextended, -⟩ := WireFrame.header_of_isPrefix hext hwhole
      rw [← hpayload, whole.length_payload, whole.body_length, hsecond,
        hextended]
      omega

/-- Reads of the given sizes deliver all messages of the given payload lengths,
whatever their opcodes, keys and payloads. -/
def AlwaysDelivers (lengths sizes : List Nat) : Prop :=
  ∀ messages, payloadLengths messages = lengths →
    receive (sizes.splitLengths (stream messages)) =
      some (messages.map ClientMessage.content)

namespace AlwaysDelivers

variable {lengths sizes : List Nat} {n size : Nat}

/-- The calls of the first read, and those of the rest of the connection. -/
theorem split (halways : AlwaysDelivers lengths (size :: sizes))
    {messages : List ClientMessage}
    (hlengths : payloadLengths messages = lengths) :
    ∃ calls later, readCalls ((stream messages).take size) = some calls ∧
      receive (sizes.splitLengths ((stream messages).drop size)) =
        some later ∧
      calls ++ later = messages.map ClientMessage.content := by
  have hreceive := halways messages hlengths
  rw [List.splitLengths_cons, receive_cons] at hreceive
  simpa only [Option.bind_eq_some_iff, Option.map_eq_some_iff,
    exists_and_left] using hreceive

/-- After a read that is the first frame, the rest is delivered by the rest. -/
theorem tail (hn : n ≤ maxReasonablePayload)
    (halways : AlwaysDelivers (n :: lengths) (frameSize n :: sizes)) :
    AlwaysDelivers lengths sizes := by
  intro messages hlengths
  let first := plain .text n hn
  have hsize : frameSize n = first.frame.length := by
    rw [first.length_frame]
    simp [first, plain]
  have hall : payloadLengths (first :: messages) = n :: lengths := by
    simp [payloadLengths, first, plain, ← hlengths]
  obtain ⟨calls, later, hcalls, hlater, happend⟩ := halways.split hall
  have hframe := readCalls_frame first []
  rw [List.append_nil] at hframe
  rw [hsize, stream, List.flatMap_cons, List.take_left] at hcalls
  rw [hsize, stream, List.flatMap_cons, List.drop_left] at hlater
  rw [hframe, Option.some.injEq] at hcalls
  subst hcalls
  rw [stream, hlater]
  simpa using happend

/-- The first read cannot be longer than the first frame: it would swallow the
first byte of the second frame, and with it an opcode. -/
theorem not_longer {second : Nat} (hn : n ≤ maxReasonablePayload)
    (hsecond : second ≤ maxReasonablePayload)
    (hsmall : ∀ n ∈ lengths, n ≤ maxReasonablePayload)
    (halways : AlwaysDelivers (n :: second :: lengths) (size :: sizes)) :
    ¬ frameSize n < size := by
  intro hlonger
  let first := plain .text n hn
  obtain ⟨rest, hrest⟩ := exists_messages hsmall
  obtain ⟨tail, htail⟩ := frame_plain second hsecond
  have hsize : first.frame.length = frameSize n := by
    rw [first.length_frame]
    simp [first, plain]
  obtain ⟨extra, rfl⟩ : ∃ extra, size = first.frame.length + (extra + 1) :=
    ⟨size - frameSize n - 1, by omega⟩
  have hlater : ∀ opcode, receive
      (sizes.splitLengths ((tail ++ stream rest).drop extra)) =
      some ((plain opcode second hsecond :: rest).map
        ClientMessage.content) := by
    intro opcode
    have hall : payloadLengths (first :: plain opcode second hsecond :: rest) =
        n :: second :: lengths := by
      simp [payloadLengths, first, plain, ← hrest]
    have hstream : stream (first :: plain opcode second hsecond :: rest) =
        first.frame ++ firstByte opcode.nibble :: (tail ++ stream rest) := by
      simp [stream, htail opcode]
    obtain ⟨calls, later, hcalls, hlater, happend⟩ := halways.split hall
    rw [hstream, List.take_length_add_append, readCalls_frame,
      Option.some.injEq] at hcalls
    rw [hstream, List.drop_length_add_append, List.drop_succ_cons] at hlater
    subst hcalls
    simpa [hlater] using happend
  have htext := hlater .text
  rw [hlater .binary] at htext
  simp [ClientMessage.content, plain, WebSocketOpCode.text,
    WebSocketOpCode.binary] at htext

/-- What follows the first frame's first bytes, when the first read is no longer
than the first frame. -/
theorem split_first {rest : List ClientMessage} {first : ClientMessage}
    (halways : AlwaysDelivers (n :: payloadLengths rest) (size :: sizes))
    (hfirst : first.payload.length = n) (hsize : size ≤ frameSize n) :
    ∃ calls later, readCalls (first.frame.take size) = some calls ∧
      receive (sizes.splitLengths (first.frame.drop size ++ stream rest)) =
        some later ∧
      calls ++ later = first.content :: rest.map ClientMessage.content := by
  have hle : size ≤ first.frame.length := by
    rw [first.length_frame, hfirst]
    exact hsize
  have hall : payloadLengths (first :: rest) = n :: payloadLengths rest :=
    congrArg (· :: payloadLengths rest) hfirst
  have hsplit := halways.split hall
  rwa [stream, List.flatMap_cons, List.take_append_of_le_length hle,
    List.drop_append_of_le_length hle] at hsplit

/-- With nothing delivered by a first read inside the first frame, the opcode
in its first byte is lost. -/
theorem exists_call {rest : List ClientMessage} (hn : n ≤ maxReasonablePayload)
    (halways : AlwaysDelivers (n :: payloadLengths rest) (size :: sizes))
    (hpos : 0 < size) (hsize : size ≤ frameSize n) :
    readCalls ((plain .text n hn).frame.take size) =
      some [(plain .text n hn).content] := by
  have hlength : ∀ opcode, (plain opcode n hn).payload.length = n :=
    fun _ => List.length_replicate ..
  obtain ⟨tail, htail⟩ := frame_plain n hn
  obtain ⟨extra, rfl⟩ : ∃ extra, size = extra + 1 := ⟨size - 1, by omega⟩
  obtain ⟨calls, later, hcalls, hlater, happend⟩ :=
    halways.split_first (hlength .text) hsize
  obtain ⟨other, same, hother, hsame, hotherAppend⟩ :=
    halways.split_first (hlength .binary) hsize
  -- The two contents differ in their first byte only.
  rw [htail, List.drop_succ_cons] at hlater hsame
  rw [hlater, Option.some.injEq] at hsame
  subst hsame
  rcases readCalls_cases hcalls with rfl | ⟨call, rfl⟩
  · rcases readCalls_cases hother with rfl | ⟨call, rfl⟩
    · rw [happend] at hotherAppend
      simp [ClientMessage.content, plain, WebSocketOpCode.text,
        WebSocketOpCode.binary] at hotherAppend
    · have hcount := congrArg List.length hotherAppend
      rw [List.nil_append] at happend
      simp [happend] at hcount
  · rw [List.singleton_append, List.cons.injEq] at happend
    rw [hcalls, happend.1]

/-- Nor can it be shorter: with something delivered the last payload byte was
made up, since it had not been received. -/
theorem not_shorter (hn : n ≤ maxReasonablePayload) (hpos : 0 < size)
    (hsmall : ∀ n ∈ lengths, n ≤ maxReasonablePayload)
    (halways : AlwaysDelivers (n :: lengths) (size :: sizes)) :
    ¬ size < frameSize n := by
  intro hshorter
  obtain ⟨rest, rfl⟩ := exists_messages hsmall
  have hcalls := halways.exists_call hn hpos hshorter.le
  have hcut : size < (plain .text n hn).frame.length := by
    rw [ClientMessage.length_frame]
    simpa [plain] using hshorter
  have hpayload := payload_pos_of_cut hcut hcalls
  obtain ⟨m, rfl⟩ : ∃ m, n = m + 1 := by
    simp only [plain, List.length_replicate] at hpayload
    exact ⟨n - 1, by omega⟩
  let other : ClientMessage := {
    opcode := .text
    key := ⟨[0, 0, 0, 0], rfl⟩
    payload := List.replicate m 0 ++ [1]
    small := by simpa using hn }
  obtain ⟨calls, later, hother, -, happend⟩ := halways.split_first
    (show other.payload.length = m + 1 by simp [other]) hshorter.le
  obtain ⟨front, hfront⟩ :=
    frame_concat .text ⟨[0, 0, 0, 0], rfl⟩ (List.replicate m 0)
  obtain ⟨last, hplain⟩ := hfront 0
  obtain ⟨last', hother'⟩ := hfront 1
  rw [← List.replicate_succ'] at hplain
  change (plain .text (m + 1) hn).frame = front ++ [last] at hplain
  change other.frame = front ++ [last'] at hother'
  have hle : size ≤ front.length := by
    rw [hplain, List.length_append, List.length_singleton] at hcut
    omega
  rw [hplain, List.take_append_of_le_length hle] at hcalls
  rw [hother', List.take_append_of_le_length hle, hcalls,
    Option.some.injEq] at hother
  subst hother
  rw [List.singleton_append, List.cons.injEq] at happend
  have hpayloads := congrArg Prod.snd happend.1
  simp [ClientMessage.content, plain, other, List.replicate_succ'] at hpayloads

/-- So the reads are the frames. -/
theorem sizes_eq (hsmall : ∀ n ∈ lengths, n ≤ maxReasonablePayload)
    (hpos : ∀ size ∈ sizes, 0 < size)
    (hsum : sizes.sum = (lengths.map frameSize).sum)
    (halways : AlwaysDelivers lengths sizes) :
    sizes = lengths.map frameSize := by
  induction lengths generalizing sizes with
  | nil =>
      cases sizes with
      | nil => rfl
      | cons size rest =>
          have hsize := hpos size List.mem_cons_self
          simp only [List.map_nil, List.sum_nil, List.sum_cons] at hsum
          omega
  | cons n lengths ih =>
      obtain ⟨hn, hrest⟩ := List.forall_mem_cons.1 hsmall
      have hframe := frameSize_pos n
      cases sizes with
      | nil =>
          simp only [List.map_cons, List.sum_nil, List.sum_cons] at hsum
          omega
      | cons size sizes =>
          obtain ⟨hsize, hsizes⟩ := List.forall_mem_cons.1 hpos
          simp only [List.map_cons, List.sum_cons] at hsum
          have hnotLonger : ¬ frameSize n < size := by
            cases lengths with
            | nil =>
                simp only [List.map_nil, List.sum_nil] at hsum
                omega
            | cons second lengths =>
                obtain ⟨hsecond, hlater⟩ := List.forall_mem_cons.1 hrest
                exact halways.not_longer hn hsecond hlater
          have hnotShorter := halways.not_shorter hn hsize hrest
          obtain rfl : size = frameSize n := by omega
          rw [List.map_cons, ih hrest hsizes (by omega) (halways.tail hn)]

end AlwaysDelivers

/-- One way of cutting a connection: the payload lengths of the messages and
the sizes of the reads, which cover the frames and fit the read buffer. -/
structure Segmentation where
  lengths : List Nat
  sizes : List Nat
  small : ∀ n ∈ lengths, n ≤ maxReasonablePayload
  readable : ∀ size ∈ sizes, 0 < size ∧ size ≤ readBufferSize
  covers : sizes.sum = (lengths.map frameSize).sum

/-- The reads are the bytes of the messages, cut as the segmentation says. -/
structure Segmentation.Cuts (segmentation : Segmentation)
    (messages : List ClientMessage) (reads : List (List UInt8)) : Prop where
  lengths : payloadLengths messages = segmentation.lengths
  sizes : reads.map List.length = segmentation.sizes
  bytes : reads.flatten = stream messages

theorem length_stream (messages : List ClientMessage) :
    (stream messages).length =
      ((payloadLengths messages).map frameSize).sum := by
  simp only [stream, List.length_flatMap, payloadLengths, List.map_map]
  congr 2
  funext message
  exact message.length_frame

theorem splitLengths_flatten (parts : List (List UInt8)) :
    (parts.map List.length).splitLengths parts.flatten = parts := by
  induction parts with
  | nil => rfl
  | cons part rest ih => simp [List.splitLengths_cons, ih]

/-- The receive path delivers the messages of a connection, whatever their
opcodes, keys and payloads, exactly when every read is one whole frame. -/
theorem receive_always_iff (segmentation : Segmentation) :
    (∀ messages reads, segmentation.Cuts messages reads →
      receive reads = some (messages.map ClientMessage.content)) ↔
      segmentation.sizes = segmentation.lengths.map frameSize := by
  constructor
  · intro hdelivers
    refine AlwaysDelivers.sizes_eq segmentation.small
      (fun size hsize => (segmentation.readable size hsize).1)
      segmentation.covers fun messages hlengths => ?_
    have hcovers := segmentation.covers
    rw [← hlengths, ← length_stream] at hcovers
    exact hdelivers messages _ {
      lengths := hlengths
      sizes := List.map_splitLengths_length _ _ hcovers.le
      bytes := List.flatten_splitLengths _ _ hcovers.ge }
  · intro hsizes messages reads hcuts
    have hframes : messages.map ClientMessage.frame = reads := by
      rw [← splitLengths_flatten reads, hcuts.sizes, hsizes, ← hcuts.lengths,
        hcuts.bytes, ← splitLengths_flatten (messages.map ClientMessage.frame)]
      congr 1
      simp only [payloadLengths, List.map_map]
      congr 1
      funext message
      exact message.length_frame
    rw [← hframes]
    exact receive_frames messages

/-- One text message of two bytes, cut inside its masking key: the second read
is parsed as a frame of its own. -/
theorem receive_not_always :
    ¬ ∀ (messages : List ClientMessage) (reads : List (List UInt8)),
      reads.flatten = stream messages →
      (∀ bytes ∈ reads, bytes ≠ [] ∧ bytes.length ≤ readBufferSize) →
      receive reads = some (messages.map ClientMessage.content) := by
  intro hclaim
  let message : ClientMessage :=
    ⟨.text, ⟨[1, 2, 3, 4], rfl⟩, [0x68, 0x69], by decide⟩
  have hreceive := hclaim [message]
    [[0x81, 0x82, 1], [2, 3, 4, 0x69, 0x6B]] (by decide) (by decide)
  have hactual : receive [[0x81, 0x82, 1], [2, 3, 4, 0x69, 0x6B]] =
      some [(.binary, [4, 0x69, 0x6B])] := by
    decide
  rw [hactual] at hreceive
  simp [message, ClientMessage.content] at hreceive

end VoiceServer

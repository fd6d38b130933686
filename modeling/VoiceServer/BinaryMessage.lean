/-
`BinaryMessage` and its payload `Error`.  Deserialising writes into the object
and into the caller's offset as it goes.
-/
import VoiceServer.TextCodec

namespace VoiceServer

namespace NetworkMessages

/-- An object that is being deserialised, and the caller's offset. -/
structure Decoding (T : Type) where
  object : T
  offset : Nat
deriving DecidableEq, Repr

/-- The virtual functions of `BinaryData`. -/
class BinaryData (T : Type) where
  serialize : Host → T → List UInt8
  deserialize : Host → ByteVector → EStateM String (Decoding T) Unit

/-- `Member = read_bytes<A>(data, offset)`, for the one member of a class. -/
def assignRead {A T : Type} (read : EStateM String Nat A) (assign : A → T) :
    EStateM String (Decoding T) Unit := fun state =>
  match read state.offset with
  | .error text offset => .error text { state with offset := offset }
  | .ok value offset => .ok () ⟨assign value, offset⟩

/-- A `short`, by its bits. -/
abbrev Short := BitVec (8 * 2)

structure MessageTypeData where
  type : Short
deriving DecidableEq, Repr

instance : BinaryData MessageTypeData where
  serialize host data := host.appendBytes 2 [] data.type
  deserialize host data := assignRead (host.readBytes 2 data) MessageTypeData.mk

structure Error where
  errorMessage : List UInt8
deriving DecidableEq, Repr

instance : BinaryData Error where
  serialize host error := host.stringToBytes error.errorMessage
  deserialize host data := assignRead (host.readStringFromBytes data) Error.mk

structure BinaryMessage (T : Type) where
  messageType : Short
  messagePayload : T
deriving DecidableEq, Repr

/-- Subtraction of `size_t` values, which wraps below zero. -/
def sizeSub (a b : Nat) : Nat := if b ≤ a then a - b else a + 2 ^ 64 - b

/-- `deserialize` on a new `MessageTypeData`. -/
def readMessageType (host : Host) (data : ByteVector) (offset : Nat) :
    EStateM.Result String (Decoding MessageTypeData) Unit :=
  BinaryData.deserialize host data ⟨⟨0⟩, offset⟩

instance {T : Type} [BinaryData T] : BinaryData (BinaryMessage T) where
  serialize host message :=
    BinaryData.serialize host (MessageTypeData.mk message.messageType) ++
      BinaryData.serialize host message.messagePayload
  deserialize host data := fun state =>
    if sizeSub data.size state.offset < 2 then
      .error "Invalid data: too short to contain message type" state
    else
      match readMessageType host data state.offset with
      | .error text typeData =>
          .error text { state with offset := typeData.offset }
      | .ok _ typeData =>
          let message := { state.object with messageType := typeData.object.type }
          match BinaryData.deserialize host data
            (Decoding.mk message.messagePayload typeData.offset) with
          | .error text payload =>
              .error text ⟨{ message with messagePayload := payload.object },
                payload.offset⟩
          | .ok _ payload =>
              .ok () ⟨{ message with messagePayload := payload.object },
                payload.offset⟩

/-- `MessageType` holds any `short`. -/
def getMessageTypeFromBytes (host : Host) (data : ByteVector) :
    Except String Short :=
  if data.size < 2 then
    .error "Invalid message data: too short to contain message type"
  else
    match readMessageType host data 0 with
    | .error text _ => .error text
    | .ok _ typeData => .ok typeData.object.type

/-- Messages one after the other into these objects, with one offset. -/
def deserializeAll {T : Type} [BinaryData T] (host : Host) (data : ByteVector) :
    List (BinaryMessage T) → EStateM String Nat (List (BinaryMessage T))
  | [], offset => .ok [] offset
  | object :: rest, offset =>
      match BinaryData.deserialize host data (Decoding.mk object offset) with
      | .error text state => .error text state.offset
      | .ok _ state =>
          match deserializeAll host data rest state.offset with
          | .error text offset => .error text offset
          | .ok messages offset => .ok (state.object :: messages) offset

variable {host : Host} {data : ByteVector} {offset : Nat}

/-- The type that a read at the offset finds. -/
def typeAt (host : Host) (data : ByteVector) (offset : Nat) : Short :=
  host.object 2 (data.slice offset 2)

theorem readMessageType_of_le (hin : offset + 2 ≤ data.size) :
    readMessageType host data offset =
      .ok () ⟨⟨typeAt host data offset⟩, offset + 2⟩ := by
  simp only [readMessageType, BinaryData.deserialize, assignRead, typeAt,
    Host.readBytes_of_le hin]

/-- How the message is read: first the type, which is written at once, then the
text. -/
theorem deserialize_eq (hoffset : offset ≤ data.size)
    (message : BinaryMessage Error) :
    BinaryData.deserialize host data (Decoding.mk message offset) =
      if data.size < offset + 2 then
        .error "Invalid data: too short to contain message type"
          ⟨message, offset⟩
      else
        match host.readStringFromBytes data (offset + 2) with
        | .error text next =>
            .error text ⟨{ message with
              messageType := typeAt host data offset }, next⟩
        | .ok str next =>
            .ok () ⟨⟨typeAt host data offset, ⟨str⟩⟩, next⟩ := by
  have hremaining : sizeSub data.size offset = data.size - offset :=
    if_pos hoffset
  simp only [BinaryData.deserialize, hremaining]
  by_cases hshort : data.size < offset + 2
  · rw [if_pos (by omega), if_pos hshort]
  · rw [if_neg (by omega), if_neg hshort,
      readMessageType_of_le (Nat.not_lt.1 hshort)]
    simp only [assignRead]
    cases host.readStringFromBytes data (offset + 2) <;> rfl

theorem deserialize_ok_iff (hin : offset + 2 ≤ data.size)
    (object message : BinaryMessage Error) (next : Nat) :
    BinaryData.deserialize host data (Decoding.mk object offset) =
        .ok () ⟨message, next⟩ ↔
      typeAt host data offset = message.messageType ∧
        host.readStringFromBytes data (offset + 2) =
          .ok message.messagePayload.errorMessage next := by
  obtain ⟨type, ⟨str⟩⟩ := message
  rw [deserialize_eq (by omega), if_neg (by omega)]
  cases host.readStringFromBytes data (offset + 2) with
  | ok value stop => simp [and_assoc]
  | error text stop => simp

/-- A failed call changes nothing exactly when nothing but the type can be
missing; once the type has been read, it has replaced the old one and the offset
has moved. -/
theorem failure_traceless_iff (hoffset : offset ≤ data.size)
    (message : BinaryMessage Error) :
    (∀ text after, BinaryData.deserialize host data
        (Decoding.mk message offset) = .error text after →
      after = ⟨message, offset⟩) ↔
      data.size < offset + 2 ∨ host.HoldsString data (offset + 2) := by
  rw [deserialize_eq hoffset]
  by_cases hshort : data.size < offset + 2
  · rw [if_pos hshort]
    simp [hshort, eq_comm]
  · rw [if_neg hshort, or_iff_right hshort]
    rcases Host.readStringFromBytes_cases (Nat.not_lt.1 hshort) with
      ⟨hholds, str, -, hread⟩ | ⟨hholds, text, next, hnext, hread⟩
    · rw [hread]
      simp [hholds]
    · rw [hread]
      refine iff_of_false ?_ hholds
      intro hall
      have hsame := hall text _ rfl
      rw [Decoding.mk.injEq] at hsame
      omega

def letterMessage : BinaryMessage Error := ⟨0, ⟨[0x41]⟩⟩

/-- A type and a length prefix of 1, and then nothing. -/
def cutBytes : ByteVector := ⟨[5, 0, 1, 0, 0, 0], by decide⟩

theorem failure_traceless_iff_cut :
    (∀ text after, BinaryData.deserialize Host.littleHost cutBytes
        (Decoding.mk letterMessage 0) = .error text after →
      after = ⟨letterMessage, 0⟩) ↔
      cutBytes.size < 0 + 2 ∨ Host.littleHost.HoldsString cutBytes (0 + 2) :=
  failure_traceless_iff (by decide) letterMessage

theorem failure_leaves_traces :
    ¬ ∀ (host : Host) (data : ByteVector) (offset : Nat)
      (message : BinaryMessage Error), offset ≤ data.size →
      ∀ text after, BinaryData.deserialize host data
          (Decoding.mk message offset) = .error text after →
        after = ⟨message, offset⟩ := by
  intro hclaim
  have hthrown : BinaryData.deserialize Host.littleHost cutBytes
      (Decoding.mk letterMessage 0) =
        .error "Not enough data to read string content"
          ⟨{ letterMessage with messageType := 5 }, 6⟩ := by
    rw [deserialize_eq (by decide)]
    rfl
  have hsame := hclaim _ _ _ _ (by decide) _ _ hthrown
  exact absurd hsame (by decide)

/-- The chars of the text keep their values, and the reader turns round neither
the type nor the length prefix. -/
def Survives (host : Host) (message : BinaryMessage Error) : Prop :=
  host.Widens message.messagePayload.errorMessage ∧
    (host.littleEndian = true ∨
      (beBytes 2 message.messageType.toNat).Palindrome ∧
        (beBytes 4 (Host.encodedLength
          message.messagePayload.errorMessage)).Palindrome)

section Sent

variable {before after : List UInt8} {message : BinaryMessage Error}

theorem serialize_eq (host : Host) (message : BinaryMessage Error) :
    BinaryData.serialize host message =
      (beBytes 2 message.messageType.toNat).reverse ++
        host.stringToBytes message.messagePayload.errorMessage :=
  congrArg (· ++ _) (host.appendBytes_eq [] message.messageType)

/-- The type found in a message that was sent. -/
theorem typeAt_sent_iff (host : Host)
    (hdata : data.bytes =
      before ++ (BinaryData.serialize host message ++ after)) :
    typeAt host data before.length = message.messageType ↔
      host.littleEndian = true ∨
        (beBytes 2 message.messageType.toNat).Palindrome := by
  rw [serialize_eq, List.append_assoc] at hdata
  rw [typeAt, ByteVector.slice_middle hdata (by simp)]
  exact host.object_reverse_iff message.messageType

/-- A message that was sent is read back, into any object, exactly when it
survives. -/
theorem deserialize_sent_iff (host : Host)
    (hshort : message.messagePayload.errorMessage.length < 2 ^ 30)
    (hdata : data.bytes = before ++ (BinaryData.serialize host message ++ after))
    (object : BinaryMessage Error) (next : Nat) :
    BinaryData.deserialize host data (Decoding.mk object before.length) =
        .ok () ⟨message, next⟩ ↔
      Survives host message ∧
        next = before.length + (BinaryData.serialize host message).length := by
  have htype := typeAt_sent_iff host hdata
  rw [serialize_eq, List.append_assoc, ← List.append_assoc before] at hdata
  have htext := Host.read_sent_iff hshort hdata next
  have hsize := congrArg List.length hdata
  rw [serialize_eq]
  simp only [List.length_append, List.length_reverse, length_beBytes]
    at hsize htext ⊢
  have hin : before.length + 2 ≤ data.size := by
    rw [ByteVector.size]
    omega
  rw [deserialize_ok_iff hin, htype, htext, Survives, Nat.add_assoc]
  constructor
  · rintro ⟨hfirst, ⟨hwidens, hsecond⟩, hnext⟩
    refine ⟨⟨hwidens, ?_⟩, hnext⟩
    rcases hfirst with hlittle | htwo
    · exact Or.inl hlittle
    · exact hsecond.imp_right fun hfour => ⟨htwo, hfour⟩
  · rintro ⟨⟨hwidens, hhost⟩, hnext⟩
    exact ⟨hhost.imp_right And.left,
      ⟨hwidens, hhost.imp_right And.right⟩, hnext⟩

end Sent

theorem deserializeAll_cons_ok_iff {T : Type} [BinaryData T]
    {object message : BinaryMessage T} {rest later : List (BinaryMessage T)}
    {stop : Nat} :
    deserializeAll host data (object :: rest) offset =
        .ok (message :: later) stop ↔
      ∃ next, BinaryData.deserialize host data (Decoding.mk object offset) =
          .ok () ⟨message, next⟩ ∧
        deserializeAll host data rest next = .ok later stop := by
  rw [deserializeAll]
  cases BinaryData.deserialize host data (Decoding.mk object offset) with
  | error text state => simp
  | ok value state =>
      obtain ⟨received, next⟩ := state
      simp only
      cases hrest : deserializeAll host data rest next with
      | error text offset => simp [hrest]
      | ok messages offset => simp [hrest, and_assoc]

/-- Messages sent back to back are read back, with one offset, exactly when each
of them survives. -/
theorem deserializeAll_sent_iff {before : List UInt8}
    {messages objects : List (BinaryMessage Error)}
    (hdata : data.bytes =
      before ++ messages.flatMap (BinaryData.serialize host))
    (hcount : objects.length = messages.length)
    (hshort : ∀ message ∈ messages,
      message.messagePayload.errorMessage.length < 2 ^ 30) :
    deserializeAll host data objects before.length =
        .ok messages data.size ↔
      ∀ message ∈ messages, Survives host message := by
  induction messages generalizing before objects with
  | nil =>
      obtain rfl : objects = [] := List.length_eq_zero_iff.1 hcount
      have hsize : data.size = before.length := by
        rw [ByteVector.size, hdata]
        simp
      simp [deserializeAll, hsize]
  | cons message later ih =>
      obtain ⟨object, rest, rfl⟩ : ∃ object rest, objects = object :: rest :=
        List.exists_cons_of_length_eq_add_one hcount
      obtain ⟨hfirst, hlater⟩ := List.forall_mem_cons.1 hshort
      rw [List.flatMap_cons] at hdata
      have hone := deserialize_sent_iff host hfirst hdata object
      rw [← List.append_assoc] at hdata
      have hrest := ih hdata (by simpa using hcount) hlater
      rw [deserializeAll_cons_ok_iff, List.forall_mem_cons, ← hrest,
        List.length_append]
      simp only [hone, and_assoc, exists_and_left, exists_eq_left]

theorem getMessageType_sent_iff {message : BinaryMessage Error}
    (hdata : data.bytes = BinaryData.serialize host message) :
    getMessageTypeFromBytes host data = .ok message.messageType ↔
      host.littleEndian = true ∨
        (beBytes 2 message.messageType.toNat).Palindrome := by
  have hsize : 2 ≤ data.size := by
    rw [ByteVector.size, hdata, serialize_eq]
    simp
  have htype := @typeAt_sent_iff data [] [] message host (by simpa using hdata)
  rw [getMessageTypeFromBytes, if_neg (Nat.not_lt.2 hsize),
    readMessageType_of_le (by omega), ← htype]
  simp

/-- The round trip, with the types looked up, succeeds exactly when every
message survives. -/
theorem round_trip_iff {messages objects : List (BinaryMessage Error)}
    (hdata : data.bytes = messages.flatMap (BinaryData.serialize host))
    (hcount : objects.length = messages.length)
    (hshort : ∀ message ∈ messages,
      message.messagePayload.errorMessage.length < 2 ^ 30) :
    (deserializeAll host data objects 0 = .ok messages data.size ∧
      ∀ message ∈ messages, ∀ bytes : ByteVector,
        bytes.bytes = BinaryData.serialize host message →
        getMessageTypeFromBytes host bytes = .ok message.messageType) ↔
      ∀ message ∈ messages, Survives host message := by
  have hall := @deserializeAll_sent_iff host data [] messages objects
    (by simpa using hdata) hcount hshort
  rw [List.length_nil] at hall
  rw [hall, and_iff_left_iff_imp]
  intro hsurvive message hmessage bytes hbytes
  rw [getMessageType_sent_iff hbytes]
  exact (hsurvive message hmessage).2.imp_right And.left

def letterBytes : ByteVector := ⟨[0, 0, 1, 0, 0, 0, 0x41], by decide⟩

theorem round_trip_iff_letter :
    (deserializeAll Host.littleHost letterBytes [⟨7, ⟨[]⟩⟩] 0 =
        .ok [letterMessage] letterBytes.size ∧
      ∀ message ∈ [letterMessage], ∀ bytes : ByteVector,
        bytes.bytes = BinaryData.serialize Host.littleHost message →
        getMessageTypeFromBytes Host.littleHost bytes =
          .ok message.messageType) ↔
      ∀ message ∈ [letterMessage], Survives Host.littleHost message :=
  round_trip_iff (by decide) (by decide) (by decide)

/-- The text of one char that is negative where plain `char` is signed. -/
def accentMessage : BinaryMessage Error := ⟨0, ⟨[0xE9]⟩⟩

def signedBytes : ByteVector :=
  ⟨[0, 0, 4, 0, 0, 0, 0xFF, 0xBF, 0xBF, 0xA9], by decide⟩

theorem round_trip_rejected :
    ¬ ∀ (host : Host) (data : ByteVector)
      (messages objects : List (BinaryMessage Error)),
      data.bytes = messages.flatMap (BinaryData.serialize host) →
      objects.length = messages.length →
      (∀ message ∈ messages,
        message.messagePayload.errorMessage.length < 2 ^ 30) →
      deserializeAll host data objects 0 = .ok messages data.size := by
  intro hclaim
  have hread := hclaim Host.littleHost signedBytes [accentMessage]
    [letterMessage] (by decide) (by decide) (by decide)
  have hthrown : deserializeAll Host.littleHost signedBytes [letterMessage] 0 =
      .error "Invalid UTF-8 sequence" 6 := by
    rw [deserializeAll, deserialize_eq (by decide)]
    rfl
  rw [hthrown] at hread
  simp at hread

end NetworkMessages

end VoiceServer

/-
Records of several fields, as a class derived from `BinaryData` sends them: its
`serialize` appends numbers and strings, and its `deserialize` reads the same
types in the same order with one offset.  The hosts at the two ends may differ.
-/
import VoiceServer.TextCodec

namespace VoiceServer

namespace NetworkMessages

inductive FieldType where
  | object (n : Nat)
  | string
deriving DecidableEq

inductive Field where
  | object (n : Nat) (value : BitVec (8 * n))
  | string (str : List UInt8)
deriving DecidableEq

def Field.type : Field → FieldType
  | .object n _ => .object n
  | .string _ => .string

namespace Host

/-- `append_bytes` at the type of the field. -/
def appendField (host : Host) (vec : List UInt8) : Field → List UInt8
  | .object n value => host.appendBytes n vec value
  | .string str => vec ++ host.stringToBytes str

def serializeFields (host : Host) (fields : List Field) : List UInt8 :=
  fields.foldl host.appendField []

/-- `read_bytes` at the type of the field. -/
def readField (host : Host) (data : ByteVector) :
    FieldType → EStateM String Nat Field
  | .object n => do
      return .object n (← host.readBytes n data)
  | .string => do
      return .string (← host.readStringFromBytes data)

def deserializeFields (host : Host) (data : ByteVector) :
    List FieldType → EStateM String Nat (List Field)
  | [] => pure []
  | type :: types => do
      let field ← host.readField data type
      let rest ← host.deserializeFields data types
      return field :: rest

end Host

/-- The reader does not turn the number round, or it makes no difference; the
chars of a string kept their values where they were written. -/
def Field.Survives (writer reader : Host) : Field → Prop
  | .object n value =>
      reader.littleEndian = true ∨ (beBytes n value.toNat).Palindrome
  | .string str =>
      writer.Widens str ∧ (reader.littleEndian = true ∨
        (beBytes 4 (Host.encodedLength str)).Palindrome)

namespace Host

variable {writer reader host : Host} {data : ByteVector}
  {before after : List UInt8} {fields : List Field}

/-- What a field adds to the vector. -/
def fieldBytes (host : Host) : Field → List UInt8
  | .object n value => (beBytes n value.toNat).reverse
  | .string str => host.stringToBytes str

theorem appendField_eq (vec : List UInt8) (field : Field) :
    host.appendField vec field = vec ++ host.fieldBytes field := by
  cases field with
  | object n value => exact host.appendBytes_eq vec value
  | string str => rfl

theorem serializeFields_eq (fields : List Field) :
    host.serializeFields fields = fields.flatMap host.fieldBytes := by
  have hfold : ∀ vec, fields.foldl host.appendField vec =
      vec ++ fields.flatMap host.fieldBytes := by
    induction fields with
    | nil => simp
    | cons field rest ih =>
        intro vec
        rw [List.foldl_cons, ih, appendField_eq, List.flatMap_cons,
          List.append_assoc]
  exact hfold []

/-- How the chars of a string are sent is up to the writer, and how its length
is read to the reader. -/
theorem read_between_iff (reader : Host) {str : List UInt8}
    (hshort : str.length < 2 ^ 30)
    (hdata : data.bytes = before ++ (writer.stringToBytes str ++ after))
    (next : Nat) :
    reader.readStringFromBytes data before.length = .ok str next ↔
      Field.Survives writer reader (.string str) ∧
        next = before.length + (writer.stringToBytes str).length := by
  rcases writer with ⟨writerEndian, charSigned⟩
  rcases reader with ⟨littleEndian, readerSigned⟩
  -- The host that is the writer to the chars, and the reader to the length.
  have hsame : stringToBytes ⟨writerEndian, charSigned⟩ str =
      stringToBytes ⟨littleEndian, charSigned⟩ str := by
    rw [stringToBytes_eq, stringToBytes_eq]
    rfl
  rw [hsame] at hdata ⊢
  exact @read_sent_iff ⟨littleEndian, charSigned⟩ data before after str hshort
    hdata next

theorem readField_sent_iff (reader : Host) {field : Field}
    (hshort : ∀ str, field = .string str → str.length < 2 ^ 30)
    (hdata : data.bytes = before ++ (writer.fieldBytes field ++ after))
    (next : Nat) :
    reader.readField data field.type before.length = .ok field next ↔
      field.Survives writer reader ∧
        next = before.length + (writer.fieldBytes field).length := by
  cases field with
  | object n value =>
      have hread : reader.readField data (.object n) before.length =
          .ok (.object n (reader.object n (beBytes n value.toNat).reverse))
            (before.length + n) := by
        have hbytes := @readBytes_sent reader n data before after value hdata
        simp only [readField, bind, EStateM.bind, hbytes]
        rfl
      rw [Field.type, hread, Field.Survives, ← object_reverse_iff, fieldBytes]
      simp [eq_comm]
  | string str =>
      have hread := read_between_iff reader (hshort str rfl) hdata next
      rw [fieldBytes, ← hread, Field.type, readField]
      simp only [bind, EStateM.bind]
      cases hresult : reader.readStringFromBytes data before.length with
      | ok result stop => simp [pure, EStateM.pure]
      | error text stop => simp

theorem deserializeFields_cons_ok_iff {type : FieldType} {types : List FieldType}
    {field : Field} {rest : List Field} {offset stop : Nat} :
    host.deserializeFields data (type :: types) offset =
        .ok (field :: rest) stop ↔
      ∃ next, host.readField data type offset = .ok field next ∧
        host.deserializeFields data types next = .ok rest stop := by
  rw [deserializeFields]
  simp only [bind, EStateM.bind]
  cases host.readField data type offset with
  | error text stop => simp
  | ok received next =>
      cases hrest : host.deserializeFields data types next with
      | error text stop => simp [hrest]
      | ok later stop => simp [pure, EStateM.pure, hrest, and_assoc]

/-- A record is read back, by any host and from the middle of any vector, exactly
when each of its fields survives. -/
theorem record_sent_iff
    (hshort : ∀ str, .string str ∈ fields → str.length < 2 ^ 30)
    (hdata : data.bytes = before ++ (writer.serializeFields fields ++ after))
    (stop : Nat) :
    reader.deserializeFields data (fields.map Field.type) before.length =
        .ok fields stop ↔
      (∀ field ∈ fields, field.Survives writer reader) ∧
        stop = before.length + (writer.serializeFields fields).length := by
  rw [serializeFields_eq] at hdata ⊢
  induction fields generalizing before with
  | nil => simp [deserializeFields, pure, EStateM.pure, eq_comm]
  | cons field rest ih =>
      rw [List.flatMap_cons, List.append_assoc] at hdata
      have hfirst := readField_sent_iff reader
        (fun str hstr => hshort str (hstr ▸ List.mem_cons_self)) hdata
      rw [← List.append_assoc] at hdata
      have hrest := ih (fun str hstr => hshort str (List.mem_cons_of_mem _ hstr))
        hdata
      rw [List.map_cons, deserializeFields_cons_ok_iff, List.forall_mem_cons,
        List.flatMap_cons, List.length_append, ← Nat.add_assoc]
      simp only [hfirst, and_assoc, exists_and_left, exists_eq_left]
      rw [List.length_append] at hrest
      rw [hrest]

/-- A `short`, a text with an accent and a `uint32_t`. -/
def sampleFields : List Field :=
  [.object 2 0x1234, .string [0x41, 0xE9], .object 4 7]

def sampleRecord : ByteVector :=
  ⟨[9, 0x34, 0x12, 3, 0, 0, 0, 0x41, 0xC3, 0xA9, 7, 0, 0, 0, 8], by decide⟩

theorem record_sent_iff_sample :
    littleHost.deserializeFields sampleRecord
        (sampleFields.map Field.type) 1 = .ok sampleFields 14 ↔
      (∀ field ∈ sampleFields, field.Survives unsignedHost littleHost) ∧
        14 = 1 + (unsignedHost.serializeFields sampleFields).length := by
  have hshort : ∀ str, Field.string str ∈ sampleFields → str.length < 2 ^ 30 := by
    intro str hstr
    obtain rfl : str = [0x41, 0xE9] := by simpa [sampleFields] using hstr
    decide
  exact @record_sent_iff unsignedHost littleHost sampleRecord [9] [8]
    sampleFields hshort (by decide) 14

end Host

end NetworkMessages

end VoiceServer

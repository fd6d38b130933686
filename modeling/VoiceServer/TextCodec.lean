/-
The strings of `BinaryData`: every `char` is widened to a code point, which is
encoded in one to four bytes behind a length prefix.  The decoder looks at the
lead bytes alone.
-/
import VoiceServer.BinaryData

namespace VoiceServer

namespace NetworkMessages

/-- What one round of the encoder adds to `utf8_length` and to `bytes`. -/
def encodeCodePoint (c : UInt32) : UInt32 × List UInt8 :=
  let unit (mark bits : UInt32) : UInt8 := (mark ||| bits).toUInt8
  if c ≤ 0x7F then (1, [c.toUInt8])
  else if c ≤ 0x7FF then
    (2, [unit 0xC0 (c >>> 6), unit 0x80 (c &&& 0x3F)])
  else if c ≤ 0xFFFF then
    (3, [unit 0xE0 (c >>> 12), unit 0x80 ((c >>> 6) &&& 0x3F),
      unit 0x80 (c &&& 0x3F)])
  else
    (4, [unit 0xF0 (c >>> 18), unit 0x80 ((c >>> 12) &&& 0x3F),
      unit 0x80 ((c >>> 6) &&& 0x3F), unit 0x80 (c &&& 0x3F)])

/-- The loop of the decoder, from `cur` to `end`; no value where it throws. -/
def decodeContent : List UInt8 → Option (List UInt8)
  | [] => some []
  | lead :: cur =>
      if lead &&& 0x80 = 0 then (decodeContent cur).map (lead :: ·)
      else if lead &&& 0xE0 = 0xC0 then
        match cur with
        | second :: cur =>
            let codepoint := ((lead &&& 0x1F).toUInt32 <<< 6) |||
              (second &&& 0x3F).toUInt32
            (decodeContent cur).map (codepoint.toUInt8 :: ·)
        | [] => none
      else if lead &&& 0xF0 = 0xE0 then
        match cur with
        | second :: third :: cur =>
            let codepoint := ((lead &&& 0x0F).toUInt32 <<< 12) |||
              ((second &&& 0x3F).toUInt32 <<< 6) ||| (third &&& 0x3F).toUInt32
            (decodeContent cur).map (codepoint.toUInt8 :: ·)
        | _ => none
      else if lead &&& 0xF8 = 0xF0 then
        match cur with
        | second :: third :: fourth :: cur =>
            let codepoint := ((lead &&& 0x07).toUInt32 <<< 18) |||
              ((second &&& 0x3F).toUInt32 <<< 12) |||
              ((third &&& 0x3F).toUInt32 <<< 6) ||| (fourth &&& 0x3F).toUInt32
            (decodeContent cur).map (codepoint.toUInt8 :: ·)
        | _ => none
      else none

namespace Host

/-- A plain `char`, given by its byte, converted to `char32_t`. -/
def codePoint (host : Host) (char : UInt8) : UInt32 :=
  if host.charSigned then char.toInt8.toInt32.toUInt32 else char.toUInt32

/-- One round of the encoder, on `utf8_length` and `bytes`. -/
def pushChar (host : Host) (encoded : UInt32 × List UInt8) (char : UInt8) :
    UInt32 × List UInt8 :=
  let added := encodeCodePoint (host.codePoint char)
  (encoded.1 + added.1, encoded.2 ++ added.2)

/-- A `std::string` is given by its bytes. -/
def stringToBytes (host : Host) (str : List UInt8) : List UInt8 :=
  let encoded := str.foldl host.pushChar (0, [])
  host.appendBytes 4 [] encoded.1.toBitVec ++ encoded.2

def readStringFromBytes (host : Host) (data : ByteVector) :
    EStateM String Nat (List UInt8) := fun offset =>
  if data.size < sizeAdd offset 4 then
    .error "Not enough data to read string length" offset
  else
    match host.readBytes 4 data offset with
    | .error text offset => .error text offset
    | .ok utf8Length offset =>
        if data.size < sizeAdd offset utf8Length.toNat then
          .error "Not enough data to read string content" offset
        else
          match decodeContent (data.slice offset utf8Length.toNat) with
          | none => .error "Invalid UTF-8 sequence" offset
          | some result => .ok result (sizeAdd offset utf8Length.toNat)

end Host

example : Host.littleHost.stringToBytes [0x41, 0xE9] =
    [5, 0, 0, 0, 0x41, 0xFF, 0xBF, 0xBF, 0xA9] := by
  decide

example : decodeContent [0x41, 0xC3, 0xA9, 0xC0, 0x80] =
    some [0x41, 0xE9, 0] := by
  decide

theorem forall_byte (P : UInt8 → Prop) (hall : ∀ bits : BitVec 8, P ⟨bits⟩)
    (byte : UInt8) : P byte :=
  hall byte.toBitVec

/-- The char of a two-byte sequence. -/
def pairChar (lead second : UInt8) : UInt8 :=
  (((lead &&& 0x1F).toUInt32 <<< 6) ||| (second &&& 0x3F).toUInt32).toUInt8

/-- Lead and second byte of the chars from 0x80 on. -/
def CharPair (lead second : UInt8) : Prop :=
  (lead = 0xC2 ∨ lead = 0xC3) ∧ 0x80 ≤ second ∧ second < 0xC0

instance (lead second : UInt8) : Decidable (CharPair lead second) :=
  inferInstanceAs (Decidable (_ ∧ _))

/-- The bytes of the chars from 0x80 on. -/
def highPair (char : UInt8) : UInt8 × UInt8 :=
  ((0xC0 : UInt8) ||| (char >>> 6), (0x80 : UInt8) ||| (char &&& 0x3F))

theorem codePoint_ascii : ∀ char : UInt8, char < 0x80 →
    char.toInt8.toInt32.toUInt32 = char.toUInt32 :=
  forall_byte _ (by decide +kernel)

theorem encodeCodePoint_ascii : ∀ char : UInt8, char < 0x80 →
    encodeCodePoint char.toUInt32 = (1, [char]) :=
  forall_byte _ (by decide +kernel)

/-- Sign extension makes 0xFF the lead byte. -/
theorem encodeCodePoint_signed : ∀ char : UInt8, 0x80 ≤ char →
    (encodeCodePoint char.toInt8.toInt32.toUInt32).2.head? = some 0xFF :=
  forall_byte _ (by decide +kernel)

theorem encodeCodePoint_high : ∀ char : UInt8, 0x80 ≤ char →
    encodeCodePoint char.toUInt32 =
        (2, [(highPair char).1, (highPair char).2]) ∧
      CharPair (highPair char).1 (highPair char).2 ∧
      pairChar (highPair char).1 (highPair char).2 = char :=
  forall_byte _ (by decide +kernel)

theorem encodeCodePoint_pairChar {lead second : UInt8}
    (hpair : CharPair lead second) :
    encodeCodePoint (pairChar lead second).toUInt32 = (2, [lead, second]) ∧
      0x80 ≤ pairChar lead second := by
  have hbytes : ∀ second : UInt8, 0x80 ≤ second → second < 0xC0 →
      ∀ lead ∈ [(0xC2 : UInt8), 0xC3],
        encodeCodePoint (pairChar lead second).toUInt32 = (2, [lead, second]) ∧
        0x80 ≤ pairChar lead second :=
    forall_byte _ (by decide +kernel)
  obtain ⟨hlead, hlow, hhigh⟩ := hpair
  exact hbytes second hlow hhigh lead (by simpa using hlead)

/-- The bytes that one char adds to the content. -/
inductive CharUnits (host : Host) : UInt8 → List UInt8 → Prop
  | ascii {char : UInt8} (hascii : char < 0x80) : CharUnits host char [char]
  | pair {lead second : UInt8} (hchar : host.charSigned = false)
      (hpair : CharPair lead second) :
      CharUnits host (pairChar lead second) [lead, second]
  | signed {char : UInt8} (rest : List UInt8) (hchar : host.charSigned = true)
      (hhigh : 0x80 ≤ char) : CharUnits host char (0xFF :: rest)

namespace Host

variable (host : Host)

/-- The bytes behind the length prefix. -/
def content (str : List UInt8) : List UInt8 :=
  str.flatMap fun char => (encodeCodePoint (host.codePoint char)).2

theorem charUnits (char : UInt8) :
    CharUnits host char (encodeCodePoint (host.codePoint char)).2 := by
  by_cases hascii : char < 0x80
  · have hpoint : host.codePoint char = char.toUInt32 := by
      rw [codePoint]
      split
      · exact codePoint_ascii char hascii
      · rfl
    rw [hpoint, encodeCodePoint_ascii char hascii]
    exact .ascii hascii
  · have hhigh := UInt8.not_lt.1 hascii
    cases hchar : host.charSigned with
    | true =>
        rw [codePoint, if_pos hchar]
        obtain ⟨rest, hrest⟩ :=
          List.head?_eq_some_iff.1 (encodeCodePoint_signed char hhigh)
        rw [hrest]
        exact .signed rest hchar hhigh
    | false =>
        obtain ⟨hunits, hpair, hvalue⟩ := encodeCodePoint_high char hhigh
        have hcase := CharUnits.pair hchar hpair
        rw [hvalue] at hcase
        rw [codePoint, if_neg (by simp [hchar]), hunits]
        exact hcase

theorem length_units (c : UInt32) :
    (encodeCodePoint c).1 = UInt32.ofNat (encodeCodePoint c).2.length := by
  unfold encodeCodePoint
  split_ifs <;> rfl

theorem foldl_pushChar (str : List UInt8) (length : Nat) (bytes : List UInt8) :
    str.foldl host.pushChar (UInt32.ofNat length, bytes) =
      (UInt32.ofNat (length + (host.content str).length),
        bytes ++ host.content str) := by
  induction str generalizing length bytes with
  | nil => simp [content]
  | cons char rest ih =>
      rw [List.foldl_cons, pushChar, length_units, ← UInt32.ofNat_add, ih]
      simp only [content, List.flatMap_cons, List.length_append,
        Nat.add_assoc, List.append_assoc]

/-- The length prefix counts modulo 2^32. -/
theorem stringToBytes_eq (str : List UInt8) :
    host.stringToBytes str =
      (beBytes 4 ((host.content str).length % 2 ^ 32)).reverse ++
        host.content str := by
  have hfold := host.foldl_pushChar str 0 []
  rw [show UInt32.ofNat 0 = 0 from rfl] at hfold
  rw [stringToBytes, hfold, appendBytes_eq]
  simp

end Host

/-- The contents that the decoder accepts: a lead byte says how many bytes are
skipped, whatever they are. -/
inductive Accepted : List UInt8 → Prop
  | nil : Accepted []
  | one {lead : UInt8} {rest : List UInt8} (hlead : lead < 0x80)
      (hrest : Accepted rest) : Accepted (lead :: rest)
  | two {lead second : UInt8} {rest : List UInt8}
      (hlead : 0xC0 ≤ lead ∧ lead < 0xE0) (hrest : Accepted rest) :
      Accepted (lead :: second :: rest)
  | three {lead second third : UInt8} {rest : List UInt8}
      (hlead : 0xE0 ≤ lead ∧ lead < 0xF0) (hrest : Accepted rest) :
      Accepted (lead :: second :: third :: rest)
  | four {lead second third fourth : UInt8} {rest : List UInt8}
      (hlead : 0xF0 ≤ lead ∧ lead < 0xF8) (hrest : Accepted rest) :
      Accepted (lead :: second :: third :: fourth :: rest)

theorem lead_one : ∀ lead : UInt8, lead &&& 0x80 = 0 ↔ lead < 0x80 :=
  forall_byte _ (by decide +kernel)

theorem lead_two : ∀ lead : UInt8,
    (¬ lead &&& 0x80 = 0 ∧ lead &&& 0xE0 = 0xC0) ↔
      0xC0 ≤ lead ∧ lead < 0xE0 :=
  forall_byte _ (by decide +kernel)

theorem lead_three : ∀ lead : UInt8,
    (¬ lead &&& 0x80 = 0 ∧ ¬ lead &&& 0xE0 = 0xC0 ∧ lead &&& 0xF0 = 0xE0) ↔
      0xE0 ≤ lead ∧ lead < 0xF0 :=
  forall_byte _ (by decide +kernel)

theorem lead_four : ∀ lead : UInt8,
    (¬ lead &&& 0x80 = 0 ∧ ¬ lead &&& 0xE0 = 0xC0 ∧
      ¬ lead &&& 0xF0 = 0xE0 ∧ lead &&& 0xF8 = 0xF0) ↔
      0xF0 ≤ lead ∧ lead < 0xF8 :=
  forall_byte _ (by decide +kernel)

section Decoder

variable {lead second : UInt8} {rest : List UInt8}

theorem decodeContent_one (hlead : lead < 0x80) :
    decodeContent (lead :: rest) = (decodeContent rest).map (lead :: ·) := by
  rw [decodeContent.eq_def]
  exact if_pos ((lead_one lead).2 hlead)

theorem decodeContent_two (hlead : 0xC0 ≤ lead ∧ lead < 0xE0) :
    decodeContent (lead :: second :: rest) =
      (decodeContent rest).map (pairChar lead second :: ·) := by
  obtain ⟨hhigh, hpair⟩ := (lead_two lead).2 hlead
  rw [decodeContent, if_neg hhigh, if_pos hpair]
  rfl

theorem decodeContent_cut (hlead : 0xC0 ≤ lead ∧ lead < 0xE0) :
    decodeContent [lead] = none := by
  obtain ⟨hhigh, hpair⟩ := (lead_two lead).2 hlead
  rw [decodeContent, if_neg hhigh, if_pos hpair]

theorem decodeContent_signed : decodeContent (0xFF :: rest) = none := by
  rw [decodeContent.eq_def]
  rfl

end Decoder

theorem decodeContent_isSome_iff (content : List UInt8) :
    (decodeContent content).isSome ↔ Accepted content := by
  constructor
  · fun_induction decodeContent content with
    | case1 => exact fun _ => .nil
    | case2 lead cur hone ih =>
        rw [Option.isSome_map]
        exact fun hsome => .one ((lead_one lead).1 hone) (ih hsome)
    | case3 lead hhigh htwo second cur codepoint ih =>
        rw [Option.isSome_map]
        exact fun hsome =>
          .two ((lead_two lead).1 ⟨hhigh, htwo⟩) (ih hsome)
    | case5 lead hhigh htwo hthree second third cur codepoint ih =>
        rw [Option.isSome_map]
        exact fun hsome =>
          .three ((lead_three lead).1 ⟨hhigh, htwo, hthree⟩) (ih hsome)
    | case7 lead hhigh htwo hthree hfour second third fourth cur codepoint ih =>
        rw [Option.isSome_map]
        exact fun hsome =>
          .four ((lead_four lead).1 ⟨hhigh, htwo, hthree, hfour⟩) (ih hsome)
    | _ => simp
  · intro haccepted
    induction haccepted with
    | nil => rfl
    | one hlead hrest ih => rw [decodeContent_one hlead, Option.isSome_map, ih]
    | two hlead hrest ih => rw [decodeContent_two hlead, Option.isSome_map, ih]
    | three hlead hrest ih =>
        obtain ⟨hhigh, htwo, hthree⟩ := (lead_three _).2 hlead
        rw [decodeContent, if_neg hhigh, if_neg htwo, if_pos hthree]
        rw [Option.isSome_map, ih]
    | four hlead hrest ih =>
        obtain ⟨hhigh, htwo, hthree, hfour⟩ := (lead_four _).2 hlead
        rw [decodeContent, if_neg hhigh, if_neg htwo, if_neg hthree,
          if_pos hfour]
        rw [Option.isSome_map, ih]

/-- The chars of a string keep their values on the way to code points. -/
def Host.Widens (host : Host) (str : List UInt8) : Prop :=
  host.charSigned = false ∨ ∀ char ∈ str, char < 0x80

/-- The contents that the encoder produces where plain `char` is unsigned. -/
inductive Canonical : List UInt8 → Prop
  | nil : Canonical []
  | ascii {lead : UInt8} {rest : List UInt8} (hlead : lead < 0x80)
      (hrest : Canonical rest) : Canonical (lead :: rest)
  | pair {lead second : UInt8} {rest : List UInt8} (hpair : CharPair lead second)
      (hrest : Canonical rest) : Canonical (lead :: second :: rest)

theorem CharPair.lead_range {lead second : UInt8}
    (hpair : CharPair lead second) : 0xC0 ≤ lead ∧ lead < 0xE0 := by
  rcases hpair.1 with rfl | rfl
  · decide
  · decide

namespace Host

variable {host : Host}

theorem content_cons (host : Host) (char : UInt8) (str : List UInt8) :
    host.content (char :: str) =
      (encodeCodePoint (host.codePoint char)).2 ++ host.content str :=
  rfl

/-- One char in front of a string, with the cases of its bytes. -/
theorem content_cases (host : Host) (char : UInt8) (str : List UInt8) :
    ∃ units, CharUnits host char units ∧
      host.content (char :: str) = units ++ host.content str :=
  ⟨_, host.charUnits char, rfl⟩

theorem Widens.tail {char : UInt8} {str : List UInt8}
    (hwidens : host.Widens (char :: str)) : host.Widens str :=
  hwidens.imp_right fun hall c hc => hall c (List.mem_cons_of_mem char hc)

theorem Widens.not_signed {char : UInt8} {str : List UInt8}
    (hwidens : host.Widens (char :: str)) (hsigned : host.charSigned = true) :
    ¬ 0x80 ≤ char := by
  rcases hwidens with hunsigned | hall
  · simp [hsigned] at hunsigned
  · exact UInt8.not_le.2 (hall char List.mem_cons_self)

theorem canonical_content (hchar : host.charSigned = false)
    (str : List UInt8) : Canonical (host.content str) := by
  induction str with
  | nil => exact .nil
  | cons char rest ih =>
      obtain ⟨units, hunits, hcontent⟩ := host.content_cases char rest
      rw [hcontent]
      cases hunits with
      | ascii hascii => exact .ascii hascii ih
      | pair hunsigned hpair => exact .pair hpair ih
      | signed tail hsigned hhigh => simp [hchar] at hsigned

/-- Every canonical content is the encoding of what it decodes to. -/
theorem content_of_canonical (hchar : host.charSigned = false)
    {bytes str : List UInt8} (hcanonical : Canonical bytes)
    (hdecode : decodeContent bytes = some str) : host.content str = bytes := by
  have hpoint : ∀ char, host.codePoint char = char.toUInt32 := by
    intro char
    simp [codePoint, hchar]
  induction hcanonical generalizing str with
  | nil =>
      obtain rfl : [] = str := Option.some.inj hdecode
      rfl
  | ascii hlead hrest ih =>
      rw [decodeContent_one hlead, Option.map_eq_some_iff] at hdecode
      obtain ⟨rest, hdecode, rfl⟩ := hdecode
      rw [content_cons, hpoint, encodeCodePoint_ascii _ hlead, ih hdecode]
      rfl
  | pair hpair hrest ih =>
      rw [decodeContent_two hpair.lead_range, Option.map_eq_some_iff] at hdecode
      obtain ⟨rest, hdecode, rfl⟩ := hdecode
      rw [content_cons, hpoint, (encodeCodePoint_pairChar hpair).1, ih hdecode]
      rfl

theorem decodeContent_content {str : List UInt8} (hwidens : host.Widens str) :
    decodeContent (host.content str) = some str := by
  induction str with
  | nil => rfl
  | cons char rest ih =>
      obtain ⟨units, hunits, hcontent⟩ := host.content_cases char rest
      rw [hcontent]
      cases hunits with
      | ascii hascii =>
          rw [List.singleton_append, decodeContent_one hascii,
            ih hwidens.tail]
          rfl
      | pair hunsigned hpair =>
          rw [List.cons_append, List.singleton_append,
            decodeContent_two hpair.lead_range, ih hwidens.tail]
          rfl
      | signed tail hsigned hhigh =>
          exact absurd hhigh (hwidens.not_signed hsigned)

theorem eq_nil_of_decodes {bytes : List UInt8} :
    decodeContent bytes = some [] → bytes = [] := by
  fun_induction decodeContent bytes <;> simp

/-- No other beginning of what was sent decodes to the string. -/
theorem eq_content_of_decodes {str bytes after : List UInt8}
    (hbytes : bytes <+: host.content str ++ after)
    (hdecode : decodeContent bytes = some str) :
    host.Widens str ∧ bytes = host.content str := by
  induction str generalizing bytes with
  | nil => exact ⟨Or.inr (by simp), eq_nil_of_decodes hdecode⟩
  | cons char rest ih =>
      obtain ⟨units, hunits, hcontent⟩ := host.content_cases char rest
      rw [hcontent, List.append_assoc] at hbytes
      rw [hcontent]
      cases hunits with
      | ascii hascii =>
          rcases List.prefix_cons_iff.1 hbytes with rfl | ⟨tail, rfl, htail⟩
          · simp [decodeContent] at hdecode
          · rw [decodeContent_one hascii, Option.map_eq_some_iff] at hdecode
            obtain ⟨str, hdecode, hcons⟩ := hdecode
            obtain rfl := (List.cons.inj hcons).2
            obtain ⟨hwidens, rfl⟩ := ih htail hdecode
            exact ⟨hwidens.imp_right fun hall =>
              List.forall_mem_cons.2 ⟨hascii, hall⟩, rfl⟩
      | pair hunsigned hpair =>
          rcases List.prefix_cons_iff.1 hbytes with rfl | ⟨first, rfl, hfirst⟩
          · simp [decodeContent] at hdecode
          rcases List.prefix_cons_iff.1 hfirst with rfl | ⟨tail, rfl, htail⟩
          · simp [decodeContent_cut hpair.lead_range] at hdecode
          · rw [decodeContent_two hpair.lead_range, Option.map_eq_some_iff]
              at hdecode
            obtain ⟨str, hdecode, hcons⟩ := hdecode
            obtain rfl := (List.cons.inj hcons).2
            obtain ⟨-, rfl⟩ := ih htail hdecode
            exact ⟨Or.inl hunsigned, rfl⟩
      | signed tail hsigned hhigh =>
          rcases List.prefix_cons_iff.1 hbytes with rfl | ⟨tail, rfl, htail⟩
          · simp [decodeContent] at hdecode
          · simp [decodeContent_signed] at hdecode

/-- The length prefix, as the host reads it. -/
def utf8Length (host : Host) (data : ByteVector) (offset : Nat) : Nat :=
  (host.object 4 (data.slice offset 4)).toNat

/-- The bytes behind the prefix that the decoder goes through. -/
def stringContent (host : Host) (data : ByteVector) (offset : Nat) :
    List UInt8 :=
  data.slice (offset + 4) (host.utf8Length data offset)

theorem utf8Length_lt (host : Host) (data : ByteVector) (offset : Nat) :
    host.utf8Length data offset < 2 ^ 32 :=
  (host.object 4 (data.slice offset 4)).isLt

/-- The ways out of the reader; the prefix stays consumed in the later two. -/
theorem readStringFromBytes_eq {data : ByteVector} {offset : Nat}
    (hoffset : offset ≤ data.size) :
    host.readStringFromBytes data offset =
      if data.size < offset + 4 then
        .error "Not enough data to read string length" offset
      else if data.size < offset + 4 + host.utf8Length data offset then
        .error "Not enough data to read string content" (offset + 4)
      else
        match decodeContent (host.stringContent data offset) with
        | none => .error "Invalid UTF-8 sequence" (offset + 4)
        | some result =>
            .ok result (offset + 4 + host.utf8Length data offset) := by
  have hfits : data.size < 2 ^ 63 := data.fits
  have hlength := host.utf8Length_lt data offset
  have hprefix : sizeAdd offset 4 = offset + 4 := Nat.mod_eq_of_lt (by omega)
  have hcontent : sizeAdd (offset + 4) (host.utf8Length data offset) =
      offset + 4 + host.utf8Length data offset := Nat.mod_eq_of_lt (by omega)
  rw [readStringFromBytes, hprefix]
  by_cases hshort : data.size < offset + 4
  · rw [if_pos hshort, if_pos hshort]
  · rw [if_neg hshort, if_neg hshort,
      readBytes_of_le (Nat.not_lt.1 hshort)]
    simp only [utf8Length] at hcontent
    simp only [hcontent, stringContent, utf8Length]
    rfl

/-- A string that was read encodes to the bytes consumed exactly when they are
the encoder's: the prefix not one that a big-endian host turned round, and no
byte of the content one that the encoder would have put differently. -/
theorem reencode_iff (hchar : host.charSigned = false) {data : ByteVector}
    {offset next : Nat} {str : List UInt8} (hoffset : offset ≤ data.size)
    (hread : host.readStringFromBytes data offset = .ok str next) :
    host.stringToBytes str = data.slice offset (next - offset) ↔
      (host.littleEndian = true ∨ (data.slice offset 4).Palindrome) ∧
        Canonical (host.stringContent data offset) := by
  rw [readStringFromBytes_eq hoffset] at hread
  split at hread
  · simp at hread
  split at hread
  · simp at hread
  next hprefix hcontent =>
  split at hread
  · simp at hread
  next result hdecode =>
  obtain ⟨rfl, rfl⟩ : result = str ∧ _ = next := by simpa using hread
  have hfour : (data.slice offset 4).length = 4 :=
    ByteVector.length_slice (Nat.not_lt.1 hprefix)
  have hlength : (host.stringContent data offset).length =
      host.utf8Length data offset :=
    ByteVector.length_slice (Nat.not_lt.1 hcontent)
  have hslice : data.slice offset
      (offset + 4 + host.utf8Length data offset - offset) =
        data.slice offset 4 ++ host.stringContent data offset := by
    rw [Nat.add_assoc, Nat.add_sub_cancel_left, ByteVector.slice_add]
    rfl
  rw [hslice, stringToBytes_eq, ← reverse_object_iff host hfour]
  constructor
  · intro hsame
    obtain ⟨hbytes, hcontent⟩ := List.append_inj hsame (by simp [hfour])
    refine ⟨?_, hcontent ▸ canonical_content hchar result⟩
    rw [hcontent, hlength, Nat.mod_eq_of_lt (host.utf8Length_lt ..)] at hbytes
    exact hbytes
  · rintro ⟨hbytes, hcanonical⟩
    rw [content_of_canonical hchar hcanonical hdecode, hlength,
      Nat.mod_eq_of_lt (host.utf8Length_lt ..)]
    exact congrArg (· ++ _) hbytes

/-- Canonical contents that decode to one string are one content. -/
theorem canonical_unique {left right str : List UInt8} (hleft : Canonical left)
    (hright : Canonical right) (hleftDecode : decodeContent left = some str)
    (hrightDecode : decodeContent right = some str) : left = right := by
  have hencoded := content_of_canonical (show Host.charSigned ⟨true, false⟩ =
    false from rfl) hleft hleftDecode
  rw [← hencoded]
  exact content_of_canonical rfl hright hrightDecode

/-- What the reader wants to find: the whole prefix, as many bytes as it says,
and nothing among them that the decoder turns down. -/
def HoldsString (host : Host) (data : ByteVector) (offset : Nat) : Prop :=
  offset + 4 + host.utf8Length data offset ≤ data.size ∧
    Accepted (host.stringContent data offset)

/-- A read that fails is one of no such string, and keeps no promise about the
offset but that it does not go back. -/
theorem readStringFromBytes_cases {data : ByteVector} {offset : Nat}
    (hoffset : offset ≤ data.size) :
    (host.HoldsString data offset ∧ ∃ str,
        decodeContent (host.stringContent data offset) = some str ∧
        host.readStringFromBytes data offset =
          .ok str (offset + 4 + host.utf8Length data offset)) ∨
      (¬ host.HoldsString data offset ∧ ∃ text next, offset ≤ next ∧
        host.readStringFromBytes data offset = .error text next) := by
  rw [readStringFromBytes_eq hoffset, HoldsString, ← decodeContent_isSome_iff]
  by_cases hprefix : data.size < offset + 4
  · rw [if_pos hprefix]
    exact Or.inr ⟨fun hholds => by omega, _, _, Nat.le_refl _, rfl⟩
  rw [if_neg hprefix]
  by_cases hcontent : data.size < offset + 4 + host.utf8Length data offset
  · rw [if_pos hcontent]
    exact Or.inr ⟨fun hholds => by omega, _, _, Nat.le_add_right _ _, rfl⟩
  rw [if_neg hcontent]
  cases hdecode : decodeContent (host.stringContent data offset) with
  | none => exact Or.inr ⟨by simp, _, _, Nat.le_add_right _ _, rfl⟩
  | some str => exact Or.inl ⟨⟨Nat.not_lt.1 hcontent, rfl⟩, str, rfl, rfl⟩

/-- The bytes of a string whose chars all keep their values. -/
def encodedLength (str : List UInt8) : Nat :=
  str.length + str.countP (0x80 ≤ ·)

theorem length_content {str : List UInt8} (hwidens : host.Widens str) :
    (host.content str).length = encodedLength str := by
  induction str with
  | nil => rfl
  | cons char rest ih =>
      obtain ⟨units, hunits, hcontent⟩ := host.content_cases char rest
      rw [hcontent, List.length_append, ih hwidens.tail, encodedLength,
        encodedLength,
        List.length_cons, List.countP_cons]
      cases hunits with
      | ascii hascii =>
          rw [if_neg (by simpa using hascii)]
          simp only [List.length_singleton]
          omega
      | pair hunsigned hpair =>
          rw [if_pos (by simpa using (encodeCodePoint_pairChar hpair).2)]
          simp only [List.length_cons, List.length_nil]
          omega
      | signed tail hsigned hhigh =>
          exact absurd hhigh (hwidens.not_signed hsigned)

theorem length_content_le (str : List UInt8) :
    (host.content str).length ≤ 4 * str.length := by
  induction str with
  | nil => simp [content]
  | cons char rest ih =>
      have hunits : (encodeCodePoint (host.codePoint char)).2.length ≤ 4 := by
        unfold encodeCodePoint
        split_ifs <;> simp
      rw [content_cons, List.length_append, List.length_cons]
      omega

section Sent

variable {data : ByteVector} {before after str : List UInt8}

theorem length_content_lt (hshort : str.length < 2 ^ 30) :
    (host.content str).length < 2 ^ 32 := by
  have hle := @length_content_le host str
  omega

/-- A string that is not too long is sent with its length. -/
theorem stringToBytes_of_short (hshort : str.length < 2 ^ 30) :
    host.stringToBytes str =
      (beBytes 4 (host.content str).length).reverse ++ host.content str := by
  rw [stringToBytes_eq, Nat.mod_eq_of_lt (length_content_lt hshort)]

/-- When the reader finds the length that was sent. -/
theorem utf8Length_sent_iff (hshort : str.length < 2 ^ 30)
    (hdata : data.bytes = before ++ (host.stringToBytes str ++ after)) :
    host.utf8Length data before.length = (host.content str).length ↔
      host.littleEndian = true ∨
        (beBytes 4 (host.content str).length).Palindrome := by
  rw [stringToBytes_of_short hshort, List.append_assoc] at hdata
  have hvalue : (BitVec.ofNat 32 (host.content str).length).toNat =
      (host.content str).length := Nat.mod_eq_of_lt (length_content_lt hshort)
  have hobject := object_reverse_iff (n := 4) host
    (BitVec.ofNat 32 (host.content str).length)
  rw [hvalue] at hobject
  rw [utf8Length, ByteVector.slice_middle hdata (by simp), ← hobject,
    ← BitVec.toNat_inj, hvalue]

/-- What the decoder goes through begins with the content that was sent, or is a
beginning of it. -/
theorem stringContent_sent (hshort : str.length < 2 ^ 30)
    (hdata : data.bytes = before ++ (host.stringToBytes str ++ after)) :
    host.stringContent data before.length =
      (host.content str ++ after).take
        (host.utf8Length data before.length) := by
  have hfour : (before ++
      (beBytes 4 (host.content str).length).reverse).length =
        before.length + 4 := by simp
  rw [stringToBytes_of_short hshort, List.append_assoc,
    ← List.append_assoc before] at hdata
  rw [stringContent, ByteVector.slice, hdata, ← hfour, List.drop_left]

/-- A string that was sent is read back exactly when its chars kept their
values and the reader does not turn the prefix round. -/
theorem read_sent_iff (hshort : str.length < 2 ^ 30)
    (hdata : data.bytes = before ++ (host.stringToBytes str ++ after))
    (next : Nat) :
    host.readStringFromBytes data before.length = .ok str next ↔
      (host.Widens str ∧ (host.littleEndian = true ∨
        (beBytes 4 (encodedLength str)).Palindrome)) ∧
      next = before.length + (host.stringToBytes str).length := by
  have hlength := utf8Length_sent_iff hshort hdata
  have hcontent := stringContent_sent hshort hdata
  have hsize := congrArg List.length hdata
  rw [stringToBytes_of_short hshort] at hsize ⊢
  simp only [List.length_append, List.length_reverse, length_beBytes]
    at hsize ⊢
  have hoffset : before.length ≤ data.size := by
    rw [ByteVector.size]
    omega
  have hcases := @readStringFromBytes_cases host data before.length hoffset
  constructor
  · intro hread
    rcases hcases with ⟨hholds, result, hdecode, hresult⟩ |
      ⟨-, text, stop, -, herror⟩
    · obtain ⟨rfl, rfl⟩ : result = str ∧ _ = next := by
        simpa [hresult] using hread
      rw [hcontent] at hdecode
      obtain ⟨hwidens, hsame⟩ :=
        eq_content_of_decodes (List.take_prefix _ _) hdecode
      have hequal : host.utf8Length data before.length =
          (host.content result).length := by
        have htaken := congrArg List.length hsame
        have hin := hholds.1
        rw [ByteVector.size] at hin
        rw [List.length_take, List.length_append] at htaken
        omega
      rw [← length_content hwidens]
      exact ⟨⟨hwidens, hlength.1 hequal⟩, by omega⟩
    · simp [herror] at hread
  · rintro ⟨⟨hwidens, hhost⟩, rfl⟩
    rw [← length_content hwidens] at hhost
    have hequal := hlength.2 hhost
    have hdecode : decodeContent (host.stringContent data before.length) =
        some str := by
      rw [hcontent, hequal, List.take_left, decodeContent_content hwidens]
    rcases hcases with ⟨-, result, hresult, hread⟩ | ⟨hholds, -⟩
    · obtain rfl : result = str := by simpa [hdecode] using hresult.symm
      rw [hread, hequal, Nat.add_assoc]
    · refine absurd ⟨?_, ?_⟩ hholds
      · rw [hequal, ByteVector.size]
        omega
      · rw [← decodeContent_isSome_iff, hdecode]
        rfl

end Sent

def unsignedHost : Host := ⟨true, false⟩

def accentBytes : ByteVector := ⟨[2, 0, 0, 0, 0xC3, 0xA9], by decide⟩

theorem reencode_iff_accent :
    unsignedHost.stringToBytes [0xE9] = accentBytes.slice 0 (6 - 0) ↔
      (unsignedHost.littleEndian = true ∨ (accentBytes.slice 0 4).Palindrome) ∧
        Canonical (unsignedHost.stringContent accentBytes 0) :=
  reencode_iff rfl (by decide)
    (show unsignedHost.readStringFromBytes accentBytes 0 = .ok [0xE9] 6 from
      rfl)

/-- An overlong NUL. -/
def overlongBytes : ByteVector := ⟨[2, 0, 0, 0, 0xC0, 0x80], by decide⟩

theorem overlong_accepted :
    ¬ ∀ (host : Host) (data : ByteVector) (offset next : Nat)
      (str : List UInt8), host.charSigned = false → offset ≤ data.size →
      host.readStringFromBytes data offset = .ok str next →
      host.stringToBytes str = data.slice offset (next - offset) := by
  intro hclaim
  have hread : unsignedHost.readStringFromBytes overlongBytes 0 = .ok [0] 6 :=
    rfl
  have hsame := hclaim unsignedHost overlongBytes 0 6 [0] rfl (by decide) hread
  exact absurd hsame (by decide)

end Host

end NetworkMessages

end VoiceServer

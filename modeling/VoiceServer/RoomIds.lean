/-
The ids under which the room knows its members: client keys of UDP endpoints
and uuids of WebSocket sessions.
-/
import VoiceServer.RoomMembership

namespace VoiceServer

/-- Parts of the same lengths are told apart in what they are joined to. -/
theorem flatMap_eq_flatMap_iff {A B : Type*} {items : List A}
    {f g : A → List B} (hlength : ∀ item, (f item).length = (g item).length) :
    items.flatMap f = items.flatMap g ↔ ∀ item ∈ items, f item = g item := by
  induction items with
  | nil => simp
  | cons item rest ih =>
      rw [List.flatMap_cons, List.flatMap_cons, List.forall_mem_cons, ← ih]
      constructor
      · intro hsame
        exact List.append_inj hsame (hlength item)
      · rintro ⟨hitem, hrest⟩
        rw [hitem, hrest]

namespace Utilities

/-- `std::hex` and `std::setfill('0')`, in a field of two. -/
def hexByte (byte : UInt8) : List Char :=
  (Nat.toDigits 16 byte.toNat).leftpad 2 '0'

/-- What a round of the loop appends to the stream. -/
def uuidPart (bytes : Vector UInt8 16) (i : Fin 16) : List Char :=
  (if i.val = 4 ∨ i.val = 6 ∨ i.val = 8 ∨ i.val = 10 then ['-'] else []) ++
    hexByte bytes[i]

/-- The version and the variant, written into the bytes drawn. -/
def stamp (bytes : Vector UInt8 16) : Vector UInt8 16 :=
  let bytes := bytes.set 6 ((bytes[6] &&& 0x0F) ||| 0x40)
  bytes.set 8 ((bytes[8] &&& 0x3F) ||| 0x80)

/-- The uuid of sixteen bytes drawn. -/
def generateUuid (bytes : Vector UInt8 16) : String :=
  String.ofList ((List.finRange 16).flatMap (uuidPart (stamp bytes)))

example : generateUuid #v[0, 1, 0xAB, 3, 4, 5, 0xF6, 7, 0xC8, 9, 10, 11, 12, 13,
    14, 255] = "0001ab03-0405-4607-8809-0a0b0c0d0eff" := by
  decide +kernel

theorem hexByte_eq (byte : UInt8) :
    hexByte byte =
      [Nat.digitChar (byte.toNat / 16), Nat.digitChar (byte.toNat % 16)] := by
  have hbyte := byte.toNat_lt
  by_cases hsmall : byte.toNat < 16
  · rw [hexByte, Nat.toDigits_of_lt_base hsmall, Nat.div_eq_of_lt hsmall,
      Nat.mod_eq_of_lt hsmall]
    rfl
  · rw [hexByte, Nat.toDigits_of_base_le (by decide) (Nat.not_lt.1 hsmall),
      Nat.toDigits_of_lt_base (by omega)]
    rfl

theorem digitChar_inj {m n : Nat} (hm : m < 16) (hn : n < 16)
    (h : Nat.digitChar m = Nat.digitChar n) : m = n := by
  have hall : ∀ m n : Fin 16, Nat.digitChar m = Nat.digitChar n → m = n := by
    decide
  exact Fin.mk.inj (hall ⟨m, hm⟩ ⟨n, hn⟩ h)

theorem hexByte_inj {left right : UInt8} (h : hexByte left = hexByte right) :
    left = right := by
  have hleft := left.toNat_lt
  have hright := right.toNat_lt
  rw [hexByte_eq, hexByte_eq] at h
  obtain ⟨hhigh, hrest⟩ := List.cons.inj h
  have hhigh := digitChar_inj (by omega) (by omega) hhigh
  have hlow := digitChar_inj (by omega) (by omega) (List.cons.inj hrest).1
  apply UInt8.toNat_inj.1
  omega

theorem length_uuidPart (bytes : Vector UInt8 16) (i : Fin 16) :
    (uuidPart bytes i).length =
      (if i.val = 4 ∨ i.val = 6 ∨ i.val = 8 ∨ i.val = 10 then 1 else 0) + 2 := by
  rw [uuidPart, List.length_append, hexByte_eq]
  split
  · rfl
  · rfl

/-- Two uuids are one only if all sixteen bytes written are. -/
theorem generateUuid_eq_iff_stamp {left right : Vector UInt8 16} :
    generateUuid left = generateUuid right ↔
      ∀ i : Fin 16, (stamp left)[i] = (stamp right)[i] := by
  rw [generateUuid, generateUuid, String.ofList_inj, flatMap_eq_flatMap_iff]
  · constructor
    · intro hparts i
      exact hexByte_inj (List.append_cancel_left (hparts i (List.mem_finRange i)))
    · intro hbytes i _
      rw [uuidPart, uuidPart, hbytes i]
  · intro i
    rw [length_uuidPart, length_uuidPart]

/-- The bits of the draw that neither the version nor the variant overwrites,
by the index of their byte and their place in it. -/
def freeBits : List (Fin 16 × Fin 8) :=
  ((List.finRange 16).product (List.finRange 8)).filter fun place =>
    ¬ (place.1.val = 6 ∧ 4 ≤ place.2.val ∨ place.1.val = 8 ∧ 6 ≤ place.2.val)

def bitAt (bytes : Vector UInt8 16) (place : Fin 16 × Fin 8) : Bool :=
  bytes[place.1].toNat.testBit place.2

/-- The bits a byte keeps. -/
def keepMask (i : Fin 16) : UInt8 :=
  if i.val = 6 then 0x0F else if i.val = 8 then 0x3F else 0xFF

def stampBits (i : Fin 16) : UInt8 :=
  if i.val = 6 then 0x40 else if i.val = 8 then 0x80 else 0

theorem mem_freeBits_iff (i : Fin 16) (bit : Fin 8) :
    (i, bit) ∈ freeBits ↔ (keepMask i).toNat.testBit bit = true := by
  have hall : ∀ (i : Fin 16) (bit : Fin 8),
      ¬ (i.val = 6 ∧ 4 ≤ bit.val ∨ i.val = 8 ∧ 6 ≤ bit.val) ↔
        (keepMask i).toNat.testBit bit = true := by
    decide +kernel
  rw [freeBits, List.mem_filter, decide_eq_true_iff, hall]
  exact and_iff_right
    (List.pair_mem_product.2 ⟨List.mem_finRange i, List.mem_finRange bit⟩)

theorem freeBits_nodup : freeBits.Nodup :=
  ((List.nodup_finRange 16).product (List.nodup_finRange 8)).filter _

theorem stamp_getElem (bytes : Vector UInt8 16) (i : Fin 16) :
    (stamp bytes)[i] = (bytes[i] &&& keepMask i) ||| stampBits i := by
  obtain ⟨i, hi⟩ := i
  change (stamp bytes)[i] = (bytes[i] &&& keepMask ⟨i, hi⟩) ||| stampBits ⟨i, hi⟩
  by_cases hvariant : i = 8
  · subst hvariant
    change (stamp bytes)[8] = (bytes[8] &&& 0x3F) ||| 0x80
    rw [stamp, Vector.getElem_set_self, Vector.getElem_set_ne _ _ (by decide)]
  · by_cases hversion : i = 6
    · subst hversion
      change (stamp bytes)[6] = (bytes[6] &&& 0x0F) ||| 0x40
      rw [stamp, Vector.getElem_set_ne _ _ (by decide), Vector.getElem_set_self]
    · rw [keepMask, stampBits, if_neg hversion, if_neg hvariant,
        if_neg hversion, if_neg hvariant, UInt8.or_zero, stamp,
        Vector.getElem_set_ne _ _ (Ne.symm hvariant),
        Vector.getElem_set_ne _ _ (Ne.symm hversion)]
      exact UInt8.and_neg_one.symm

/-- Two bytes stay apart in the bits that are kept of them. -/
theorem masked_eq_iff {left right mask bits : UInt8} (hbits : mask &&& bits = 0) :
    (left &&& mask) ||| bits = (right &&& mask) ||| bits ↔
      ∀ bit : Fin 8, mask.toNat.testBit bit = true →
        left.toNat.testBit bit = right.toNat.testBit bit := by
  constructor
  · intro hsame bit hmask
    have hclear := congrArg (fun byte : UInt8 => byte.toNat.testBit bit) hbits
    have hbit := congrArg (fun byte : UInt8 => byte.toNat.testBit bit) hsame
    simp only [UInt8.toNat_and, Nat.testBit_and, hmask, Bool.true_and,
      UInt8.toNat_zero, Nat.zero_testBit] at hclear
    simpa only [UInt8.toNat_or, UInt8.toNat_and, Nat.testBit_or,
      Nat.testBit_and, hmask, hclear, Bool.and_true, Bool.or_false] using hbit
  · intro hkept
    apply UInt8.toNat_inj.1
    apply Nat.eq_of_testBit_eq
    intro place
    simp only [UInt8.toNat_or, UInt8.toNat_and, Nat.testBit_or,
      Nat.testBit_and]
    cases hmask : mask.toNat.testBit place with
    | false => simp only [Bool.and_false]
    | true =>
        have hplace : place < 8 := by
          by_contra hlarge
          rw [Nat.testBit_lt_two_pow] at hmask
          · exact Bool.noConfusion hmask
          · exact mask.toNat_lt.trans_le
              (Nat.pow_le_pow_right Nat.two_pos (Nat.not_lt.1 hlarge))
        rw [hkept ⟨place, hplace⟩ hmask]

theorem generateUuid_eq_iff {left right : Vector UInt8 16} :
    generateUuid left = generateUuid right ↔
      ∀ place ∈ freeBits, bitAt left place = bitAt right place := by
  rw [generateUuid_eq_iff_stamp]
  have hbyte : ∀ i, (stamp left)[i] = (stamp right)[i] ↔
      ∀ bit, (i, bit) ∈ freeBits → bitAt left (i, bit) = bitAt right (i, bit) := by
    intro i
    have hapart : keepMask i &&& stampBits i = 0 := by
      revert i
      decide
    rw [stamp_getElem, stamp_getElem, masked_eq_iff hapart]
    simp only [mem_freeBits_iff, bitAt]
  constructor
  · rintro hsame ⟨i, bit⟩ hplace
    exact (hbyte i).1 (hsame i) bit hplace
  · intro hsame i
    exact (hbyte i).2 fun bit hplace => hsame (i, bit) hplace

theorem dot_notMem_generateUuid (bytes : Vector UInt8 16) :
    '.' ∉ (generateUuid bytes).toList := by
  have hdigit : ∀ n : Fin 16, '.' ≠ Nat.digitChar n := by
    decide
  rw [generateUuid, String.toList_ofList, List.mem_flatMap]
  rintro ⟨i, -, hpart⟩
  rw [uuidPart, hexByte_eq, List.mem_append] at hpart
  have hbyte := (stamp bytes)[i].toNat_lt
  rcases hpart with hdash | hhex
  · split at hdash
    · simp at hdash
    · simp at hdash
  · rcases List.mem_cons.1 hhex with hhigh | hrest
    · exact hdigit ⟨_, (by omega)⟩ hhigh
    · exact hdigit ⟨_, (by omega)⟩ (List.mem_singleton.1 hrest)

theorem dot_mem_clientKey (endpoint : Endpoint) :
    '.' ∈ endpoint.clientKey.toList := by
  simp [Endpoint.clientKey]

/-- Client keys tell endpoints apart, uuids tell draws apart in the bits drawn,
and no client key is a uuid. -/
theorem ids_do_not_collide :
    (∀ left right : Endpoint, left.clientKey = right.clientKey ↔ left = right) ∧
      (∀ left right : Vector UInt8 16, generateUuid left = generateUuid right ↔
        ∀ place ∈ freeBits, bitAt left place = bitAt right place) ∧
      freeBits.length = 122 ∧ freeBits.Nodup ∧
      ∀ (endpoint : Endpoint) (bytes : Vector UInt8 16),
        endpoint.clientKey ≠ generateUuid bytes := by
  refine ⟨?_, fun _ _ => generateUuid_eq_iff, ?_, freeBits_nodup, ?_⟩
  · intro left right
    exact ⟨Endpoint.clientKey_injective, congrArg Endpoint.clientKey⟩
  · decide +kernel
  · intro endpoint bytes hsame
    exact dot_notMem_generateUuid bytes (hsame ▸ dot_mem_clientKey endpoint)

end Utilities

end VoiceServer

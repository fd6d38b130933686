/-
The readers of `BinaryData` at the level of their memory accesses: every byte
is fetched at an index, and the loop over a string is a loop over two pointers.
On any bytes and over any calls they stay inside the vector, stop, and compute
what the readers on byte lists do.
-/
import VoiceServer.ByteReads
import VoiceServer.TextCodec

namespace VoiceServer

namespace NetworkMessages

/-- One round of the decoder's loop: the char it pushes and where it leaves
`cur`. -/
def decodeRound (cur stop : Nat) :
    Reads UInt8 (Except String (UInt8 × Nat)) := do
  let lead ← Reads.fetch cur
  if lead &&& 0x80 = 0 then
    pure (.ok (lead, cur + 1))
  else if lead &&& 0xE0 = 0xC0 then
    if stop - cur < 2 then
      pure (.error "Invalid UTF-8 sequence")
    else do
      let second ← Reads.fetch (cur + 1)
      let codepoint := ((lead &&& 0x1F).toUInt32 <<< 6) |||
        (second &&& 0x3F).toUInt32
      pure (.ok (codepoint.toUInt8, cur + 2))
  else if lead &&& 0xF0 = 0xE0 then
    if stop - cur < 3 then
      pure (.error "Invalid UTF-8 sequence")
    else do
      let second ← Reads.fetch (cur + 1)
      let third ← Reads.fetch (cur + 2)
      let codepoint := ((lead &&& 0x0F).toUInt32 <<< 12) |||
        ((second &&& 0x3F).toUInt32 <<< 6) ||| (third &&& 0x3F).toUInt32
      pure (.ok (codepoint.toUInt8, cur + 3))
  else if lead &&& 0xF8 = 0xF0 then
    if stop - cur < 4 then
      pure (.error "Invalid UTF-8 sequence")
    else do
      let second ← Reads.fetch (cur + 1)
      let third ← Reads.fetch (cur + 2)
      let fourth ← Reads.fetch (cur + 3)
      let codepoint := ((lead &&& 0x07).toUInt32 <<< 18) |||
        ((second &&& 0x3F).toUInt32 <<< 12) |||
        ((third &&& 0x3F).toUInt32 <<< 6) ||| (fourth &&& 0x3F).toUInt32
      pure (.ok (codepoint.toUInt8, cur + 4))
  else
    pure (.error "Invalid UTF-8 sequence")

/-- `while (cur < end)`, followed for a number of rounds; no value if it runs
longer.  A loop that ends gives the string and the final `cur`. -/
def decodeLoop (stop : Nat) : Nat → Nat → List UInt8 →
    Reads UInt8 (Option (Except String (List UInt8 × Nat)))
  | 0, _, _ => pure none
  | rounds + 1, cur, result =>
      if cur < stop then do
        match ← decodeRound cur stop with
        | .error text => pure (some (.error text))
        | .ok (char, next) => decodeLoop stop rounds next (result ++ [char])
      else pure (some (.ok (result, cur)))

namespace Host

/-- `read_bytes<T>` with `sizeof(T) = n` on a vector of `size` bytes. -/
def objectReads (host : Host) (n size offset : Nat) :
    Reads UInt8 (EStateM.Result String Nat (BitVec (8 * n))) :=
  if size < sizeAdd offset n then
    pure (.error "Not enough data to read" offset)
  else if 2 ^ 63 - 1 < sizeAdd offset n then
    pure (.error "Data size too large for this system" offset)
  else do
    let bytes ← Reads.slice offset n
    pure (.ok (host.fromNetworkOrder n (host.fromBytes n bytes))
      (sizeAdd offset n))

/-- `read_string_from_bytes`; a result carries the final `cur` along. -/
def stringReads (host : Host) (rounds size offset : Nat) :
    Reads UInt8 (Option (EStateM.Result String Nat (List UInt8 × Nat))) :=
  if size < sizeAdd offset 4 then
    pure (some (.error "Not enough data to read string length" offset))
  else do
    match ← host.objectReads 4 size offset with
    | .error text offset => pure (some (.error text offset))
    | .ok utf8Length offset =>
        if size < sizeAdd offset utf8Length.toNat then
          pure (some (.error "Not enough data to read string content" offset))
        else do
          match ← decodeLoop (offset + utf8Length.toNat) rounds offset [] with
          | none => pure none
          | some (.error text) => pure (some (.error text offset))
          | some (.ok result) =>
              pure (some (.ok result (sizeAdd offset utf8Length.toNat)))

/-- A call that the caller's offset is passed to: a number, or a string.  No
object is larger than `PTRDIFF_MAX` bytes. -/
inductive Call where
  | object (n : Nat) (fits : n < 2 ^ 63)
  | string

/-- What a call returns, a string with the final `cur` of its loop. -/
inductive Value where
  | object (n : Nat) (value : BitVec (8 * n))
  | string (content : List UInt8) (cur : Nat)

/-- A call that has returned or thrown, with the offsets around it. -/
structure Returned where
  call : Call
  start : Nat
  outcome : Except String Value
  offset : Nat

def callReads (host : Host) (rounds size : Nat) (start : Nat) :
    Call → Reads UInt8 (Option Returned)
  | .object n fits => do
      match ← host.objectReads n size start with
      | .ok value offset =>
          pure (some ⟨.object n fits, start, .ok (.object n value), offset⟩)
      | .error text offset =>
          pure (some ⟨.object n fits, start, .error text, offset⟩)
  | .string => do
      match ← host.stringReads rounds size start with
      | none => pure none
      | some (.ok (content, cur) offset) =>
          pure (some ⟨.string, start, .ok (.string content cur), offset⟩)
      | some (.error text offset) =>
          pure (some ⟨.string, start, .error text, offset⟩)

/-- Calls one after the other.  An exception is caught, and the next call goes
on from the offset it left. -/
def allReads (host : Host) (rounds size : Nat) :
    List Call → Nat → Reads UInt8 (Option (List Returned))
  | [], _ => pure (some [])
  | call :: calls, offset => do
      match ← host.callReads rounds size offset call with
      | none => pure none
      | some first => do
          match ← host.allReads rounds size calls first.offset with
          | none => pure none
          | some later => pure (some (first :: later))

end Host

variable {buffer before after : List UInt8}

theorem getElem?_at {front : List UInt8} {byte : UInt8} {rest : List UInt8}
    {i : Nat} (hbuffer : buffer = front ++ byte :: rest)
    (hi : front.length = i) : buffer[i]? = some byte := by
  rw [hbuffer, ← hi, List.getElem?_append_right (Nat.le_refl _), Nat.sub_self]
  rfl

/-- A round either throws where the content cannot be decoded or takes the
first char off it, without passing its end. -/
theorem decodeRound_cases {lead : UInt8} {tail : List UInt8}
    (hbuffer : buffer = before ++ (lead :: tail) ++ after) :
    (decodeContent (lead :: tail) = none ∧
      (decodeRound before.length (before.length + (lead :: tail).length)).run
        buffer = some (.error "Invalid UTF-8 sequence")) ∨
    ∃ char skipped rest, tail = skipped ++ rest ∧
      decodeContent (lead :: tail) = (decodeContent rest).map (char :: ·) ∧
      (decodeRound before.length (before.length + (lead :: tail).length)).run
        buffer = some (.ok (char, before.length + (skipped.length + 1))) := by
  have hlead : buffer[before.length]? = some lead :=
    @getElem?_at buffer before lead (tail ++ after) _ (by simp [hbuffer]) rfl
  rw [decodeRound, Reads.run_fetch_bind hlead, decodeContent.eq_def]
  simp only []
  by_cases hone : lead &&& 0x80 = 0
  · rw [if_pos hone, if_pos hone]
    exact Or.inr ⟨lead, [], tail, rfl, rfl, rfl⟩
  rw [if_neg hone, if_neg hone]
  by_cases htwo : lead &&& 0xE0 = 0xC0
  · rw [if_pos htwo, if_pos htwo]
    rcases tail with _ | ⟨second, rest⟩
    · exact Or.inl ⟨rfl, by simp⟩
    · have hsecond := @getElem?_at buffer (before ++ [lead]) second
        (rest ++ after) (before.length + 1) (by simp [hbuffer]) (by simp)
      rw [if_neg (by simp), Reads.run_fetch_bind hsecond]
      exact Or.inr ⟨_, [second], rest, rfl, rfl, rfl⟩
  rw [if_neg htwo, if_neg htwo]
  by_cases hthree : lead &&& 0xF0 = 0xE0
  · rw [if_pos hthree, if_pos hthree]
    rcases tail with _ | ⟨second, _ | ⟨third, rest⟩⟩
    · exact Or.inl ⟨rfl, by simp⟩
    · exact Or.inl ⟨rfl, by simp⟩
    · have hsecond := @getElem?_at buffer (before ++ [lead]) second
        (third :: rest ++ after) (before.length + 1) (by simp [hbuffer])
        (by simp)
      have hthird := @getElem?_at buffer (before ++ [lead, second]) third
        (rest ++ after) (before.length + 2) (by simp [hbuffer]) (by simp)
      rw [if_neg (by simp), Reads.run_fetch_bind hsecond,
        Reads.run_fetch_bind hthird]
      exact Or.inr ⟨_, [second, third], rest, rfl, rfl, rfl⟩
  rw [if_neg hthree, if_neg hthree]
  by_cases hfour : lead &&& 0xF8 = 0xF0
  · rw [if_pos hfour, if_pos hfour]
    rcases tail with _ | ⟨second, _ | ⟨third, _ | ⟨fourth, rest⟩⟩⟩
    · exact Or.inl ⟨rfl, by simp⟩
    · exact Or.inl ⟨rfl, by simp⟩
    · exact Or.inl ⟨rfl, by simp⟩
    · have hsecond := @getElem?_at buffer (before ++ [lead]) second
        (third :: fourth :: rest ++ after) (before.length + 1)
        (by simp [hbuffer]) (by simp)
      have hthird := @getElem?_at buffer (before ++ [lead, second]) third
        (fourth :: rest ++ after) (before.length + 2) (by simp [hbuffer])
        (by simp)
      have hfourth := @getElem?_at buffer (before ++ [lead, second, third])
        fourth (rest ++ after) (before.length + 3) (by simp [hbuffer])
        (by simp)
      rw [if_neg (by simp), Reads.run_fetch_bind hsecond,
        Reads.run_fetch_bind hthird, Reads.run_fetch_bind hfourth]
      exact Or.inr ⟨_, [second, third, fourth], rest, rfl, rfl, rfl⟩
  · rw [if_neg hfour, if_neg hfour]
    exact Or.inl ⟨rfl, rfl⟩

/-- The loop stops within one round more than there are bytes.  It computes
`decodeContent`, and where it does not throw it leaves `cur` at `end`. -/
theorem run_decodeLoop {rest : List UInt8}
    (hbuffer : buffer = before ++ rest ++ after) {rounds : Nat}
    (hrounds : rest.length < rounds) (result : List UInt8) :
    (decodeLoop (before.length + rest.length) rounds before.length result).run
        buffer =
      some (some (match decodeContent rest with
        | none => .error "Invalid UTF-8 sequence"
        | some chars => .ok (result ++ chars, before.length + rest.length))) := by
  induction rounds generalizing before rest result with
  | zero => omega
  | succ rounds ih =>
      cases rest with
      | nil => simp [decodeLoop, decodeContent]
      | cons lead tail =>
          rw [decodeLoop, if_pos (by simp), Reads.run_bind]
          rcases decodeRound_cases hbuffer with ⟨hnone, hround⟩ | hsome
          · rw [hround, hnone]
            rfl
          · obtain ⟨char, skipped, rest, rfl, hdecode, hround⟩ := hsome
            have hnext := @ih (before ++ lead :: skipped) rest
              (by simp [hbuffer]) (by simp at hrounds; omega) (result ++ [char])
            have hcur : (before ++ lead :: skipped).length =
                before.length + (skipped.length + 1) := by simp
            have hstop : (before ++ lead :: skipped).length + rest.length =
                before.length + (lead :: (skipped ++ rest)).length := by
              simp
              omega
            rw [hcur] at hnext hstop
            rw [hstop] at hnext
            rw [hround, hdecode]
            simp only [Option.bind_some, hnext]
            cases decodeContent rest <;> simp

namespace Host

variable {host : Host} {n : Nat}

theorem run_objectReads {data : ByteVector} {offset : Nat}
    (hoffset : offset ≤ data.size) (hn : n < 2 ^ 63) :
    (host.objectReads n data.size offset).run data.bytes =
      some (host.readBytes n data offset) := by
  have hfits : data.size < 2 ^ 63 := data.fits
  have hadd : sizeAdd offset n = offset + n := Nat.mod_eq_of_lt (by omega)
  rw [objectReads, readBytes, hadd]
  by_cases hshort : data.size < offset + n
  · rw [if_pos hshort, if_pos hshort]
    rfl
  · rw [if_neg hshort, if_neg hshort, if_neg (by omega), if_neg (by omega),
      Reads.run_bind, Reads.run_slice (Nat.not_lt.1 hshort)]
    rfl

theorem run_stringReads {data : ByteVector} {offset rounds : Nat}
    (hoffset : offset ≤ data.size) (hrounds : data.size < rounds) :
    (host.stringReads rounds data.size offset).run data.bytes =
      some (some (match host.readStringFromBytes data offset with
        | .ok result next => .ok (result, next) next
        | .error text next => .error text next)) := by
  have hfits : data.size < 2 ^ 63 := data.fits
  have hlength := host.utf8Length_lt data offset
  have hadd : sizeAdd offset 4 = offset + 4 := Nat.mod_eq_of_lt (by omega)
  rw [readStringFromBytes_eq hoffset, stringReads, hadd]
  by_cases hshort : data.size < offset + 4
  · rw [if_pos hshort, if_pos hshort]
    rfl
  rw [if_neg hshort, if_neg hshort, Reads.run_bind,
    run_objectReads hoffset (by decide), readBytes_of_le (Nat.not_lt.1 hshort)]
  simp only [Option.bind_some]
  change Reads.run (if data.size < sizeAdd (offset + 4)
    (host.utf8Length data offset) then _ else _) _ = _
  have hend : sizeAdd (offset + 4) (host.utf8Length data offset) =
      offset + 4 + host.utf8Length data offset := Nat.mod_eq_of_lt (by omega)
  rw [hend]
  by_cases hcontent : data.size < offset + 4 + host.utf8Length data offset
  · rw [if_pos hcontent, if_pos hcontent]
    rfl
  rw [if_neg hcontent, if_neg hcontent, Reads.run_bind]
  -- The content lies between what was read before and what follows.
  have hcount : (host.stringContent data offset).length =
      host.utf8Length data offset :=
    ByteVector.length_slice (Nat.not_lt.1 hcontent)
  have hbefore : (data.bytes.take (offset + 4)).length = offset + 4 :=
    List.length_take_of_le (Nat.not_lt.1 hshort)
  have hbuffer : data.bytes = data.bytes.take (offset + 4) ++
      host.stringContent data offset ++
      (data.bytes.drop (offset + 4)).drop (host.utf8Length data offset) := by
    rw [List.append_assoc, stringContent, ByteVector.slice,
      List.take_append_drop, List.take_append_drop]
  have hloop := run_decodeLoop hbuffer
    (show (host.stringContent data offset).length < rounds by omega) []
  rw [hbefore, hcount] at hloop
  change Option.bind (Reads.run (decodeLoop (offset + 4 +
    host.utf8Length data offset) rounds (offset + 4) []) data.bytes) _ = _
  rw [hloop]
  cases decodeContent (host.stringContent data offset) with
  | none => rfl
  | some chars =>
      change some (some (EStateM.Result.ok _
        (sizeAdd (offset + 4) (host.utf8Length data offset)))) = _
      rw [hend]
      rfl

/-- What is guaranteed of a call, whatever the bytes are. -/
structure Bounded (host : Host) (data : ByteVector) (returned : Returned) :
    Prop where
  start_le : returned.start ≤ data.size
  offset_le : returned.offset ≤ data.size
  string_ok : ∀ content cur, returned.outcome = .ok (.string content cur) →
    cur = returned.start + 4 + host.utf8Length data returned.start ∧
      returned.offset =
        returned.start + 4 + host.utf8Length data returned.start

/-- Nothing more is guaranteed of a call that returns no string. -/
theorem bounded_of_no_string {data : ByteVector} {returned : Returned}
    (hstart : returned.start ≤ data.size) (hoffset : returned.offset ≤ data.size)
    (hstring : ∀ content cur, returned.outcome ≠ .ok (.string content cur)) :
    host.Bounded data returned where
  start_le := hstart
  offset_le := hoffset
  string_ok content cur hok := absurd hok (hstring content cur)

theorem run_callReads {data : ByteVector} {start rounds : Nat}
    (hstart : start ≤ data.size) (hrounds : data.size < rounds) (call : Call) :
    ∃ returned, (host.callReads rounds data.size start call).run data.bytes =
        some (some returned) ∧
      returned.call = call ∧ returned.start = start ∧
      host.Bounded data returned := by
  cases call with
  | object n fits =>
      rw [callReads, Reads.run_bind, run_objectReads hstart fits]
      by_cases hin : start + n ≤ data.size
      · rw [readBytes_of_le hin]
        refine ⟨_, rfl, rfl, rfl, bounded_of_no_string hstart hin ?_⟩
        rintro content cur ⟨⟩
      · rw [readBytes_of_lt hstart fits (Nat.not_le.1 hin)]
        refine ⟨_, rfl, rfl, rfl, bounded_of_no_string hstart hstart ?_⟩
        rintro content cur ⟨⟩
  | string =>
      rw [callReads, Reads.run_bind, run_stringReads hstart hrounds,
        readStringFromBytes_eq hstart]
      by_cases hshort : data.size < start + 4
      · rw [if_pos hshort]
        refine ⟨_, rfl, rfl, rfl, bounded_of_no_string hstart hstart ?_⟩
        rintro content cur ⟨⟩
      rw [if_neg hshort]
      by_cases hcontent : data.size < start + 4 + host.utf8Length data start
      · rw [if_pos hcontent]
        refine ⟨_, rfl, rfl, rfl,
          bounded_of_no_string hstart (Nat.not_lt.1 hshort) ?_⟩
        rintro content cur ⟨⟩
      rw [if_neg hcontent]
      cases decodeContent (host.stringContent data start) with
      | none =>
          refine ⟨_, rfl, rfl, rfl,
            bounded_of_no_string hstart (Nat.not_lt.1 hshort) ?_⟩
          rintro content cur ⟨⟩
      | some result =>
          refine ⟨_, rfl, rfl, rfl, hstart, Nat.not_lt.1 hcontent, ?_⟩
          intro content cur hok
          cases hok
          exact ⟨rfl, rfl⟩

theorem run_allReads {data : ByteVector} {offset rounds : Nat}
    (hoffset : offset ≤ data.size) (hrounds : data.size < rounds)
    (calls : List Call) :
    ∃ all, (host.allReads rounds data.size calls offset).run data.bytes =
        some (some all) ∧
      all.map Returned.call = calls ∧
      ∀ returned ∈ all, host.Bounded data returned := by
  induction calls generalizing offset with
  | nil => exact ⟨[], rfl, rfl, by simp⟩
  | cons call calls ih =>
      obtain ⟨first, hfirst, hcall, -, hbounded⟩ :=
        @run_callReads host data offset rounds hoffset hrounds call
      obtain ⟨later, hlater, hcalls, hall⟩ := ih hbounded.offset_le
      refine ⟨first :: later, ?_, ?_, ?_⟩
      · rw [allReads, Reads.run_bind, hfirst, Option.bind_some]
        simp only [Reads.run_bind, hlater, Option.bind_some]
        rfl
      · rw [List.map_cons, hcall, hcalls]
      · exact List.forall_mem_cons.2 ⟨hbounded, hall⟩

/-- Any calls on any bytes: all of them return or throw, what they read is
inside the vector, and so is the offset. -/
theorem allReads_bounded (host : Host) (data : ByteVector) (calls : List Call)
    {rounds : Nat} (hrounds : data.size < rounds) :
    (∀ i ∈ (host.allReads rounds data.size calls 0).touched data.bytes,
        i < data.size) ∧
      ∃ all, (host.allReads rounds data.size calls 0).run data.bytes =
          some (some all) ∧
        all.map Returned.call = calls ∧
        ∀ returned ∈ all, host.Bounded data returned := by
  obtain ⟨all, hrun, hcalls, hall⟩ :=
    @run_allReads host data 0 rounds (Nat.zero_le _) hrounds calls
  have hsome := Option.isSome_iff_exists.2 ⟨_, hrun⟩
  exact ⟨Reads.run_isSome_iff.1 hsome, all, hrun, hcalls, hall⟩

/-- A string, another one that is cut off, and a number. -/
theorem allReads_bounded_three :
    (∀ i ∈ (littleHost.allReads 9 8
          [.string, .string, .object 2 (by decide)] 0).touched
          [2, 0, 0, 0, 0xC3, 0xA9, 7, 0], i < 8) ∧
      ∃ all, (littleHost.allReads 9 8
          [.string, .string, .object 2 (by decide)] 0).run
          [2, 0, 0, 0, 0xC3, 0xA9, 7, 0] = some (some all) ∧
        all.map Returned.call = [.string, .string, .object 2 (by decide)] ∧
        ∀ returned ∈ all, littleHost.Bounded
          ⟨[2, 0, 0, 0, 0xC3, 0xA9, 7, 0], by decide⟩ returned :=
  allReads_bounded littleHost ⟨[2, 0, 0, 0, 0xC3, 0xA9, 7, 0], by decide⟩
    [.string, .string, .object 2 (by decide)] (by decide)

end Host

end NetworkMessages

end VoiceServer

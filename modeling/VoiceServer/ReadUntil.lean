/-
`async_read_until` of asio.  What has been read is searched from the place where
the delimiter could still begin; the place found does not depend on how the
stream was cut into reads.
-/
import Mathlib.Data.List.Infix

namespace VoiceServer

universe u

namespace Asio

variable {A : Type u} [DecidableEq A]

/-- How the inner loop of `partial_search` ends. -/
inductive Compared where
  | whole
  | cut
  | differs
deriving DecidableEq, Repr

/-- The inner loop, on a text that is not empty. -/
def compare : List A → List A → Compared
  | _, [] => .whole
  | [], _ :: _ => .cut
  | char :: text, first :: delim =>
      if char = first then compare text delim else .differs

/-- The position found, and whether the whole delimiter stands there. -/
def partialSearch (delim : List A) : List A → Nat × Bool
  | [] => (0, false)
  | char :: rest =>
      match compare (char :: rest) delim with
      | .whole => (0, true)
      | .cut => (0, false)
      | .differs =>
          let found := partialSearch delim rest
          (found.1 + 1, found.2)

/-- The delimiter stands at the start of some continuation of the text. -/
def CanBegin (delim text : List A) : Prop :=
  ∃ more, delim <+: text ++ more

omit [DecidableEq A] in
theorem CanBegin.of_append {delim text more : List A}
    (hbegin : CanBegin delim (text ++ more)) : CanBegin delim text := by
  rcases hbegin with ⟨rest, hrest⟩
  rw [List.append_assoc] at hrest
  exact ⟨more ++ rest, hrest⟩

omit [DecidableEq A] in
theorem CanBegin.of_isPrefix {delim text : List A} (hpre : delim <+: text) :
    CanBegin delim text :=
  ⟨[], by rwa [List.append_nil]⟩

omit [DecidableEq A] in
theorem canBegin_cons_iff {char first : A} {text delim : List A} :
    CanBegin (first :: delim) (char :: text) ↔
      char = first ∧ CanBegin delim text := by
  constructor
  · rintro ⟨more, hmore⟩
    rw [List.cons_append, List.cons_prefix_cons] at hmore
    exact ⟨hmore.1.symm, more, hmore.2⟩
  · rintro ⟨rfl, more, hmore⟩
    refine ⟨more, ?_⟩
    rw [List.cons_append, List.cons_prefix_cons]
    exact ⟨rfl, hmore⟩

/-- The three ends of the inner loop. -/
theorem compare_spec (text delim : List A) :
    (compare text delim = .whole ↔ delim <+: text) ∧
      (compare text delim = .cut → text.length < delim.length) ∧
      (compare text delim = .differs ↔ ¬ CanBegin delim text) := by
  induction text generalizing delim with
  | nil =>
      cases delim with
      | nil => simp [compare, CanBegin]
      | cons first delim =>
          have hbegin : CanBegin (first :: delim) [] :=
            ⟨first :: delim, List.prefix_rfl⟩
          simp [compare, hbegin]
  | cons char text ih =>
      cases delim with
      | nil => simp [compare, CanBegin]
      | cons first delim =>
          obtain ⟨hwhole, hcut, hdiffers⟩ := ih delim
          rw [compare, List.cons_prefix_cons, canBegin_cons_iff]
          by_cases hchar : char = first
          · rw [if_pos hchar]
            refine ⟨?_, fun h => Nat.succ_lt_succ (hcut h), ?_⟩
            · simp [hwhole, hchar]
            · simp [hdiffers, hchar]
          · rw [if_neg hchar]
            refine ⟨?_, ?_, ?_⟩
            · simp [Ne.symm hchar]
            · simp
            · simp [hchar]

/-- The delimiter cannot begin before the place found, and it stands there or
nowhere. -/
theorem partialSearch_spec {delim : List A} (hdelim : delim ≠ [])
    (text : List A) :
    (partialSearch delim text).1 ≤ text.length ∧
      (∀ i < (partialSearch delim text).1, ¬ CanBegin delim (text.drop i)) ∧
      ((partialSearch delim text).2 = true ↔ delim <:+: text) ∧
      ((partialSearch delim text).2 = true →
        delim <+: text.drop (partialSearch delim text).1) := by
  induction text with
  | nil => simp [partialSearch, hdelim]
  | cons char rest ih =>
      obtain ⟨hle, hbefore, hcutoff, hhere⟩ := ih
      obtain ⟨hwhole, hcut, hdiffers⟩ := compare_spec (char :: rest) delim
      cases hcompare : compare (char :: rest) delim with
      | whole =>
          have hpre := hwhole.1 hcompare
          simp [partialSearch, hcompare, hpre, hpre.isInfix]
      | cut =>
          have hshort := hcut hcompare
          have hnone : ¬ delim <:+: char :: rest :=
            fun h => absurd h.length_le (by omega)
          simp [partialSearch, hcompare, hnone]
      | differs =>
          have hnot := hdiffers.1 hcompare
          have hpre : ¬ delim <+: char :: rest :=
            fun h => hnot (.of_isPrefix h)
          simp only [partialSearch, hcompare, List.length_cons,
            List.drop_succ_cons, List.infix_cons_iff, hpre, false_or]
          refine ⟨Nat.succ_le_succ hle, ?_, hcutoff, hhere⟩
          intro i hi
          cases i with
          | zero => exact hnot
          | succ i => exact hbefore i (Nat.lt_of_succ_lt_succ hi)

/-- The stream buffer, and where the operation searches next. -/
structure ReadUntil (A : Type u) where
  buffer : List A
  searchPosition : Nat
deriving DecidableEq, Repr

namespace ReadUntil

def new : ReadUntil A := ⟨[], 0⟩

/-- One read of the operation has completed with `bytes`.  The flag says that the
operation is done; then `searchPosition` is the number of bytes it reports. -/
def commit (delim : List A) (op : ReadUntil A) (bytes : List A) :
    ReadUntil A × Bool :=
  let data := op.buffer ++ bytes
  let result := partialSearch delim (data.drop op.searchPosition)
  let first := op.searchPosition + result.1
  if first ≠ data.length ∧ result.2 = true then
    (⟨data, first + delim.length⟩, true)
  else (⟨data, first⟩, false)

/-- The delimiter has not been read and can only begin where the next search
starts, or later. -/
structure Awaits (delim : List A) (op : ReadUntil A) : Prop where
  le : op.searchPosition ≤ op.buffer.length
  before : ∀ i < op.searchPosition, ¬ CanBegin delim (op.buffer.drop i)

/-- The first place where the delimiter stands. -/
structure FirstAt (delim text : List A) (i : Nat) : Prop where
  here : delim <+: text.drop i
  before : ∀ j < i, ¬ delim <+: text.drop j

omit [DecidableEq A] in
theorem awaits_new (delim : List A) : Awaits delim (new : ReadUntil A) :=
  ⟨Nat.le_refl 0, fun _ hi => absurd hi (Nat.not_lt_zero _)⟩

@[simp] theorem buffer_commit (delim : List A) (op : ReadUntil A)
    (bytes : List A) :
    (op.commit delim bytes).1.buffer = op.buffer ++ bytes := by
  rw [commit]
  split <;> rfl

/-- What a read does to the operation. -/
theorem Awaits.commit {delim : List A} (hdelim : delim ≠ []) {op : ReadUntil A}
    (hawaits : Awaits delim op) (bytes : List A) :
    ((op.commit delim bytes).2 = false →
      Awaits delim (op.commit delim bytes).1 ∧
        ¬ delim <:+: op.buffer ++ bytes) ∧
    ((op.commit delim bytes).2 = true →
      ∃ i, FirstAt delim (op.buffer ++ bytes) i ∧
        (op.commit delim bytes).1.searchPosition = i + delim.length) := by
  obtain ⟨hle, hbefore⟩ := hawaits
  obtain ⟨hfound, hsearched, hcutoff, hhere⟩ := partialSearch_spec hdelim
    ((op.buffer ++ bytes).drop op.searchPosition)
  generalize hresult : partialSearch delim
    ((op.buffer ++ bytes).drop op.searchPosition) = result at *
  have hnone : ∀ i < op.searchPosition + result.1,
      ¬ CanBegin delim ((op.buffer ++ bytes).drop i) := by
    intro i hi
    rcases Nat.lt_or_ge i op.searchPosition with hold | hnew
    · intro hbegin
      rw [List.drop_append_of_le_length (by omega)] at hbegin
      exact hbefore i hold hbegin.of_append
    · have hlater := hsearched (i - op.searchPosition) (by omega)
      rwa [List.drop_drop, Nat.add_sub_cancel' hnew] at hlater
  have hbound : op.searchPosition + result.1 ≤ (op.buffer ++ bytes).length := by
    rw [List.length_drop] at hfound
    rw [List.length_append] at hfound ⊢
    omega
  have hend : result.2 = true →
      op.searchPosition + result.1 ≠ (op.buffer ++ bytes).length := by
    intro hwhole hlast
    have hpre := hhere hwhole
    rw [List.drop_drop, hlast, List.drop_length, List.prefix_nil] at hpre
    exact hdelim hpre
  rw [ReadUntil.commit, hresult]
  cases hwhole : result.2 with
  | false =>
      rw [if_neg (by simp)]
      refine ⟨fun _ => ⟨⟨hbound, hnone⟩, ?_⟩, by simp⟩
      -- An occurrence before the search began could have begun there.
      rintro ⟨front, rest, hwholeText⟩
      have hat : delim <+: (op.buffer ++ bytes).drop front.length := by
        rw [← hwholeText, List.append_assoc, List.drop_left]
        exact List.prefix_append _ _
      rcases Nat.lt_or_ge front.length op.searchPosition with hold | hnew
      · exact hnone _ (by omega) (.of_isPrefix hat)
      · have hin : delim <:+: (op.buffer ++ bytes).drop op.searchPosition := by
          rw [← Nat.add_sub_cancel' hnew, ← List.drop_drop] at hat
          exact hat.isInfix.trans (List.drop_suffix _ _).isInfix
        rw [hcutoff.2 hin] at hwhole
        exact Bool.noConfusion hwhole
  | true =>
      rw [if_pos ⟨hend hwhole, rfl⟩]
      refine ⟨by simp, fun _ => ⟨_, ⟨?_, ?_⟩, rfl⟩⟩
      · have hpre := hhere hwhole
        rwa [List.drop_drop] at hpre
      · exact fun j hj hpre => hnone j hj (.of_isPrefix hpre)

end ReadUntil

end Asio

end VoiceServer

/-
Computations that look at a buffer only through reads at an index.  Running one
gives its value and the indices it touched, so "reads nothing past the end" is
a statement about the computation and not about its result alone.
-/
import Mathlib.Data.List.Basic

namespace VoiceServer

universe u v

/-- A program over a buffer of `B`s: a value, or one read and a continuation. -/
inductive Reads (B : Type u) (A : Type v) where
  | done (value : A)
  | read (index : Nat) (next : B → Reads B A)

namespace Reads

variable {B : Type u} {A C : Type v}

/-- Run against a buffer.  A read out of range has no value. -/
def run : Reads B A → List B → Option A
  | .done value, _ => some value
  | .read index next, buffer =>
      match buffer[index]? with
      | some byte => (next byte).run buffer
      | none => none

/-- The indices read, in order, up to and including one out of range. -/
def touched : Reads B A → List B → List Nat
  | .done _, _ => []
  | .read index next, buffer =>
      match buffer[index]? with
      | some byte => index :: (next byte).touched buffer
      | none => [index]

protected def bind : Reads B A → (A → Reads B C) → Reads B C
  | .done value, f => f value
  | .read index next, f => .read index fun byte => (next byte).bind f

instance : Monad (Reads B) where
  pure := .done
  bind := Reads.bind

@[simp] theorem run_pure (value : A) (buffer : List B) :
    (pure value : Reads B A).run buffer = some value :=
  rfl

@[simp] theorem touched_pure (value : A) (buffer : List B) :
    (pure value : Reads B A).touched buffer = [] :=
  rfl

@[simp] theorem run_bind (p : Reads B A) (f : A → Reads B C)
    (buffer : List B) :
    (p >>= f).run buffer = (p.run buffer).bind fun a => (f a).run buffer := by
  change (p.bind f).run buffer = _
  induction p with
  | done value => rfl
  | read index next ih =>
      simp only [Reads.bind, run]
      cases buffer[index]? with
      | none => rfl
      | some byte => exact ih byte

theorem touched_bind_of_run {p : Reads B A} {value : A} {buffer : List B}
    (hrun : p.run buffer = some value) (f : A → Reads B C) :
    (p >>= f).touched buffer =
      p.touched buffer ++ (f value).touched buffer := by
  change (p.bind f).touched buffer = _
  induction p with
  | done last =>
      simp only [run, Option.some.injEq] at hrun
      rw [hrun]
      rfl
  | read index next ih =>
      simp only [Reads.bind, touched]
      simp only [run] at hrun
      cases hbyte : buffer[index]? with
      | none => simp [hbyte] at hrun
      | some byte =>
          simp only [hbyte] at hrun
          simp only [ih byte hrun, List.cons_append]

/-- Continuing a computation takes back none of its reads. -/
theorem mem_touched_bind_left {p : Reads B A} {buffer : List B} {i : Nat}
    (hi : i ∈ p.touched buffer) (f : A → Reads B C) :
    i ∈ (p >>= f).touched buffer := by
  change i ∈ (p.bind f).touched buffer
  induction p with
  | done value => simp [touched] at hi
  | read index next ih =>
      simp only [Reads.bind, touched] at hi ⊢
      cases hbyte : buffer[index]? with
      | none => simpa [hbyte] using hi
      | some byte =>
          simp only [hbyte, List.mem_cons] at hi ⊢
          exact hi.imp_right (ih byte)

/-- A computation has a value exactly when no read was out of range. -/
theorem run_isSome_iff {p : Reads B A} {buffer : List B} :
    (p.run buffer).isSome = true ↔ ∀ i ∈ p.touched buffer, i < buffer.length := by
  induction p with
  | done value => simp [run, touched]
  | read index next ih =>
      simp only [run, touched]
      cases hbyte : buffer[index]? with
      | none =>
          have hout := List.getElem?_eq_none_iff.1 hbyte
          simp only [Option.isSome_none, Bool.false_eq_true, false_iff]
          intro hall
          have hin := hall index (List.mem_singleton_self index)
          omega
      | some byte =>
          have hin : index < buffer.length :=
            (List.getElem?_eq_some_iff.1 hbyte).1
          rw [ih byte, List.forall_mem_cons, and_iff_right hin]

/-- Locality: the buffer matters only at the indices touched. -/
theorem run_congr {p : Reads B A} {buffer other : List B}
    (hagree : ∀ i ∈ p.touched buffer, buffer[i]? = other[i]?) :
    p.run other = p.run buffer ∧ p.touched other = p.touched buffer := by
  induction p with
  | done value => exact ⟨rfl, rfl⟩
  | read index next ih =>
      simp only [run, touched] at hagree ⊢
      cases hbyte : buffer[index]? with
      | none =>
          rw [hbyte] at hagree
          simp only [← hagree index (List.mem_singleton_self index), hbyte,
            and_self]
      | some byte =>
          rw [hbyte] at hagree
          have hsame := hagree index List.mem_cons_self
          obtain ⟨hrun, htouched⟩ := ih byte fun i hi =>
            hagree i (List.mem_cons_of_mem index hi)
          simp only [← hsame, hbyte, hrun, htouched, and_self]

/-- A computation that stays below `n` sees only the first `n` bytes. -/
theorem run_eq_of_take_eq {p : Reads B A} {buffer other : List B} {n : Nat}
    (hbelow : ∀ i ∈ p.touched buffer, i < n)
    (htake : buffer.take n = other.take n) :
    p.run other = p.run buffer ∧ p.touched other = p.touched buffer := by
  apply run_congr
  intro i hi
  have hlt := hbelow i hi
  rw [← List.getElem?_take_of_lt hlt, htake, List.getElem?_take_of_lt hlt]

/-- One read. -/
def fetch (index : Nat) : Reads B B :=
  .read index .done

theorem run_fetch_bind {C : Type u} {buffer : List B} {index : Nat} {byte : B}
    (hbyte : buffer[index]? = some byte) (f : B → Reads B C) :
    (fetch index >>= f).run buffer = (f byte).run buffer := by
  rw [run_bind, fetch, run, hbyte]
  rfl

/-- The bytes from `start` on, `count` of them, read one by one. -/
def slice (start : Nat) : Nat → Reads B (List B)
  | 0 => .done []
  | count + 1 => .read start fun byte =>
      (slice (start + 1) count).bind fun rest => .done (byte :: rest)

theorem run_slice {buffer : List B} {start count : Nat}
    (hin : start + count ≤ buffer.length) :
    (slice start count).run buffer = some ((buffer.drop start).take count) := by
  induction count generalizing start with
  | zero => simp [slice, run]
  | succ n ih =>
      have hlt : start < buffer.length := by omega
      have hrest : (slice (start + 1) n).run buffer =
          some ((buffer.drop (start + 1)).take n) := ih (by omega)
      have hbind := run_bind (slice (start + 1) n)
        (fun rest => .done (buffer[start] :: rest)) buffer
      simp only [slice, run, List.getElem?_eq_getElem hlt]
      change (slice (start + 1) n >>= fun rest =>
        .done (buffer[start] :: rest)).run buffer = _
      rw [hbind, hrest, List.drop_eq_getElem_cons hlt]
      rfl

theorem touched_slice {buffer : List B} {start count : Nat}
    (hin : start + count ≤ buffer.length) :
    (slice start count).touched buffer = List.range' start count := by
  induction count generalizing start with
  | zero => rfl
  | succ n ih =>
      have hlt : start < buffer.length := by omega
      have hrest : (slice (start + 1) n).run buffer =
          some ((buffer.drop (start + 1)).take n) := run_slice (by omega)
      simp only [slice, touched, List.getElem?_eq_getElem hlt]
      change start :: (slice (start + 1) n >>= fun rest =>
        .done (buffer[start] :: rest)).touched buffer = _
      have hlater : (slice (start + 1) n).touched buffer =
          List.range' (start + 1) n := ih (by omega)
      rw [touched_bind_of_run hrest, hlater]
      simp [touched, List.range'_succ]

/-- A slice touches every index it spans, up to the first one out of range. -/
theorem mem_touched_slice {buffer : List B} {start count index : Nat}
    (hfrom : start ≤ index) (hto : index < start + count)
    (hin : index ≤ buffer.length) :
    index ∈ (slice start count).touched buffer := by
  induction count generalizing start with
  | zero => omega
  | succ n ih =>
      simp only [slice, touched]
      rcases Nat.eq_or_lt_of_le hfrom with rfl | hlater
      · cases buffer[start]? <;> simp
      · have hlt : start < buffer.length := by omega
        rw [List.getElem?_eq_getElem hlt]
        apply List.mem_cons_of_mem
        exact mem_touched_bind_left (ih hlater (by omega)) _

end Reads

end VoiceServer

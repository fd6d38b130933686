/-
`SHA1Custom::SHA1`: the rounds unrolled over five named variables, the sixteen
words of a block reused for the schedule, and an object that takes its message
in pieces.
-/
import Mathlib.Logic.Function.Basic
import VoiceServer.Base64Utilities
import VoiceServer.Sha1

namespace VoiceServer

namespace SHA1Custom

open Base64Utilities

def rol (value : BitVec 32) (bits : Nat) : BitVec 32 :=
  value <<< bits ||| value >>> (32 - bits)

def blk (block : List (BitVec 32)) (i : Nat) : BitVec 32 :=
  rol (block.getD ((i + 13) &&& 15) 0 ^^^ block.getD ((i + 8) &&& 15) 0 ^^^
    block.getD ((i + 2) &&& 15) 0 ^^^ block.getD i 0) 1

/-- The working variables, by their names. -/
inductive Var where
  | a | b | c | d | e
deriving DecidableEq, Repr

structure Work where
  vars : Var → BitVec 32
  block : List (BitVec 32)

/-- `z += f(w, x, y) + block[i] + constant + rol(v, 5); w = rol(w, 30);` -/
def operate (f : BitVec 32 → BitVec 32 → BitVec 32 → BitVec 32)
    (constant : BitVec 32) (v w x y z : Var) (i : Nat) (work : Work) : Work :=
  let sum := f (work.vars w) (work.vars x) (work.vars y) +
    work.block.getD i 0 + constant + rol (work.vars v) 5
  let vars := Function.update work.vars z (work.vars z + sum)
  { work with vars := Function.update vars w (rol (vars w) 30) }

/-- `block[i] = blk(block, i);` -/
def expand (i : Nat) (work : Work) : Work :=
  { work with block := work.block.set i (blk work.block i) }

def R0 (v w x y z : Var) (i : Nat) (work : Work) : Work :=
  operate (fun w x y => (w &&& (x ^^^ y)) ^^^ y) 0x5a827999 v w x y z i work

def R1 (v w x y z : Var) (i : Nat) (work : Work) : Work :=
  operate (fun w x y => (w &&& (x ^^^ y)) ^^^ y) 0x5a827999 v w x y z i
    (expand i work)

def R2 (v w x y z : Var) (i : Nat) (work : Work) : Work :=
  operate (fun w x y => w ^^^ x ^^^ y) 0x6ed9eba1 v w x y z i (expand i work)

def R3 (v w x y z : Var) (i : Nat) (work : Work) : Work :=
  operate (fun w x y => ((w ||| x) &&& y) ||| (w &&& x)) 0x8f1bbcdc v w x y z i
    (expand i work)

def R4 (v w x y z : Var) (i : Nat) (work : Work) : Work :=
  operate (fun w x y => w ^^^ x ^^^ y) 0xca62c1d6 v w x y z i (expand i work)

/-- The calls in the body of `transform`. -/
def operations : List (Work → Work) :=
  [ R0 .a .b .c .d .e 0, R0 .e .a .b .c .d 1,
    R0 .d .e .a .b .c 2, R0 .c .d .e .a .b 3,
    R0 .b .c .d .e .a 4, R0 .a .b .c .d .e 5,
    R0 .e .a .b .c .d 6, R0 .d .e .a .b .c 7,
    R0 .c .d .e .a .b 8, R0 .b .c .d .e .a 9,
    R0 .a .b .c .d .e 10, R0 .e .a .b .c .d 11,
    R0 .d .e .a .b .c 12, R0 .c .d .e .a .b 13,
    R0 .b .c .d .e .a 14, R0 .a .b .c .d .e 15,
    R1 .e .a .b .c .d 0, R1 .d .e .a .b .c 1,
    R1 .c .d .e .a .b 2, R1 .b .c .d .e .a 3,
    R2 .a .b .c .d .e 4, R2 .e .a .b .c .d 5,
    R2 .d .e .a .b .c 6, R2 .c .d .e .a .b 7,
    R2 .b .c .d .e .a 8, R2 .a .b .c .d .e 9,
    R2 .e .a .b .c .d 10, R2 .d .e .a .b .c 11,
    R2 .c .d .e .a .b 12, R2 .b .c .d .e .a 13,
    R2 .a .b .c .d .e 14, R2 .e .a .b .c .d 15,
    R2 .d .e .a .b .c 0, R2 .c .d .e .a .b 1,
    R2 .b .c .d .e .a 2, R2 .a .b .c .d .e 3,
    R2 .e .a .b .c .d 4, R2 .d .e .a .b .c 5,
    R2 .c .d .e .a .b 6, R2 .b .c .d .e .a 7,
    R3 .a .b .c .d .e 8, R3 .e .a .b .c .d 9,
    R3 .d .e .a .b .c 10, R3 .c .d .e .a .b 11,
    R3 .b .c .d .e .a 12, R3 .a .b .c .d .e 13,
    R3 .e .a .b .c .d 14, R3 .d .e .a .b .c 15,
    R3 .c .d .e .a .b 0, R3 .b .c .d .e .a 1,
    R3 .a .b .c .d .e 2, R3 .e .a .b .c .d 3,
    R3 .d .e .a .b .c 4, R3 .c .d .e .a .b 5,
    R3 .b .c .d .e .a 6, R3 .a .b .c .d .e 7,
    R3 .e .a .b .c .d 8, R3 .d .e .a .b .c 9,
    R3 .c .d .e .a .b 10, R3 .b .c .d .e .a 11,
    R4 .a .b .c .d .e 12, R4 .e .a .b .c .d 13,
    R4 .d .e .a .b .c 14, R4 .c .d .e .a .b 15,
    R4 .b .c .d .e .a 0, R4 .a .b .c .d .e 1,
    R4 .e .a .b .c .d 2, R4 .d .e .a .b .c 3,
    R4 .c .d .e .a .b 4, R4 .b .c .d .e .a 5,
    R4 .a .b .c .d .e 6, R4 .e .a .b .c .d 7,
    R4 .d .e .a .b .c 8, R4 .c .d .e .a .b 9,
    R4 .b .c .d .e .a 10, R4 .a .b .c .d .e 11,
    R4 .e .a .b .c .d 12, R4 .d .e .a .b .c 13,
    R4 .c .d .e .a .b 14, R4 .b .c .d .e .a 15]

/-- Copy `digest[]` to the working variables. -/
def varsOf (digest : Sha1.Words) : Var → BitVec 32
  | .a => digest.a
  | .b => digest.b
  | .c => digest.c
  | .d => digest.d
  | .e => digest.e

/-- What `transform` leaves in its three arguments. -/
def transform (digest : Sha1.Words) (block : List (BitVec 32))
    (transforms : BitVec 64) :
    Sha1.Words × List (BitVec 32) × BitVec 64 :=
  let work := operations.foldl (fun work operation => operation work)
    { vars := varsOf digest, block := block }
  let sum : Sha1.Words :=
    { a := digest.a + work.vars .a
      b := digest.b + work.vars .b
      c := digest.c + work.vars .c
      d := digest.d + work.vars .d
      e := digest.e + work.vars .e }
  (sum, work.block, transforms + 1)

/-- `buffer[i] & 0xff`; a `char` is signed. -/
def byteAt (buffer : List UInt8) (i : Nat) : BitVec 32 :=
  (buffer.getD i 0).toBitVec.signExtend 32 &&& 0xff

def bufferToBlock (buffer : List UInt8) : List (BitVec 32) :=
  (List.range 16).map fun i =>
    byteAt buffer (4 * i + 3) ||| byteAt buffer (4 * i + 2) <<< 8 |||
      byteAt buffer (4 * i + 1) <<< 16 ||| byteAt buffer (4 * i + 0) <<< 24

/-- Between two calls the buffer holds less than a block. -/
structure SHA1 where
  digest : Sha1.Words
  buffer : List UInt8
  transforms : BitVec 64
  buffer_lt : buffer.length < 64
deriving DecidableEq, Repr

/-- `reset`, and the constructor. -/
def SHA1.new : SHA1 where
  digest :=
    { a := 0x67452301
      b := 0xefcdab89
      c := 0x98badcfe
      d := 0x10325476
      e := 0xc3d2e1f0 }
  buffer := []
  transforms := 0
  buffer_lt := by decide

theorem length_fill {buffer is : List UInt8} (hbuffer : buffer.length < 64)
    (hfull : ¬ (buffer ++ is.take (64 - buffer.length)).length = 64) :
    (buffer ++ is.take (64 - buffer.length)).length < 64 := by
  rw [List.length_append, List.length_take] at hfull ⊢
  omega

def SHA1.update (sha1 : SHA1) (is : List UInt8) : SHA1 :=
  let buffer := sha1.buffer ++ is.take (64 - sha1.buffer.length)
  if hfull : buffer.length = 64 then
    let done := transform sha1.digest (bufferToBlock buffer) sha1.transforms
    let emptied : SHA1 :=
      { digest := done.1
        buffer := []
        transforms := done.2.2
        buffer_lt := by decide }
    SHA1.update emptied (is.drop (64 - sha1.buffer.length))
  else
    { digest := sha1.digest
      buffer := buffer
      transforms := sha1.transforms
      buffer_lt := length_fill sha1.buffer_lt hfull }
termination_by is.length
decreasing_by
  have hbuffer := sha1.buffer_lt
  have hlength : (sha1.buffer ++ is.take (64 - sha1.buffer.length)).length = 64 :=
    hfull
  rw [List.length_append, List.length_take] at hlength
  rw [List.length_drop]
  omega

/-- `std::hex << std::setfill('0') << std::setw(8)`. -/
def hexWord (word : BitVec 32) : List UInt8 :=
  ((Nat.toDigits 16 word.toNat).leftpad 8 '0').map fun c => UInt8.ofNat c.toNat

/-- The words that `final` prints: the hash value after its last block. -/
def SHA1.finalDigest (sha1 : SHA1) : Sha1.Words :=
  let totalBits : BitVec 64 :=
    (sha1.transforms * 64 + BitVec.ofNat 64 sha1.buffer.length) * 8
  let buffer := sha1.buffer ++ [0x80]
  let origSize := buffer.length
  let block := bufferToBlock (buffer.rightpad 64 0)
  let state :=
    if origSize > 64 - 8 then
      let done := transform sha1.digest block sha1.transforms
      (done.1, (List.range 14).foldl (fun block i => block.set i 0) done.2.1,
        done.2.2)
    else (sha1.digest, block, sha1.transforms)
  let block := (state.2.1.set 15 (totalBits.setWidth 32)).set 14
    ((totalBits >>> 32).setWidth 32)
  (transform state.1 block state.2.2).1

/-- The text, and the object reset. -/
def SHA1.final (sha1 : SHA1) : List UInt8 × SHA1 :=
  let digest := sha1.finalDigest
  (hexWord digest.a ++ hexWord digest.b ++ hexWord digest.c ++
    hexWord digest.d ++ hexWord digest.e, SHA1.new)

theorem rol_eq (value : BitVec 32) {bits : Nat} (hbits : bits < 32) :
    rol value bits = value.rotateLeft bits := by
  rw [rol, BitVec.rotateLeft_def, Nat.mod_eq_of_lt hbits]

theorem choose_eq (w x y : BitVec 32) :
    (w &&& (x ^^^ y)) ^^^ y = Sha1.ch w x y := by
  apply BitVec.eq_of_getLsbD_eq
  intro i hi
  simp only [Sha1.ch, BitVec.getLsbD_xor, BitVec.getLsbD_and,
    BitVec.getLsbD_not, hi, decide_true, Bool.true_and]
  cases w.getLsbD i <;> cases x.getLsbD i <;> cases y.getLsbD i <;> rfl

theorem majority_eq (w x y : BitVec 32) :
    ((w ||| x) &&& y) ||| (w &&& x) = Sha1.maj w x y := by
  apply BitVec.eq_of_getLsbD_eq
  intro i _
  simp only [Sha1.maj, BitVec.getLsbD_xor, BitVec.getLsbD_and,
    BitVec.getLsbD_or]
  cases w.getLsbD i <;> cases x.getLsbD i <;> cases y.getLsbD i <;> rfl

/-- The variables in turn. -/
def var (n : Nat) : Var :=
  match n % 5 with
  | 0 => .a
  | 1 => .b
  | 2 => .c
  | 3 => .d
  | _ => .e

theorem var_add (n : Nat) : var (n + 5) = var n := by
  rw [var, var, Nat.add_mod_right]

theorem var_inj {m n : Nat} (hvar : var m = var n) : m % 5 = n % 5 := by
  have hall : ∀ i < 5, ∀ j < 5, var i = var j → i = j := by decide
  have hmod : ∀ n, var (n % 5) = var n := by
    intro n
    rw [var, var, Nat.mod_mod]
  exact hall _ (Nat.mod_lt _ (by decide)) _ (Nat.mod_lt _ (by decide))
    (by rw [hmod, hmod, hvar])

/-- The call of round `t`: the operation by the round, the word modulo sixteen,
and the variables moved on by one, which is back by four. -/
def operation (t : Nat) : Work → Work :=
  (if t < 16 then R0 else if t < 20 then R1 else if t < 40 then R2
    else if t < 60 then R3 else R4)
    (var (4 * t)) (var (4 * t + 1)) (var (4 * t + 2)) (var (4 * t + 3))
    (var (4 * t + 4)) (t % 16)

theorem operations_eq : operations = (List.range 80).map operation := rfl

/-- The words of the schedule that the block holds once `t` words are used:
from the sixteenth round on, the last sixteen. -/
def Window (block work : List (BitVec 32)) (t : Nat) : Prop :=
  work.length = 16 ∧ ∀ s, s < max t 16 → max t 16 ≤ s + 16 →
    work.getD (s % 16) 0 = Sha1.schedule block s

/-- The variables after `t` rounds hold those of the standard. -/
structure Holds (vars : Var → BitVec 32) (words : Sha1.Words) (t : Nat) :
    Prop where
  a : vars (var (4 * t)) = words.a
  b : vars (var (4 * t + 1)) = words.b
  c : vars (var (4 * t + 2)) = words.c
  d : vars (var (4 * t + 3)) = words.d
  e : vars (var (4 * t + 4)) = words.e

theorem window_start {block : List (BitVec 32)} (hblock : block.length = 16) :
    Window block block 0 := by
  refine ⟨hblock, ?_⟩
  intro s hs _
  have hlt : s < 16 := by simpa using hs
  rw [Nat.mod_eq_of_lt hlt, Sha1.schedule_of_lt block hlt]

theorem and_fifteen (i : Nat) : i &&& 15 = i % 16 :=
  Nat.and_two_pow_sub_one_eq_mod i 4

/-- `R0` finds the word of its round, and leaves the block. -/
theorem Window.first {block work : List (BitVec 32)} {t : Nat}
    (hwindow : Window block work t) (ht : t < 16) :
    work.getD (t % 16) 0 = Sha1.schedule block t ∧
      Window block work (t + 1) := by
  have hnow : max t 16 = 16 := Nat.max_eq_right (by omega)
  have hnext : max (t + 1) 16 = 16 := Nat.max_eq_right (by omega)
  obtain ⟨hlength, hwords⟩ := hwindow
  rw [hnow] at hwords
  refine ⟨hwords t ht (by omega), hlength, ?_⟩
  rw [hnext]
  exact hwords

/-- The recurrence, written over the oldest word of the block. -/
theorem Window.expand {block : List (BitVec 32)} {work : Work} {t : Nat}
    (hwindow : Window block work.block t) (ht : 16 ≤ t) :
    (expand (t % 16) work).block.getD (t % 16) 0 = Sha1.schedule block t ∧
      Window block (SHA1Custom.expand (t % 16) work).block (t + 1) := by
  obtain ⟨u, rfl⟩ : ∃ u, t = u + 16 := ⟨t - 16, by omega⟩
  have hnow : max (u + 16) 16 = u + 16 := Nat.max_eq_left (by omega)
  have hnext : max (u + 16 + 1) 16 = u + 17 := Nat.max_eq_left (by omega)
  obtain ⟨hlength, hwords⟩ := hwindow
  rw [hnow] at hwords
  have hword : blk work.block ((u + 16) % 16) = Sha1.schedule block (u + 16) := by
    have hindex : ∀ n, ((u + 16) % 16 + n) % 16 = (u + n) % 16 := by
      intro n
      omega
    have hsame : (u + 16) % 16 = u % 16 := Nat.add_mod_right u 16
    rw [blk, and_fifteen, and_fifteen, and_fifteen, hindex, hindex, hindex,
      hsame, hwords (u + 13) (by omega) (by omega),
      hwords (u + 8) (by omega) (by omega), hwords (u + 2) (by omega) (by omega),
      hwords u (by omega) (by omega), Sha1.schedule_add, rol_eq _ (by decide)]
  have hin : (u + 16) % 16 < work.block.length := by
    rw [hlength]
    exact Nat.mod_lt _ (by decide)
  have hset : (SHA1Custom.expand ((u + 16) % 16) work).block.getD
      ((u + 16) % 16) 0 = Sha1.schedule block (u + 16) := by
    rw [SHA1Custom.expand, hword, List.getD_eq_getElem?_getD,
      List.getElem?_set_self hin, Option.getD_some]
  refine ⟨hset, ?_, ?_⟩
  · rw [SHA1Custom.expand, List.length_set, hlength]
  · intro s hs hsix
    rw [hnext] at hs hsix
    by_cases hlast : s = u + 16
    · rw [hlast]
      exact hset
    · have hne : (u + 16) % 16 ≠ s % 16 := by omega
      have hkept := hwords s (by omega) (by omega)
      rw [SHA1Custom.expand, List.getD_eq_getElem?_getD,
        List.getElem?_set_ne hne, ← List.getD_eq_getElem?_getD, hkept]

/-- One round over the variables, whatever the operation. -/
theorem Holds.operate {work : Work} {words : Sha1.Words} {t i : Nat}
    {word : BitVec 32} (hvars : Holds work.vars words t)
    (hword : work.block.getD i 0 = word)
    {f : BitVec 32 → BitVec 32 → BitVec 32 → BitVec 32} {constant : BitVec 32}
    (hf : ∀ x y z, f x y z = Sha1.f t x y z) (hk : constant = Sha1.k t) :
    Holds (SHA1Custom.operate f constant (var (4 * t)) (var (4 * t + 1))
      (var (4 * t + 2)) (var (4 * t + 3)) (var (4 * t + 4)) i work).vars
      (Sha1.round t word words) (t + 1) := by
  have hne : ∀ {m n : Nat}, m % 5 ≠ n % 5 → var m ≠ var n :=
    fun hmod hvar => hmod (var_inj hvar)
  have hback : ∀ n, var (4 * (t + 1) + (n + 1)) = var (4 * t + n) := by
    intro n
    rw [show 4 * (t + 1) + (n + 1) = 4 * t + n + 5 by omega, var_add]
  have hfirst : var (4 * (t + 1)) = var (4 * t + 4) := by
    rw [Nat.mul_succ]
  have hzero : var (4 * t + 0) = var (4 * t) := rfl
  have hz : var (4 * t + 4) ≠ var (4 * t + 1) := hne (by omega)
  refine ⟨?_, ?_, ?_, ?_, ?_⟩
  · rw [hfirst, SHA1Custom.operate]
    simp only [Function.update_of_ne hz, Function.update_self]
    rw [hvars.a, hvars.b, hvars.c, hvars.d, hvars.e, hword, hf, hk,
      rol_eq _ (by decide), Sha1.round]
    ac_rfl
  · have hw : var (4 * t) ≠ var (4 * t + 1) := hne (by omega)
    have he : var (4 * t) ≠ var (4 * t + 4) := hne (by omega)
    rw [hback 0, hzero, SHA1Custom.operate]
    simp only [Function.update_of_ne hw, Function.update_of_ne he]
    exact hvars.a
  · have he : var (4 * t + 1) ≠ var (4 * t + 4) := hne (by omega)
    rw [hback 1, SHA1Custom.operate]
    simp only [Function.update_self, Function.update_of_ne he]
    rw [hvars.b, rol_eq _ (by decide), Sha1.round]
  · have hw : var (4 * t + 2) ≠ var (4 * t + 1) := hne (by omega)
    have he : var (4 * t + 2) ≠ var (4 * t + 4) := hne (by omega)
    rw [hback 2, SHA1Custom.operate]
    simp only [Function.update_of_ne hw, Function.update_of_ne he]
    exact hvars.c
  · have hw : var (4 * t + 3) ≠ var (4 * t + 1) := hne (by omega)
    have he : var (4 * t + 3) ≠ var (4 * t + 4) := hne (by omega)
    rw [hback 3, SHA1Custom.operate]
    simp only [Function.update_of_ne hw, Function.update_of_ne he]
    exact hvars.d

/-- A round of the code is a round of the standard. -/
theorem operation_spec {block : List (BitVec 32)} {work : Work}
    {words : Sha1.Words} {t : Nat} (hvars : Holds work.vars words t)
    (hwindow : Window block work.block t) :
    Holds (operation t work).vars
        (Sha1.round t (Sha1.schedule block t) words) (t + 1) ∧
      Window block (operation t work).block (t + 1) := by
  by_cases hfirst : t < 16
  · obtain ⟨hword, hnext⟩ := hwindow.first hfirst
    rw [operation, if_pos hfirst]
    refine ⟨hvars.operate hword ?_ ?_, hnext⟩
    · intro x y z
      rw [Sha1.f, if_pos (by omega)]
      exact choose_eq x y z
    · rw [Sha1.k, if_pos (by omega)]
  · obtain ⟨hword, hnext⟩ := hwindow.expand (Nat.not_lt.1 hfirst)
    have hkept : Holds (expand (t % 16) work).vars words t := hvars
    rw [operation, if_neg hfirst]
    split
    · next hsecond =>
      refine ⟨hkept.operate hword ?_ ?_, hnext⟩
      · intro x y z
        rw [Sha1.f, if_pos hsecond]
        exact choose_eq x y z
      · rw [Sha1.k, if_pos hsecond]
    · next hsecond =>
      split
      · next hthird =>
        refine ⟨hkept.operate hword ?_ ?_, hnext⟩
        · intro x y z
          rw [Sha1.f, if_neg hsecond, if_pos hthird]
          rfl
        · rw [Sha1.k, if_neg hsecond, if_pos hthird]
      · next hthird =>
        split
        · next hfourth =>
          refine ⟨hkept.operate hword ?_ ?_, hnext⟩
          · intro x y z
            rw [Sha1.f, if_neg hsecond, if_neg hthird, if_pos hfourth]
            exact majority_eq x y z
          · rw [Sha1.k, if_neg hsecond, if_neg hthird, if_pos hfourth]
        · next hfourth =>
          refine ⟨hkept.operate hword ?_ ?_, hnext⟩
          · intro x y z
            rw [Sha1.f, if_neg hsecond, if_neg hthird, if_neg hfourth]
            rfl
          · rw [Sha1.k, if_neg hsecond, if_neg hthird, if_neg hfourth]

/-- The unrolled rounds. -/
theorem operations_spec {block : List (BitVec 32)} {work : Work}
    {words : Sha1.Words} (hvars : Holds work.vars words 0)
    (hwindow : Window block work.block 0) (count : Nat) :
    Holds (((List.range count).map operation).foldl
        (fun work operation => operation work) work).vars
        (Sha1.rounds block words count) count ∧
      Window block (((List.range count).map operation).foldl
        (fun work operation => operation work) work).block count := by
  induction count with
  | zero => exact ⟨hvars, hwindow⟩
  | succ count ih =>
      rw [List.range_succ, List.map_append, List.foldl_append]
      exact operation_spec ih.1 ih.2

/-- `transform` is the compression of one block; the block it is handed is used
up. -/
theorem transform_eq (digest : Sha1.Words) {block : List (BitVec 32)}
    (hblock : block.length = 16) (transforms : BitVec 64) :
    (transform digest block transforms).1 = Sha1.compress digest block ∧
      (transform digest block transforms).2.1.length = 16 ∧
      (transform digest block transforms).2.2 = transforms + 1 := by
  have hstart : Holds (varsOf digest) digest 0 := ⟨rfl, rfl, rfl, rfl, rfl⟩
  obtain ⟨hvars, hwindow⟩ :=
    @operations_spec block ⟨varsOf digest, block⟩ digest hstart
      (window_start hblock) 80
  rw [← operations_eq] at hvars hwindow
  rw [transform]
  generalize operations.foldl (fun work operation => operation work)
    (⟨varsOf digest, block⟩ : Work) = work at hvars hwindow
  refine ⟨?_, hwindow.1, rfl⟩
  rw [Sha1.compress, Sha1.Words.add, ← hvars.a, ← hvars.b, ← hvars.c,
    ← hvars.d, ← hvars.e]
  rfl

theorem byteAt_eq (buffer : List UInt8) (i : Nat) :
    byteAt buffer i = BitVec.ofNat 32 (buffer.getD i 0).toNat := by
  have hall : ∀ byte : UInt8, byte.toBitVec.signExtend 32 &&& 0xff =
      BitVec.ofNat 32 byte.toNat :=
    NetworkMessages.forall_byte _ (by decide +kernel)
  exact hall _

/-- Four bytes put together from the last to the first. -/
theorem word_eq (first second third fourth : UInt8) :
    BitVec.ofNat 32 fourth.toNat ||| BitVec.ofNat 32 third.toNat <<< 8 |||
        BitVec.ofNat 32 second.toNat <<< 16 |||
        BitVec.ofNat 32 first.toNat <<< 24 =
      BitVec.ofNat 32 (beNat [first, second, third, fourth]) := by
  have hfirst := first.toNat_lt
  have hsecond := second.toNat_lt
  have hthird := third.toNat_lt
  have hfourth := fourth.toNat_lt
  have hword : ∀ n < 2 ^ 32, n % 2 ^ 32 = n := fun n hn => Nat.mod_eq_of_lt hn
  have hshift : ∀ (byte : UInt8) (count : Nat),
      byte.toNat <<< count = byte.toNat * 2 ^ count :=
    fun byte count => Nat.shiftLeft_eq _ _
  have hor : ∀ (low byte count : Nat), low < 2 ^ count →
      low ||| byte * 2 ^ count = byte * 2 ^ count + low := by
    intro low byte count hlow
    rw [Nat.lor_comm, ← Nat.shiftLeft_eq, Nat.shiftLeft_add_eq_or_of_lt hlow]
  apply BitVec.eq_of_toNat_eq
  simp only [BitVec.toNat_or, BitVec.toNat_shiftLeft, BitVec.toNat_ofNat,
    hword _ (show first.toNat < 2 ^ 32 by omega),
    hword _ (show second.toNat < 2 ^ 32 by omega),
    hword _ (show third.toNat < 2 ^ 32 by omega),
    hword _ (show fourth.toNat < 2 ^ 32 by omega), hshift,
    hword _ (show first.toNat * 2 ^ 24 < 2 ^ 32 by omega),
    hword _ (show second.toNat * 2 ^ 16 < 2 ^ 32 by omega),
    hword _ (show third.toNat * 2 ^ 8 < 2 ^ 32 by omega)]
  rw [hor _ _ 8 (by omega), hor _ _ 16 (by omega), hor _ _ 24 (by omega)]
  simp only [beNat, List.foldl_cons, List.foldl_nil]
  omega

theorem bufferToBlock_eq {buffer : List UInt8} (hbuffer : buffer.length = 64) :
    bufferToBlock buffer = Sha1.wordsOf buffer := by
  rw [@Sha1.wordsOf_eq_map buffer 16 hbuffer, bufferToBlock]
  apply List.map_congr_left
  intro i _
  rw [byteAt_eq, byteAt_eq, byteAt_eq, byteAt_eq, word_eq, Nat.add_zero]

/-- What the object has taken since it was new: whole blocks, hashed, and the
buffer. -/
def Taken (message : List UInt8) (sha1 : SHA1) : Prop :=
  ∃ whole count, message = whole ++ sha1.buffer ∧ whole.length = 64 * count ∧
    sha1.digest = Sha1.hashBlocks Sha1.initial whole ∧
    sha1.transforms = BitVec.ofNat 64 count

theorem taken_new : Taken [] SHA1.new :=
  ⟨[], 0, rfl, rfl, (Sha1.hashBlocks_of_lt _ (by decide)).symm, rfl⟩

/-- A full buffer, hashed. -/
theorem Taken.transform {message text : List UInt8} {sha1 : SHA1}
    (htaken : Taken message sha1) (hfull : (sha1.buffer ++ text).length = 64) :
    let done := SHA1Custom.transform sha1.digest
      (bufferToBlock (sha1.buffer ++ text)) sha1.transforms
    Taken (message ++ text) ⟨done.1, [], done.2.2, by decide⟩ := by
  obtain ⟨whole, count, rfl, hwhole, hhash, hcount⟩ := htaken
  have hwords : (Sha1.wordsOf (sha1.buffer ++ text)).length = 16 :=
    Sha1.length_wordsOf hfull
  obtain ⟨hsum, -, hmore⟩ := transform_eq sha1.digest hwords sha1.transforms
  rw [bufferToBlock_eq hfull]
  refine ⟨whole ++ (sha1.buffer ++ text), count + 1, ?_, ?_, ?_, ?_⟩
  · rw [List.append_nil, List.append_assoc]
  · rw [List.length_append, hwhole, hfull, Nat.mul_succ]
  · rw [hsum, hhash, Sha1.hashBlocks_concat _ hwhole hfull]
  · rw [hmore, hcount]
    exact (BitVec.ofNat_add ..).symm

/-- `update` puts its text behind the message, wherever the blocks end. -/
theorem Taken.update {message : List UInt8} {sha1 : SHA1}
    (htaken : Taken message sha1) (is : List UInt8) :
    Taken (message ++ is) (sha1.update is) := by
  generalize hsize : is.length = size
  induction size using Nat.strongRecOn generalizing message sha1 is with
  | _ size ih =>
      have hbuffer := sha1.buffer_lt
      rw [SHA1.update]
      by_cases hfull :
          (sha1.buffer ++ is.take (64 - sha1.buffer.length)).length = 64
      · have hemptied := htaken.transform hfull
        rw [dif_pos hfull]
        rw [List.length_append, List.length_take] at hfull
        have hless : (is.drop (64 - sha1.buffer.length)).length < size := by
          rw [List.length_drop]
          omega
        have hrest := ih _ hless hemptied _ rfl
        rw [List.append_assoc, List.take_append_drop] at hrest
        exact hrest
      · obtain ⟨whole, count, rfl, hwhole, hdigest, htransforms⟩ := htaken
        have hroom : is.take (64 - sha1.buffer.length) = is := by
          have hlt := length_fill hbuffer hfull
          rw [List.length_append, List.length_take] at hlt
          exact List.take_of_length_le (by omega)
        rw [dif_neg hfull]
        refine ⟨whole, count, ?_, hwhole, hdigest, htransforms⟩
        simp only [hroom, List.append_assoc]

theorem foldl_set_zero {block : List (BitVec 32)} {count : Nat}
    (hcount : count ≤ block.length) :
    (List.range count).foldl (fun block i => block.set i 0) block =
      List.replicate count 0 ++ block.drop count := by
  induction count with
  | zero => rfl
  | succ count ih =>
      have hlength : (List.replicate count (0 : BitVec 32)).length = count :=
        List.length_replicate
      rw [List.range_succ, List.foldl_append, ih (Nat.le_of_succ_le hcount),
        List.foldl_cons, List.foldl_nil, List.set_append_right _ _ hlength.le,
        hlength, Nat.sub_self, List.drop_eq_getElem_cons hcount,
        List.set_cons_zero, List.replicate_succ', List.append_assoc]
      rfl

/-- The length goes into the last two words of a block. -/
theorem set_last {words : List (BitVec 32)} (hwords : words.length = 14)
    {last : List (BitVec 32)} (hlast : last.length = 2) (high low : BitVec 32) :
    ((words ++ last).set 15 low).set 14 high = words ++ [high, low] := by
  rcases last with _ | ⟨first, _ | ⟨second, _ | ⟨third, rest⟩⟩⟩
  case cons.cons.nil =>
    rw [List.set_append_right _ _ (by omega), hwords,
      List.set_append_right _ _ (by omega), hwords]
    rfl
  all_goals simp at hlast

/-- `total_bits`, in its halves. -/
theorem totalBits_halves (count rest : Nat) :
    let totalBits : BitVec 64 :=
      (BitVec.ofNat 64 count * 64 + BitVec.ofNat 64 rest) * 8
    (totalBits >>> 32).setWidth 32 =
        BitVec.ofNat 32 (8 * (64 * count + rest) / 2 ^ 32) ∧
      totalBits.setWidth 32 = BitVec.ofNat 32 (8 * (64 * count + rest)) := by
  have htotal : (BitVec.ofNat 64 count * 64 + BitVec.ofNat 64 rest) * 8 =
      BitVec.ofNat 64 (8 * (64 * count + rest)) := by
    rw [Nat.mul_comm 8, Nat.mul_comm 64 count, BitVec.ofNat_mul,
      BitVec.ofNat_add, BitVec.ofNat_mul]
    rfl
  simp only [htotal]
  refine ⟨?_, ?_⟩
  · apply BitVec.eq_of_toNat_eq
    simp only [BitVec.toNat_setWidth, BitVec.toNat_ushiftRight,
      BitVec.toNat_ofNat, Nat.shiftRight_eq_div_pow]
    omega
  · apply BitVec.eq_of_toNat_eq
    simp only [BitVec.toNat_setWidth, BitVec.toNat_ofNat]
    omega

theorem leftpad_toDigits (width n : Nat) :
    (Nat.toDigits 16 n).leftpad (width + 2) '0' =
      (Nat.toDigits 16 (n / 16)).leftpad (width + 1) '0' ++
        [Nat.digitChar (n % 16)] := by
  by_cases hsmall : n < 16
  · rw [Nat.toDigits_of_lt_base hsmall, Nat.div_eq_of_lt hsmall,
      Nat.mod_eq_of_lt hsmall, Nat.toDigits_of_lt_base (by decide)]
    simp [List.leftpad, List.replicate_succ', Nat.digitChar]
  · rw [Nat.toDigits_of_base_le (by decide) (Nat.not_lt.1 hsmall)]
    simp [List.leftpad]

/-- A block that ends in the length. -/
theorem set_length {front : List UInt8} (hfront : front.length = 56)
    {last : List (BitVec 32)} (hlast : last.length = 2) (count rest : Nat) :
    let totalBits : BitVec 64 :=
      (BitVec.ofNat 64 count * 64 + BitVec.ofNat 64 rest) * 8
    ((Sha1.wordsOf front ++ last).set 15 (totalBits.setWidth 32)).set 14
        ((totalBits >>> 32).setWidth 32) =
      Sha1.wordsOf (front ++ beBytes 8 (8 * (64 * count + rest))) := by
  have hwords : front.length = 4 * 14 := hfront
  obtain ⟨hhigh, hlow⟩ := totalBits_halves count rest
  simp only [hhigh, hlow]
  rw [set_last (Sha1.length_wordsOf hwords) hlast, Sha1.wordsOf_append hwords,
    Sha1.wordsOf_beBytes_eight]

/-- The message behind its whole blocks has room for the length. -/
theorem finalDigest_of_room {whole : List UInt8} {count : Nat} {sha1 : SHA1}
    (hwhole : whole.length = 64 * count)
    (hdigest : sha1.digest = Sha1.hashBlocks Sha1.initial whole)
    (htransforms : sha1.transforms = BitVec.ofNat 64 count)
    (hroom : sha1.buffer.length < 56) :
    sha1.finalDigest = Sha1.hashBlocks Sha1.initial
      (whole ++ (sha1.buffer ++ (0x80 ::
        List.replicate (55 - sha1.buffer.length) 0 ++
        beBytes 8 (8 * (64 * count + sha1.buffer.length))))) := by
  let front := sha1.buffer ++ 0x80 :: List.replicate (55 - sha1.buffer.length) 0
  have hfront : front.length = 56 := by
    simp [front]
    omega
  have hwords : front.length = 4 * 14 := hfront
  have hpadded : (sha1.buffer ++ [0x80]).rightpad 64 0 =
      front ++ List.replicate (4 * 2) 0 := by
    have hzeros : 64 - (sha1.buffer.length + 1) =
        55 - sha1.buffer.length + 4 * 2 := by omega
    rw [List.rightpad, List.length_append, List.length_singleton, hzeros,
      ← List.replicate_append_replicate]
    simp [front]
  have hfull : (front ++ List.replicate (4 * 2) 0).length = 64 := by
    rw [List.length_append, hfront, List.length_replicate]
  have hblock : (front ++ beBytes 8
      (8 * (64 * count + sha1.buffer.length))).length = 64 := by
    rw [List.length_append, hfront, length_beBytes]
  have horig : ¬ (sha1.buffer ++ [0x80]).length > 64 - 8 := by
    rw [List.length_append, List.length_singleton]
    omega
  have hlast := @set_length front hfront (List.replicate 2 0)
    List.length_replicate count sha1.buffer.length
  have hmessage : whole ++ (sha1.buffer ++ (0x80 ::
      List.replicate (55 - sha1.buffer.length) 0 ++
      beBytes 8 (8 * (64 * count + sha1.buffer.length)))) =
      whole ++ (front ++
        beBytes 8 (8 * (64 * count + sha1.buffer.length))) := by
    simp [front]
  rw [SHA1.finalDigest, hpadded, bufferToBlock_eq hfull, htransforms, hdigest]
  simp only [horig, if_false]
  rw [Sha1.wordsOf_append hwords, Sha1.wordsOf_zeros, hlast,
    (transform_eq _ (Sha1.length_wordsOf hblock) _).1, hmessage,
    Sha1.hashBlocks_concat _ hwhole hblock]

/-- It has no room: a block with the one bit, and a block with the length. -/
theorem finalDigest_of_full {whole : List UInt8} {count : Nat} {sha1 : SHA1}
    (hwhole : whole.length = 64 * count)
    (hdigest : sha1.digest = Sha1.hashBlocks Sha1.initial whole)
    (htransforms : sha1.transforms = BitVec.ofNat 64 count)
    (hroom : ¬ sha1.buffer.length < 56) :
    sha1.finalDigest = Sha1.hashBlocks Sha1.initial
      (whole ++ (sha1.buffer ++ (0x80 ::
        List.replicate (63 - sha1.buffer.length) 0 ++
        (List.replicate 56 0 ++
          beBytes 8 (8 * (64 * count + sha1.buffer.length)))))) := by
  have hbuffer := sha1.buffer_lt
  let first := sha1.buffer ++ 0x80 :: List.replicate (63 - sha1.buffer.length) 0
  have hpadded : (sha1.buffer ++ [0x80]).rightpad 64 0 = first := by
    have hzeros : 64 - (sha1.buffer.length + 1) = 63 - sha1.buffer.length := by
      omega
    rw [List.rightpad, List.length_append, List.length_singleton, hzeros]
    simp [first]
  have hfirst : first.length = 64 := by
    simp [first]
    omega
  have hzeros : (List.replicate 56 (0 : UInt8)).length = 56 :=
    List.length_replicate
  have hblock : (List.replicate 56 0 ++ beBytes 8
      (8 * (64 * count + sha1.buffer.length))).length = 64 := by
    rw [List.length_append, hzeros, length_beBytes]
  have horig : (sha1.buffer ++ [0x80]).length > 64 - 8 := by
    rw [List.length_append, List.length_singleton]
    omega
  obtain ⟨hsum, hused, -⟩ := transform_eq sha1.digest
    (@Sha1.length_wordsOf first 16 hfirst) sha1.transforms
  rw [htransforms] at hsum hused
  have hmore : (whole ++ first).length = 64 * (count + 1) := by
    rw [List.length_append, hwhole, hfirst, Nat.mul_succ]
  have hmessage : whole ++ (sha1.buffer ++ (0x80 ::
      List.replicate (63 - sha1.buffer.length) 0 ++
      (List.replicate 56 0 ++
        beBytes 8 (8 * (64 * count + sha1.buffer.length))))) =
      whole ++ first ++ (List.replicate 56 0 ++
        beBytes 8 (8 * (64 * count + sha1.buffer.length))) := by
    simp [first]
  have hlast := @set_length (List.replicate (4 * 14) 0) hzeros
    ((transform sha1.digest (Sha1.wordsOf first)
      (BitVec.ofNat 64 count)).2.1.drop 14)
    (by rw [List.length_drop, hused]) count sha1.buffer.length
  rw [Sha1.wordsOf_zeros] at hlast
  rw [SHA1.finalDigest, hpadded, bufferToBlock_eq hfirst, htransforms]
  simp only [horig, if_true]
  rw [foldl_set_zero (by rw [hused]; decide), hlast,
    (transform_eq _ (Sha1.length_wordsOf hblock) _).1, hsum, hdigest, hmessage,
    Sha1.hashBlocks_concat _ hmore hblock,
    Sha1.hashBlocks_concat _ hwhole hfirst]

theorem Taken.finalDigest {message : List UInt8} {sha1 : SHA1}
    (htaken : Taken message sha1) :
    sha1.finalDigest = Sha1.hashBlocks Sha1.initial
      (message ++ Sha1.padding message.length) := by
  obtain ⟨whole, count, rfl, hwhole, hdigest, htransforms⟩ := htaken
  rw [List.length_append, hwhole, Sha1.padding_eq sha1.buffer_lt,
    List.append_assoc]
  split
  · next hroom =>
    exact finalDigest_of_room hwhole hdigest htransforms hroom
  · next hroom =>
    exact finalDigest_of_full hwhole hdigest htransforms hroom

/-- A hexadecimal digit, in lower case. -/
def hexDigit (value : Nat) : UInt8 :=
  UInt8.ofNat (Nat.digitChar value).toNat

/-- Two digits for each byte. -/
def hexText (bytes : List UInt8) : List UInt8 :=
  bytes.flatMap fun byte =>
    [hexDigit (byte.toNat / 16), hexDigit (byte.toNat % 16)]

theorem hexValue_hexDigit {value : Nat} (hvalue : value < 16) :
    hexValue (hexDigit value) = some value := by
  have hall : ∀ value < 16, hexValue (hexDigit value) = some value := by
    decide
  exact hall value hvalue

theorem spells_hexText (bytes : List UInt8) : Spells (hexText bytes) bytes := by
  induction bytes with
  | nil => exact True.intro
  | cons byte rest ih =>
      have hbyte := byte.toNat_lt
      exact ⟨hexValue_hexDigit (by omega),
        hexValue_hexDigit (Nat.mod_lt _ (by decide)), ih⟩

/-- A stream pads a number to the digits of its bytes. -/
theorem leftpad_eq_hexText (width n : Nat) (hn : n < 256 ^ (width + 1)) :
    ((Nat.toDigits 16 n).leftpad (2 * width + 2) '0').map
        (fun c => UInt8.ofNat c.toNat) = hexText (beBytes (width + 1) n) := by
  have hone : ∀ n, hexText (beBytes 1 n) =
      [hexDigit (n / 16 % 16), hexDigit (n % 16)] := by
    intro n
    have hbyte : (UInt8.ofNat (n / 256 ^ 0)).toNat = n % 256 := by
      simp
    have hhigh : n % 256 / 16 = n / 16 % 16 := by omega
    have hlow : n % 256 % 16 = n % 16 := by omega
    simp only [hexText, beBytes, List.flatMap_cons, List.flatMap_nil, hbyte,
      hhigh, hlow, List.append_nil]
  induction width generalizing n with
  | zero =>
      have hsmall : n / 16 < 16 := by omega
      rw [Nat.mul_zero, leftpad_toDigits 0, Nat.toDigits_of_lt_base hsmall,
        hone, Nat.mod_eq_of_lt hsmall]
      rfl
  | succ width ih =>
      have hrest : n / 256 < 256 ^ (width + 1) := by
        rw [pow_succ] at hn
        omega
      have hdiv : n / 16 / 16 = n / 256 := Nat.div_div_eq_div_mul n 16 16
      have hsplit : beBytes (width + 1 + 1) n =
          beBytes (width + 1) (n / 256) ++ beBytes 1 n :=
        beBytes_add (width + 1) 1 n
      rw [hsplit, hexText, List.flatMap_append, ← hexText, ← hexText, hone,
        ← ih _ hrest, Nat.mul_succ, leftpad_toDigits (2 * width + 2),
        leftpad_toDigits (2 * width + 1), hdiv]
      simp [hexDigit]

theorem Taken.final {message : List UInt8} {sha1 : SHA1}
    (htaken : Taken message sha1) :
    sha1.final = (hexText (Sha1.digest message), SHA1.new) := by
  have hword : ∀ word : BitVec 32,
      hexWord word = hexText (beBytes 4 word.toNat) :=
    fun word => leftpad_eq_hexText 3 word.toNat word.isLt
  simp only [SHA1.final, hword, htaken.finalDigest, Sha1.digest,
    Sha1.Words.bytes, hexText, List.flatMap_append]

inductive Sha1Call where
  | update (text : List UInt8)
  | final
deriving DecidableEq, Repr

/-- A call; `final` returns a text. -/
def SHA1.step (sha1 : SHA1) : Sha1Call → Option (SHA1 × List (List UInt8))
  | .update text => some (sha1.update text, [])
  | .final => some (sha1.final.2, [sha1.final.1])

/-- The SHA-1 values of what the calls put together between one `final` and the
next, in hexadecimal. -/
def hashes : List UInt8 → List Sha1Call → List (List UInt8)
  | _, [] => []
  | message, .update text :: rest => hashes (message ++ text) rest
  | message, .final :: rest => hexText (Sha1.digest message) :: hashes [] rest

theorem run_of_taken {message : List UInt8} {sha1 : SHA1}
    (htaken : Taken message sha1) (calls : List Sha1Call) :
    ∃ last, run SHA1.step sha1 calls = some (last, hashes message calls) := by
  induction calls generalizing message sha1 with
  | nil => exact ⟨sha1, rfl⟩
  | cons call rest ih =>
      cases call with
      | update text =>
          obtain ⟨last, hrest⟩ := ih (htaken.update text)
          refine ⟨last, (run_cons_eq_some SHA1.step).2 ?_⟩
          exact ⟨_, [], _, rfl, hrest, rfl⟩
      | final =>
          obtain ⟨last, hrest⟩ := ih taken_new
          refine ⟨last, (run_cons_eq_some SHA1.step).2 ?_⟩
          refine ⟨SHA1.new, [hexText (Sha1.digest message)], _, ?_, hrest, rfl⟩
          rw [SHA1.step, htaken.final]

/-- One object, whatever calls are made of it and however they cut the texts,
returns the SHA-1 values of the messages, and each `final` leaves it new. -/
theorem sha1_streaming (calls : List Sha1Call) :
    ∃ last, run SHA1.step SHA1.new calls = some (last, hashes [] calls) :=
  run_of_taken taken_new calls

end SHA1Custom

end VoiceServer

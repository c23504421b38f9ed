import BlindSchnorr.Arith.Modular
import BlindSchnorr.Proofs.Outcome

/-!
# Runs that check every step

The operations on numbers and byte strings are total: a difference below zero is zero, a remainder by
zero is the dividend, and a part that reaches beyond the end of a string is cut short. A checked run
makes the same computation with operations that trap in these cases. Where it agrees with the
computation, no case of the kind is ever reached.
-/
namespace BlindSchnorr

/-- An operation outside its domain. -/
inductive Trap
  | underflow (minuend subtrahend : Nat)
  | zeroModulus (dividend : Nat)
  | wideShift (count : Nat)
  | outOfBounds (start stop length : Nat)
  | lengthMismatch (expected actual : Nat)
deriving DecidableEq, Repr

/-- Why a checked run has no result: a step of it traps, or its input is refused. -/
inductive Stop
  | trap (cause : Trap)
  | refusal (cause : Error)
deriving DecidableEq, Repr

/-- The outcome of a checked run. -/
abbrev Checked := Except Stop

namespace Checked

variable {α β : Type}

/-- The difference of two numbers, the first of which has to be the greater. -/
def sub (a b : Nat) : Checked Nat :=
  if b ≤ a then .ok (a - b) else .error (.trap (.underflow a b))

/-- The remainder by a modulus that has to be positive. -/
def mod (a m : Nat) : Checked Nat :=
  if m = 0 then .error (.trap (.zeroModulus a)) else .ok (a % m)

/-- The power modulo a number that has to be positive. -/
def pow (b e m : Nat) : Checked Nat :=
  if m = 0 then .error (.trap (.zeroModulus b)) else .ok (Modular.pow b e m)

/-- A byte shifted by less than its width. -/
def shiftRight (d : UInt8) (count : Nat) : Checked UInt8 :=
  if count < 8 then .ok (d >>> UInt8.ofNat count) else .error (.trap (.wideShift count))

/-- The bytes from one position to another, which have to be in order and within the string. -/
def slice (b : Bytes) (start stop : Nat) : Checked Bytes :=
  if start ≤ stop ∧ stop ≤ b.length then .ok ((b.take stop).drop start)
  else .error (.trap (.outOfBounds start stop b.length))

/-- The byte at a position within the string replaced. -/
def put (b : Bytes) (i : Nat) (d : UInt8) : Checked Bytes :=
  if i < b.length then .ok (b.set i d) else .error (.trap (.outOfBounds i (i + 1) b.length))

/-- The bytes between two positions replaced by a string, which has to be as long as they are. -/
def copy (b : Bytes) (start stop : Nat) (source : Bytes) : Checked Bytes := do
  let target ← slice b start stop
  if source.length = target.length then .ok (b.take start ++ source ++ b.drop stop)
  else .error (.trap (.lengthMismatch target.length source.length))

theorem sub_of_le {a b : Nat} (h : b ≤ a) : sub a b = .ok (a - b) := if_pos h

theorem mod_of_pos {a m : Nat} (h : 0 < m) : mod a m = .ok (a % m) := if_neg (Nat.ne_of_gt h)

theorem mod_eq_ok_iff {a m r : Nat} : mod a m = .ok r ↔ 0 < m ∧ a % m = r := by
  unfold mod
  split_ifs with h <;> simp [Nat.pos_iff_ne_zero, h]

theorem pow_of_pos {b e m : Nat} (h : 0 < m) : pow b e m = .ok (Modular.pow b e m) := if_neg (Nat.ne_of_gt h)

theorem shiftRight_of_lt {d : UInt8} {count : Nat} (h : count < 8) :
    shiftRight d count = .ok (d >>> UInt8.ofNat count) := if_pos h

theorem slice_of_le {b : Bytes} {start stop : Nat} (hstart : start ≤ stop) (hstop : stop ≤ b.length) :
    slice b start stop = .ok ((b.take stop).drop start) := if_pos ⟨hstart, hstop⟩

/-- A slice up to the end. -/
theorem slice_to_end {b : Bytes} {start : Nat} (h : start ≤ b.length) :
    slice b start b.length = .ok (b.drop start) := by
  rw [slice_of_le h le_rfl, List.take_length]

theorem copy_of_length_eq {b source : Bytes} {start stop : Nat} (hstart : start ≤ stop)
    (hstop : stop ≤ b.length) (hlength : source.length = stop - start) :
    copy b start stop source = .ok (b.take start ++ source ++ b.drop stop) := by
  have htarget : source.length = ((b.take stop).drop start).length := by
    rw [List.length_drop, List.length_take, hlength, min_eq_left hstop]
  rw [copy, slice_of_le hstart hstop, ok_bind, if_pos htarget]

/-- A refusal of the input. -/
def refuse (cause : Error) : Checked α := .error (.refusal cause)

/-- A computation as a run in which there is nothing to check. -/
def unchecked (x : Except Error α) : Checked α := x.mapError .refusal

@[simp] theorem unchecked_ok (a : α) : unchecked (.ok a) = .ok a := rfl

@[simp] theorem refuse_bind (e : Error) (f : α → Checked β) : (refuse e >>= f) = refuse e := rfl

theorem unchecked_bind (x : Except Error α) (f : α → Except Error β) :
    unchecked (x >>= f) = unchecked x >>= fun a => unchecked (f a) := by
  cases x <;> rfl

theorem unchecked_map (x : Except Error α) (f : α → β) :
    unchecked (x.map f) = unchecked x >>= fun a => .ok (f a) := by
  cases x <;> rfl

theorem unchecked_ne_trap (x : Except Error α) (cause : Trap) : unchecked x ≠ .error (.trap cause) := by
  cases x <;> nofun

/-- A run that never traps and ends as a computation does. -/
structure Completes (run : Checked α) (x : Except Error α) : Prop where
  ne_trap : ∀ cause, run ≠ .error (.trap cause)
  eq_unchecked : run = unchecked x

theorem Completes.of_eq {run : Checked α} {x : Except Error α} (h : run = unchecked x) : Completes run x where
  ne_trap := h ▸ unchecked_ne_trap x
  eq_unchecked := h

end Checked

end BlindSchnorr

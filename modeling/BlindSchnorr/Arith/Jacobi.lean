import BlindSchnorr.Error

/-!
# The Jacobi symbol

The binary algorithm: all factors two of the upper number are split off at once with the
supplementary law, and two odd numbers change places with quadratic reciprocity. Both laws
look at the lowest byte of a number only. The symbol is defined for odd moduli from three on.
-/
namespace BlindSchnorr.Jacobi

def lowByte (n : Nat) : Nat := n % 256

/-- How many factors two a number has. Zero counts as having none. -/
def twos (a : Nat) : Nat := if a = 0 ∨ a % 2 = 1 then 0 else twos (a / 2) + 1
termination_by a

/-- What the factors two leave of a positive number is odd. -/
theorem shiftRight_twos_odd {a : Nat} (ha : 0 < a) : (a >>> twos a) % 2 = 1 := by
  fun_induction twos a with
  | case1 a h => exact h.resolve_left (Nat.ne_of_gt ha)
  | case2 a h ih =>
    rw [Nat.add_comm, Nat.shiftRight_add]
    exact ih (by omega)

/-- The sign that splitting off `t` factors two brings: `-1` iff `t` is odd and `n` is neither
1 nor 7 modulo 8. -/
def twosSign (t n : Nat) : Int :=
  if t % 2 = 1 ∧ lowByte n % 8 ≠ 1 ∧ lowByte n % 8 ≠ 7 then -1 else 1

/-- The sign that exchanging two odd numbers brings: `-1` iff both are 3 modulo 4. -/
def swapSign (a n : Nat) : Int := if lowByte a % 4 = 3 ∧ lowByte n % 4 = 3 then -1 else 1

/-- The product of `s` and the symbol of `a` over an odd `n` above `a`. -/
def loop (a n : Nat) (s : Int) : Int :=
  if 1 < a then
    let odd := a >>> twos a
    let s := twosSign (twos a) n * s
    if odd = 1 then s else loop (n % odd) odd (swapSign odd n * s)
  else if a = 0 then 0 else s
termination_by a
decreasing_by
  have hodd := shiftRight_twos_odd (a := a) (by omega)
  have hpos : 0 < a >>> twos a := Nat.pos_of_ne_zero fun h0 => by simp [h0] at hodd
  exact Nat.lt_of_lt_of_le (Nat.mod_lt n hpos) (Nat.shiftRight_le a (twos a))

/-- Whether the symbol is defined over `n`. -/
def IsModulus (n : Nat) : Prop := n % 2 = 1 ∧ 3 ≤ n

instance (n : Nat) : Decidable (IsModulus n) := inferInstanceAs (Decidable (_ ∧ _))

/-- The Jacobi symbol of a natural number over `n`. -/
def symbol (a n : Nat) : Except Error Int :=
  if IsModulus n then .ok (loop (a % n) n 1) else .error .invalidModulus

/-- The Jacobi symbol of an integer over `n`. A remainder has the sign of the integer, so a
negative one is raised by `n`. -/
def symbolInt (a : Int) (n : Nat) : Except Error Int :=
  if IsModulus n then
    let r := a.tmod n
    symbol (if r < 0 then r + n else r).natAbs n
  else .error .invalidModulus

end BlindSchnorr.Jacobi

import Mathlib
import BlindSchnorr.Arith.Jacobi

/-!
# The binary algorithm computes the Jacobi symbol

Each turn of the loop multiplies the sign by what the supplementary law or reciprocity asks
for, so the product of the sign and the symbol never changes.
-/
namespace BlindSchnorr.Jacobi

open scoped NumberTheorySymbols

theorem jacobiSym_mod (a n : Nat) : J((a % n : Nat) | n) = J(a | n) := by
  rw [Int.natCast_mod]
  exact (jacobiSym.mod_left a n).symm

theorem lowByte_mod_eight (n : Nat) : lowByte n % 8 = n % 8 := Nat.mod_mod_of_dvd n (by norm_num)

theorem lowByte_mod_four (n : Nat) : lowByte n % 4 = n % 4 := Nat.mod_mod_of_dvd n (by norm_num)

theorem two_pow_twos_mul (a : Nat) : 2 ^ twos a * (a >>> twos a) = a := by
  fun_induction twos a with
  | case1 a h => rw [pow_zero, one_mul, Nat.shiftRight_zero]
  | case2 a h ih =>
    rw [add_comm, Nat.shiftRight_add, pow_add, mul_assoc, Nat.shiftRight_one, ih]
    omega

/-- The sign of the factors two is a power of the symbol of two. -/
theorem twosSign_eq {n : Nat} (hn : n % 2 = 1) (t : Nat) : twosSign t n = J(2 | n) ^ t := by
  rw [jacobiSym.at_two (Nat.odd_iff.2 hn), ZMod.χ₈_nat_eq_if_mod_eight, if_neg (by omega), twosSign,
    lowByte_mod_eight]
  by_cases h8 : n % 8 = 1 ∨ n % 8 = 7
  · rw [if_neg (by tauto), if_pos h8, one_pow]
  · rw [if_neg h8]
    rcases Nat.even_or_odd t with ht | ht
    · rw [if_neg fun h => Nat.not_even_iff.2 h.1 ht, ht.neg_one_pow]
    · rw [if_pos ⟨Nat.odd_iff.1 ht, not_or.1 h8⟩, ht.neg_one_pow]

theorem twosSign_mul {n : Nat} (hn : n % 2 = 1) (a : Nat) :
    twosSign (twos a) n * J((a >>> twos a : Nat) | n) = J(a | n) := by
  have hsplit : (a : ℤ) = 2 ^ twos a * (a >>> twos a : Nat) := by
    exact_mod_cast (two_pow_twos_mul a).symm
  conv_rhs => rw [hsplit]
  rw [twosSign_eq hn, jacobiSym.mul_left, jacobiSym.pow_left]

theorem swapSign_mul {a n : Nat} (ha : a % 2 = 1) (hn : n % 2 = 1) :
    swapSign a n * J((n % a : Nat) | a) = J(a | n) := by
  rw [jacobiSym_mod, ← jacobiSym.quadratic_reciprocity_if ha hn, swapSign, lowByte_mod_four,
    lowByte_mod_four]
  split_ifs
  · rw [neg_one_mul]
  · rw [one_mul]

theorem loop_eq (a n : Nat) (s : ℤ) (hn : n % 2 = 1) (h1 : 1 < n) : loop a n s = s * J(a | n) := by
  fun_induction loop a n s with
  | case1 a n s ha odd s' hone =>
    rw [← twosSign_mul hn a, show a >>> twos a = 1 from hone, Nat.cast_one, jacobiSym.one_left, mul_one,
      mul_comm]
  | case2 a n s ha odd s' hone ih =>
    have hodd : odd % 2 = 1 := shiftRight_twos_odd (by omega)
    have hsplit : twosSign (twos a) n * J(odd | n) = J(a | n) := twosSign_mul hn a
    have hs : s' = twosSign (twos a) n * s := rfl
    clear_value odd s'
    rw [ih hodd (by omega), mul_comm (swapSign odd n), mul_assoc, swapSign_mul hodd hn, hs, ← hsplit]
    ring
  | case3 n s => simp [jacobiSym.zero_left h1]
  | case4 a n s hle h0 =>
    have ha : a = 1 := by omega
    simp [ha]

/-- Over every modulus from three on the algorithm returns the symbol. -/
theorem symbol_eq {n : Nat} (hn : IsModulus n) (a : Nat) : symbol a n = .ok J(a | n) := by
  have h1 : 1 < n := lt_of_lt_of_le (by decide) hn.2
  rw [symbol, if_pos hn, loop_eq _ _ _ hn.1 h1, one_mul, jacobiSym_mod]

/-- Raised by the modulus where it is negative, the remainder is not negative any more and has the
symbol of the integer. -/
theorem jacobiSym_natAbs_tmod (a : ℤ) {n : Nat} (hn : 0 < n) :
    J((if a.tmod n < 0 then a.tmod n + n else a.tmod n).natAbs | n) = J(a | n) := by
  have hremainder : a.tmod n % n = a % n := by
    rw [Int.tmod_def, Int.sub_mul_emod_self_left]
  have hlow : -(n : ℤ) < a.tmod n := Int.lt_tmod_of_pos a (by exact_mod_cast hn)
  generalize a.tmod n = r at *
  apply jacobiSym.mod_left'
  split_ifs with hr
  · rw [Int.natAbs_of_nonneg (by omega), Int.add_emod_right, hremainder]
  · rw [Int.natAbs_of_nonneg (by omega), hremainder]

theorem symbolInt_eq {n : Nat} (hn : IsModulus n) (a : ℤ) : symbolInt a n = .ok J(a | n) := by
  have hpos : 0 < n := lt_of_lt_of_le (by decide) hn.2
  rw [symbolInt, if_pos hn, symbol_eq hn, jacobiSym_natAbs_tmod a hpos]

theorem symbolInt_of_not_isModulus {n : Nat} (hn : ¬IsModulus n) (a : ℤ) :
    symbolInt a n = .error .invalidModulus := if_neg hn

/-- Of an integer of any size and sign the algorithm returns the Jacobi symbol, the product of the
Legendre symbols over the prime factors of the modulus. It refuses the even moduli and those
below three, and no others. -/
theorem symbolInt_computes_jacobiSym (a : ℤ) (n : Nat) :
    (symbolInt a n = .error .invalidModulus ↔ n % 2 = 0 ∨ n < 3) ∧
    (∀ s, symbolInt a n = .ok s ↔ (n % 2 = 1 ∧ 3 ≤ n) ∧ s = J(a | n)) ∧
    (symbolInt a n = .ok 0 ↔ (n % 2 = 1 ∧ 3 ≤ n) ∧ 1 < Int.gcd a n) ∧
    ∀ m : Nat, symbol m n = symbolInt m n := by
  by_cases hn : IsModulus n
  · have hmodulus : n % 2 = 1 ∧ 3 ≤ n := hn
    have hzero : J(a | n) = 0 ↔ 1 < Int.gcd a n := by
      have hne : n ≠ 0 := by omega
      have hgcd : Int.gcd a n ≠ 0 := fun h => hne (by exact_mod_cast (Int.gcd_eq_zero_iff.1 h).2)
      rw [jacobiSym.eq_zero_iff, and_iff_right hne]
      omega
    rw [symbolInt_eq hn]
    refine ⟨?_, fun s => ?_, ?_, fun m => ?_⟩
    · refine iff_of_false nofun ?_
      omega
    · rw [Except.ok.injEq, and_iff_right hmodulus, eq_comm]
    · rw [Except.ok.injEq, and_iff_right hmodulus, hzero]
    · rw [symbol_eq hn, symbolInt_eq hn]
  · rw [symbolInt_of_not_isModulus hn]
    refine ⟨?_, fun s => ?_, ?_, fun m => ?_⟩
    · refine iff_of_true rfl ?_
      unfold IsModulus at hn
      omega
    · exact iff_of_false nofun fun h => hn h.1
    · exact iff_of_false nofun fun h => hn h.1
    · rw [symbolInt_of_not_isModulus hn, symbol, if_neg hn]

/-- A negative integer over a composite modulus. -/
example : symbolInt (-8) 21 = .ok (-1) := by decide +kernel

section Prime

variable {p : Nat}

theorem isModulus_of_prime (hp : p.Prime) (h2 : p ≠ 2) : IsModulus p :=
  ⟨Nat.odd_iff.1 (hp.odd_of_ne_two h2), lt_of_le_of_ne hp.two_le (Ne.symm h2)⟩

theorem jacobiSym_eq_zero_iff [hp : Fact p.Prime] {y : Nat} (hy : y < p) : J(y | p) = 0 ↔ y = 0 := by
  rw [← jacobiSym.legendreSym.to_jacobiSym, legendreSym.eq_zero_iff, Int.cast_natCast, ZMod.natCast_eq_zero_iff]
  constructor
  · exact fun h => Nat.eq_zero_of_dvd_of_lt h hy
  · rintro rfl
    exact dvd_zero p

/-- Over a prime the symbol tells the squares. -/
theorem jacobiSym_eq_one_iff [hp : Fact p.Prime] {y : Nat} (hy : y < p) :
    J(y | p) = 1 ↔ y ≠ 0 ∧ IsSquare (y : ZMod p) := by
  by_cases h0 : y = 0
  · refine iff_of_false ?_ fun h => h.1 h0
    rw [(jacobiSym_eq_zero_iff hy).2 h0]
    exact zero_ne_one
  · have hne : ((y : ℤ) : ZMod p) ≠ 0 := by
      rw [Int.cast_natCast, Ne, ZMod.natCast_eq_zero_iff]
      exact fun hdvd => h0 (Nat.eq_zero_of_dvd_of_lt hdvd hy)
    rw [← jacobiSym.legendreSym.to_jacobiSym, legendreSym.eq_one_iff p hne, Int.cast_natCast]
    exact (and_iff_right h0).symm

/-- Over a prime the symbol is `-1` at what has no square root, and nowhere else. -/
theorem jacobiSym_eq_neg_one_iff [hp : Fact p.Prime] {v : Nat} : J(v | p) = -1 ↔ ¬IsSquare (v : ZMod p) := by
  rw [← jacobiSym.legendreSym.to_jacobiSym, legendreSym.eq_neg_one_iff, Int.cast_natCast]

theorem jacobiSym_neg_mod (h4 : p % 4 = 3) {y : Nat} (hy : y ≤ p) :
    J(((p - y) % p : Nat) | p) = -J(y | p) := by
  have hneg : J((p - y : Nat) | p) = J(-(y : ℤ) | p) := by
    apply jacobiSym.mod_left'
    rw [Nat.cast_sub hy, sub_eq_neg_add, Int.add_emod_right]
  rw [jacobiSym_mod, hneg, jacobiSym.neg _ (Nat.odd_iff.2 (by omega)), ZMod.χ₄_nat_three_mod_four h4, neg_one_mul]

end Prime

end BlindSchnorr.Jacobi

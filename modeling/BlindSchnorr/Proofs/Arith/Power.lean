import Mathlib
import BlindSchnorr.Arith.Modular

/-!
# Double-and-add and modular arithmetic

What a left-to-right pass over the binary digits keeps, and what modular powers, differences,
inverses and square roots are in the integers modulo a prime.
-/
namespace BlindSchnorr

namespace Binary

theorem lt_two_pow_size (k : Nat) : k < 2 ^ size k := by
  unfold size
  split_ifs with hk
  · simp [hk]
  · exact Nat.lt_log2_self

theorem size_eq (k : Nat) : size k = k.size := by
  apply le_antisymm
  · unfold size
    split_ifs with hk
    · exact Nat.zero_le _
    · exact Nat.lt_size.2 (Nat.log2_self_le hk)
  · exact Nat.size_le.2 (lt_two_pow_size k)

/-- A relation between the digits read so far and the accumulator that doubling and adding keep
holds of the digits and what they are folded to. -/
theorem foldl_digits {α β : Type} {double : α → α} {add : α → β → α} {x : β} {Reads : Nat → α → Prop}
    (even : ∀ j acc, Reads j acc → Reads (2 * j) (double acc))
    (odd : ∀ j acc, Reads j acc → Reads (2 * j + 1) (add (double acc) x))
    (k : Nat) (width : Nat) (j : Nat) (acc : α) (h : Reads j acc) :
    Reads (j * 2 ^ width + k % 2 ^ width)
      ((digits width k).foldl (fun acc d => if d then add (double acc) x else double acc) acc) := by
  induction width generalizing j acc with
  | zero => simpa [digits, Nat.mod_one] using h
  | succ width ih =>
    have hk : k % 2 ^ (width + 1) = k % 2 ^ width + 2 ^ width * (k.testBit width).toNat := by
      rw [Nat.mod_pow_succ, Nat.toNat_testBit]
    rw [digits, List.foldl_cons]
    cases hd : k.testBit width with
    | false =>
      have hread : j * 2 ^ (width + 1) + k % 2 ^ (width + 1) = 2 * j * 2 ^ width + k % 2 ^ width := by
        rw [hk, hd, Bool.toNat_false, pow_succ]
        ring
      rw [hread, if_neg Bool.false_ne_true]
      exact ih (2 * j) (double acc) (even j acc h)
    | true =>
      have hread : j * 2 ^ (width + 1) + k % 2 ^ (width + 1) =
          (2 * j + 1) * 2 ^ width + k % 2 ^ width := by
        rw [hk, hd, Bool.toNat_true, pow_succ]
        ring
      rw [hread, if_pos rfl]
      exact ih (2 * j + 1) (add (double acc) x) (odd j acc h)

theorem digits_append (m width k : Nat) :
    digits (m + width) k = digits m (k >>> width) ++ digits width k := by
  induction m with
  | zero => rw [zero_add, digits, List.nil_append]
  | succ m ih => rw [Nat.succ_add, digits, digits, ih, Nat.testBit_shiftRight, add_comm m, List.cons_append]

theorem digits_mod {width m : Nat} (h : width ≤ m) (k : Nat) : digits width (k % 2 ^ m) = digits width k := by
  induction width with
  | zero => rfl
  | succ width ih =>
    have hlow : decide (width < m) = true := decide_eq_true h
    rw [digits, digits, ih (Nat.le_of_succ_le h), Nat.testBit_mod_two_pow, hlow, Bool.true_and]

/-- The bits of the bytes of a numeral are the binary digits of the number. -/
theorem flatMap_digits (width k : Nat) :
    (Bytes.ofNat width k).flatMap (fun d => digits 8 d.toNat) = digits (width * 8) k := by
  induction width generalizing k with
  | zero => rw [zero_mul, Bytes.ofNat, List.flatMap_nil, digits]
  | succ width ih =>
    have hbyte : (UInt8.ofNat (k % 256)).toNat = k % 2 ^ 8 := by
      rw [UInt8.toNat_ofNat']
      exact Nat.mod_mod k (2 ^ 8)
    have hrest : k / 256 = k >>> 8 := by rw [Nat.shiftRight_eq_div_pow]
    rw [Bytes.ofNat, List.flatMap_append, ih, List.flatMap_singleton, hbyte, digits_mod le_rfl, hrest,
      Nat.succ_mul, digits_append]

/-- The induction that a pass over the bytes of a number runs along. -/
theorem foldl_byteBits {α β : Type} {double : α → α} {add : α → β → α} {start : α} {x : β}
    (Reads : Nat → α → Prop) (zero : Reads 0 start)
    (even : ∀ j acc, Reads j acc → Reads (2 * j) (double acc))
    (odd : ∀ j acc, Reads j acc → Reads (2 * j + 1) (add (double acc) x)) (k : Nat) :
    Reads k ((byteBits k).foldl (fun acc d => if d then add (double acc) x else double acc) start) := by
  have hwide : size k ≤ max 1 ((size k + 7) / 8) * 8 := by omega
  have hlt := (lt_two_pow_size k).trans_le (Nat.pow_le_pow_right two_pos hwide)
  have h := foldl_digits even odd k (max 1 ((size k + 7) / 8) * 8) 0 start zero
  rwa [zero_mul, zero_add, Nat.mod_eq_of_lt hlt, ← flatMap_digits] at h

/-- The induction that double-and-add runs along. -/
theorem doubleAndAdd_induction {α β : Type} {double : α → α} {add : α → β → α} {start : α} {x : β}
    (Reads : Nat → α → Prop) (zero : Reads 0 start)
    (even : ∀ j acc, Reads j acc → Reads (2 * j) (double acc))
    (odd : ∀ j acc, Reads j acc → Reads (2 * j + 1) (add (double acc) x)) (k : Nat) :
    Reads k (doubleAndAdd double add start x k) := by
  have h := foldl_digits even odd k (size k) 0 start zero
  rwa [zero_mul, zero_add, Nat.mod_eq_of_lt (lt_two_pow_size k)] at h

end Binary

namespace Modular

theorem pow_eq (b e m : Nat) : pow b e m = b ^ e % m := by
  apply Binary.doubleAndAdd_induction (fun j acc => acc = b ^ j % m)
  · rw [pow_zero]
  · rintro j _ rfl
    rw [← Nat.mul_mod, ← pow_add, two_mul]
  · rintro j _ rfl
    rw [← Nat.mul_mod (b ^ j), ← Nat.mul_mod, ← pow_add, ← two_mul, pow_succ]

theorem pow_lt {m : Nat} (hm : 0 < m) (b e : Nat) : pow b e m < m := by
  rw [pow_eq]
  exact Nat.mod_lt _ hm

theorem sub_lt {n : Nat} (hn : 0 < n) (a b : Nat) : sub a b n < n := Nat.mod_lt _ hn

section ZMod

variable {p : Nat}

@[simp] theorem cast_pow (b e : Nat) : (pow b e p : ZMod p) = (b : ZMod p) ^ e := by
  rw [pow_eq, ZMod.natCast_mod, Nat.cast_pow]

theorem cast_pow_eq_one_iff (hp : 1 < p) (b e : Nat) : (b : ZMod p) ^ e = 1 ↔ pow b e p = 1 := by
  rw [pow_eq, ← Nat.cast_pow, ← Nat.cast_one, ZMod.natCast_eq_natCast_iff', Nat.mod_eq_of_lt hp]

@[simp] theorem cast_sub [NeZero p] (a b : Nat) : (sub a b p : ZMod p) = (a : ZMod p) - b := by
  have hb : b % p ≤ a + p := (Nat.mod_lt b (NeZero.pos p)).le.trans (Nat.le_add_left p a)
  rw [sub, ZMod.natCast_mod, Nat.cast_sub hb, ZMod.natCast_mod, Nat.cast_add, ZMod.natCast_self,
    add_zero]

/-- The Fermat inverse inverts whatever the prime does not divide. -/
theorem cast_inv_mul [hp : Fact p.Prime] {v : Nat} (hv : (v : ZMod p) ≠ 0) :
    (inv v p : ZMod p) * v = 1 := by
  have hexp : p - 2 + 1 = p - 1 := by
    have := hp.out.two_le
    omega
  rw [inv, cast_pow, ← pow_succ, hexp, ZMod.pow_card_sub_one_eq_one hv]

/-- The Fermat inverse inverts in the field; of zero it is zero for an odd prime. -/
theorem cast_inv [Fact p.Prime] (hp : 2 < p) (v : Nat) : (inv v p : ZMod p) = (v : ZMod p)⁻¹ := by
  by_cases hv : (v : ZMod p) = 0
  · rw [inv, cast_pow, hv, inv_zero, zero_pow (by omega)]
  · exact eq_inv_of_mul_eq_one_left (cast_inv_mul hv)

end ZMod

section SquareRoot

variable {p : Nat}

theorem sqrt?_sound {v r : Nat} (h : sqrt? v p = some r) : r * r % p = v := by
  unfold sqrt? at h
  simp only [Option.ite_none_right_eq_some, Option.some.injEq] at h
  obtain ⟨hv, rfl⟩ := h
  exact hv

theorem sqrt?_lt (hp : 0 < p) {v r : Nat} (h : sqrt? v p = some r) : r < p := by
  unfold sqrt? at h
  simp only [Option.ite_none_right_eq_some, Option.some.injEq] at h
  obtain ⟨-, rfl⟩ := h
  exact pow_lt hp _ _

/-- For a prime that is 3 modulo 4 the candidate root of a square is a root. -/
theorem sqrt?_complete [Fact p.Prime] (h4 : p % 4 = 3) (y : Nat) : ∃ r, sqrt? (y * y % p) p = some r := by
  have hroot : (y * y : ZMod p) ^ ((p + 1) / 4) * (y * y : ZMod p) ^ ((p + 1) / 4) = y * y := by
    by_cases hy : (y : ZMod p) = 0
    · rw [hy, mul_zero, zero_pow (by omega), mul_zero]
    · have hfermat := ZMod.pow_card_sub_one_eq_one hy
      have hexp : 2 * ((p + 1) / 4 + (p + 1) / 4) = (p - 1) + 2 := by omega
      rw [← pow_add, ← pow_two, ← pow_mul, hexp, pow_add, hfermat, one_mul]
  refine ⟨pow (y * y % p) ((p + 1) / 4) p, ?_⟩
  unfold sqrt?
  apply if_pos
  apply (ZMod.natCast_eq_natCast_iff' _ _ p).1 _ |>.trans (Nat.mod_mod _ _)
  rw [Nat.cast_mul, cast_pow, ZMod.natCast_mod, Nat.cast_mul, hroot]

/-- The squares among the residues are those that a reduced number squares to. -/
theorem isSquare_cast_iff [NeZero p] {v : Nat} (hv : v < p) :
    IsSquare (v : ZMod p) ↔ ∃ y, y < p ∧ y * y % p = v := by
  constructor
  · intro ⟨a, ha⟩
    refine ⟨a.val, ZMod.val_lt a, ?_⟩
    have hcast : ((a.val * a.val : Nat) : ZMod p) = v := by
      rw [Nat.cast_mul, ZMod.natCast_zmod_val, ha]
    rw [(ZMod.natCast_eq_natCast_iff' _ _ p).1 hcast, Nat.mod_eq_of_lt hv]
  · intro ⟨y, _, hy⟩
    exact ⟨y, by rw [← hy, ZMod.natCast_mod, Nat.cast_mul]⟩

/-- Over a prime that is 3 modulo 4 no square is without a root. -/
theorem sqrt?_eq_none_iff [Fact p.Prime] (h4 : p % 4 = 3) {v : Nat} (hv : v < p) :
    sqrt? v p = none ↔ ¬IsSquare (v : ZMod p) := by
  rw [isSquare_cast_iff hv]
  constructor
  · intro hnone ⟨y, _, hy⟩
    obtain ⟨r, hr⟩ := sqrt?_complete h4 y
    rw [hy, hnone] at hr
    cases hr
  · intro hnot
    cases hr : sqrt? v p with
    | none => rfl
    | some r => exact absurd ⟨r, sqrt?_lt (by omega) hr, sqrt?_sound hr⟩ hnot

/-- Negating modulo an odd number changes the parity of everything but zero. -/
theorem parity_neg (hp : p % 2 = 1) {y : Nat} (hpos : 0 < y) (hy : y < p) :
    decide ((p - y) % p % 2 = 1) = !decide (y % 2 = 1) := by
  rw [Nat.mod_eq_of_lt (by omega : p - y < p), ← decide_not, decide_eq_decide]
  omega

theorem neg_mul_self {y : Nat} (hy : y ≤ p) : (p - y) % p * ((p - y) % p) % p = y * y % p := by
  apply (ZMod.natCast_eq_natCast_iff' _ _ p).1
  rw [Nat.cast_mul, Nat.cast_mul, ZMod.natCast_mod, Nat.cast_sub hy, ZMod.natCast_self]
  ring

theorem eq_or_eq_neg_of_mul_self [Fact p.Prime] {y r : Nat} (hy : y < p) (hr : r < p)
    (h : y * y % p = r * r % p) : y = r ∨ y = (p - r) % p := by
  have hsq : (y : ZMod p) * y = r * r := by exact_mod_cast (ZMod.natCast_eq_natCast_iff' _ _ p).2 h
  rcases mul_self_eq_mul_self_iff.1 hsq with heq | hneg
  · left
    have := (ZMod.natCast_eq_natCast_iff' _ _ p).1 heq
    rwa [Nat.mod_eq_of_lt hy, Nat.mod_eq_of_lt hr] at this
  · right
    have hcast : (y : ZMod p) = ((p - r : Nat) : ZMod p) := by
      rw [hneg, Nat.cast_sub hr.le, ZMod.natCast_self, zero_sub]
    have := (ZMod.natCast_eq_natCast_iff' _ _ p).1 hcast
    rwa [Nat.mod_eq_of_lt hy] at this

end SquareRoot

end Modular

end BlindSchnorr

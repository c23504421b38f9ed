import BlindSchnorr.Config
import BlindSchnorr.Proofs.Arith.Symbol
import BlindSchnorr.Proofs.Curve.Cusp
import BlindSchnorr.Proofs.Encoding.Refusal

/-!
# Two tests for squares

A number is tested for a square root in two ways: decompression raises it to a power and squares the
result, signing and verification compute its Jacobi symbol without any power. Over a prime that is 3
modulo 4 both tests come to the same, so a coordinate that decompression accepts is one that the
symbol accepts.
-/
namespace BlindSchnorr

variable {p v : Nat}

namespace Modular

/-- The candidate for a root is one iff there is a root. -/
theorem pow_mul_self_eq_iff [Fact p.Prime] (h4 : p % 4 = 3) (hv : v < p) :
    pow v ((p + 1) >>> 2) p * pow v ((p + 1) >>> 2) p % p = v ↔ IsSquare (v : ZMod p) := by
  have hexp : (p + 1) >>> 2 = (p + 1) / 4 := Nat.shiftRight_eq_div_pow (p + 1) 2
  rw [hexp, ← not_iff_not, ← sqrt?_eq_none_iff h4 hv, sqrt?]
  split_ifs with hroot <;> simp [hroot]

end Modular

namespace Jacobi

variable [hp : Fact p.Prime]

/-- Over an odd prime every number has a symbol, which is not `-1` iff the number is a square. -/
theorem symbol_ne_neg_one_iff (h2 : p ≠ 2) :
    (∃ s, symbol v p = .ok s ∧ s ≠ -1) ↔ IsSquare (v : ZMod p) := by
  simp [symbol_eq (isModulus_of_prime hp.out h2), jacobiSym_eq_neg_one_iff]

theorem symbol_eq_zero_or_one_iff (h2 : p ≠ 2) :
    symbol v p = .ok 0 ∨ symbol v p = .ok 1 ↔ IsSquare (v : ZMod p) := by
  have hvalues := jacobiSym.trichotomy v p
  rw [symbol_eq (isModulus_of_prime hp.out h2), Except.ok.injEq, Except.ok.injEq, ← not_iff_not,
    ← jacobiSym_eq_neg_one_iff]
  omega

end Jacobi

namespace CurveGroup

/-- Over a prime that is 3 modulo 4 the power and the symbol find the same numbers to be squares.
Hence decompression without any probing accepts a coordinate, under either tag, iff it is reduced and
the symbol over it is 0 or 1, on every curve with the prime as its field. -/
theorem residue_tests_agree (hp : p.Prime) (h4 : p % 4 = 3) :
    (∀ v < p, Modular.pow v ((p + 1) >>> 2) p * Modular.pow v ((p + 1) >>> 2) p % p = v ↔
      ∃ s, Jacobi.symbol v p = .ok s ∧ s ≠ -1) ∧
    ∀ (C : CurveGroup) [C.AcceptanceLaws], C.fieldPrime = p → ∀ (odd : Bool) (x : Word),
      (∃ P, C.decode Config.strict.probeWindow (PointCode.compressed odd x).bytes = .ok P) ↔
        x.toNat < p ∧
          (Jacobi.symbol (C.rhs x.toNat) p = .ok 0 ∨ Jacobi.symbol (C.rhs x.toNat) p = .ok 1) := by
  have hprime : Fact p.Prime := ⟨hp⟩
  have h2 : p ≠ 2 := by omega
  constructor
  · intro v hv
    rw [Modular.pow_mul_self_eq_iff h4 hv, Jacobi.symbol_ne_neg_one_iff h2]
  · rintro C _ rfl odd x
    have hroots : C.RootLaws := ⟨hp, h4⟩
    rw [decode_bytes, resolve_compressed_isOk_iff, and_iff_right (show 1 ≤ Config.strict.probeWindow from le_rfl),
      IsAbscissa, Jacobi.symbol_eq_zero_or_one_iff h2]

/-- Over 7 elements 2 is a square and 3 is not. Of the cubic there the coordinates 0, whose symbol is
zero, and 2 are accepted; 3 is not, and neither is 7, over which the symbol is zero too. -/
theorem residue_tests_agree_cusp : Nat.Prime 7 ∧ 7 % 4 = 3 ∧
    Modular.pow 2 2 7 * Modular.pow 2 2 7 % 7 = 2 ∧ Modular.pow 3 2 7 * Modular.pow 3 2 7 % 7 ≠ 3 ∧
    (∃ P, (Cusp.group 7).decode 1 (PointCode.compressed true (Block.ofNat 32 0)).bytes = .ok P) ∧
    (∃ P, (Cusp.group 7).decode 1 (PointCode.compressed true (Block.ofNat 32 2)).bytes = .ok P) ∧
    (¬∃ P, (Cusp.group 7).decode 1 (PointCode.compressed true (Block.ofNat 32 3)).bytes = .ok P) ∧
    ¬∃ P, (Cusp.group 7).decode 1 (PointCode.compressed true (Block.ofNat 32 7)).bytes = .ok P := by
  have hseven : Nat.Prime 7 := by norm_num
  have hprime : Fact (Nat.Prime 7) := ⟨hseven⟩
  have hlaws : (Cusp.group 7).CoordinateLaws := Cusp.coordinateLaws_group (by decide) (by decide)
  obtain ⟨htests, hdecode⟩ := residue_tests_agree hseven (by decide)
  have hread := hdecode (Cusp.group 7) rfl true
  refine ⟨hseven, by decide, ?_, ?_, ?_, ?_, ?_, ?_⟩
  · exact (htests 2 (by decide)).2 ⟨1, by decide +kernel, by decide⟩
  · intro hthree
    obtain ⟨s, hs, hne⟩ := (htests 3 (by decide)).1 hthree
    rw [show Jacobi.symbol 3 7 = .ok (-1) by decide +kernel, Except.ok.injEq] at hs
    exact hne hs.symm
  · exact (hread (Block.ofNat 32 0)).2 (by decide +kernel)
  · exact (hread (Block.ofNat 32 2)).2 (by decide +kernel)
  · exact (hread (Block.ofNat 32 3)).not.2 (by decide +kernel)
  · exact (hread (Block.ofNat 32 7)).not.2 (by decide +kernel)

end CurveGroup

end BlindSchnorr

import BlindSchnorr.Proofs.Arith.Power
import BlindSchnorr.Proofs.Arith.Symbol
import BlindSchnorr.Proofs.Curve.Laws
import BlindSchnorr.Proofs.Encoding.Numeral

/-!
# The point that an x-coordinate stands for

A finite point and its negative have one x-coordinate between them. Unless their
y-coordinate is zero, it has Jacobi symbol `+1` at exactly one of the two, and that one is
what the x-coordinate in a signature stands for.
-/
namespace BlindSchnorr.CurveGroup

open scoped NumberTheorySymbols

variable {C : CurveGroup}

/-- Whether `R` is the point that `rx` stands for in a signature. -/
def IsNoncePoint (C : CurveGroup) (rx : Word) (R : C.Point) : Prop :=
  ∃ y, C.coordinates R = some (rx.toNat, y) ∧ J(y | C.fieldPrime) = 1

theorem IsNoncePoint.symbol_eq_one {rx : Word} {R : C.Point} {x y : Nat}
    (h : C.IsNoncePoint rx R) (hR : C.coordinates R = some (x, y)) : J(y | C.fieldPrime) = 1 := by
  obtain ⟨y', hy', hsymbol⟩ := h
  rw [hR, Option.some.injEq, Prod.mk.injEq] at hy'
  rw [hy'.2]
  exact hsymbol

/-- Over the field of a curve the symbol never fails. -/
theorem symbol_fieldPrime [C.OddFieldLaws] (y : Nat) :
    Jacobi.symbol y C.fieldPrime = .ok J(y | C.fieldPrime) := by
  apply Jacobi.symbol_eq
  apply Jacobi.isModulus_of_prime OddFieldLaws.prime
  intro h2
  have hodd := OddFieldLaws.odd (C := C)
  rw [h2] at hodd
  contradiction

variable {P Q : C.Points} {x y : Nat} {rx : Word}

theorem coordinates_neg [C.AdditionLaws] [C.ReflectionLaws] (h : C.coordinates P = some (x, y)) :
    C.coordinates (-P : C.Points) = some (x, (C.fieldPrime - y) % C.fieldPrime) :=
  ReflectionLaws.coordinates_negate P.1 x y P.2 h

/-- A y-coordinate is what two reflections make of it, which is reduced. -/
theorem ordinate_lt [C.AdditionLaws] [C.ReflectionLaws] (hp : 0 < C.fieldPrime)
    (h : C.coordinates P = some (x, y)) : y < C.fieldPrime := by
  have hback := coordinates_neg (coordinates_neg h)
  rw [neg_neg, h, Option.some.injEq, Prod.mk.injEq] at hback
  rw [hback.2]
  exact Nat.mod_lt _ hp

variable [C.CoordinateLaws]

section Identification

variable [C.OddFieldLaws]

theorem toNat_coordinate (h : C.coordinates P = some (x, y)) : (Block.ofNat 32 x).toNat = x :=
  Word.toNat_ofNat ((coordinates_on_curve P.2 h).1.trans OddFieldLaws.prime_lt)

theorem isNoncePoint_iff (h : C.coordinates P = some (x, y)) :
    C.IsNoncePoint rx P ↔ Block.ofNat 32 x = rx ∧ J(y | C.fieldPrime) = 1 := by
  constructor
  · intro hP
    refine ⟨?_, hP.symbol_eq_one h⟩
    obtain ⟨y', hy', -⟩ := hP
    rw [h, Option.some.injEq, Prod.mk.injEq] at hy'
    rw [hy'.1, Block.ofNat_toNat]
  · rintro ⟨rfl, hy⟩
    exact ⟨y, by rw [toNat_coordinate h]; exact h, hy⟩

theorem symbol_eq_zero_iff (h : C.coordinates P = some (x, y)) : J(y | C.fieldPrime) = 0 ↔ y = 0 :=
  Jacobi.jacobiSym_eq_zero_iff (coordinates_on_curve P.2 h).2.1

/-- The point over an x-coordinate is built from it and a square y-coordinate other than zero. -/
theorem isNoncePoint_iff_build : C.IsNoncePoint rx P ↔
    ∃ y, C.ofCoordinates? rx.toNat y = some P.1 ∧ y ≠ 0 ∧ IsSquare (y : ZMod C.fieldPrime) := by
  refine exists_congr fun y => ?_
  rw [coordinates_eq_some_iff P.2]
  refine and_congr_right fun hbuild => ?_
  have hP := (coordinates_eq_some_iff P.2).2 hbuild
  exact Jacobi.jacobiSym_eq_one_iff (coordinates_on_curve P.2 hP).2.1

end Identification

section Reflection

variable [C.AdditionLaws] [C.ReflectionLaws]

/-- A point on the x-axis is its own negative. -/
theorem neg_eq_self (h : C.coordinates P = some (x, 0)) : -P = P := by
  have hneg := coordinates_neg h
  rw [Nat.sub_zero, Nat.mod_self] at hneg
  exact Subtype.ext (coordinates_injective (-P).2 P.2 hneg h)

variable [C.FieldLaws]

theorem eq_or_eq_neg {y' : Nat} (hP : C.coordinates P = some (x, y)) (hQ : C.coordinates Q = some (x, y')) :
    P = Q ∨ P = -Q := by
  obtain ⟨-, hy, hcurve⟩ := coordinates_on_curve P.2 hP
  obtain ⟨-, hy', hcurve'⟩ := coordinates_on_curve Q.2 hQ
  rcases Modular.eq_or_eq_neg_of_mul_self hy hy' (hcurve.trans hcurve'.symm) with rfl | rfl
  · exact .inl (Subtype.ext (coordinates_injective P.2 Q.2 hP hQ))
  · exact .inr (Subtype.ext (coordinates_injective P.2 (-Q).2 hP (coordinates_neg hQ)))

/-- An x-coordinate stands for at most one point. -/
theorem IsNoncePoint.unique (hP : C.IsNoncePoint rx P) (hQ : C.IsNoncePoint rx Q) : P = Q := by
  obtain ⟨y, hP, hy⟩ := hP
  obtain ⟨y', hQ, hy'⟩ := hQ
  rcases eq_or_eq_neg hP hQ with rfl | rfl
  · rfl
  · obtain ⟨-, hlt, -⟩ := coordinates_on_curve Q.2 hQ
    rw [coordinates_neg hQ] at hP
    cases hP
    rw [Jacobi.jacobiSym_neg_mod FieldLaws.prime_mod_four hlt.le, hy'] at hy
    contradiction

theorem isNoncePoint_neg_iff (h : C.coordinates P = some (x, y)) :
    C.IsNoncePoint rx (-P : C.Points) ↔ Block.ofNat 32 x = rx ∧ J(y | C.fieldPrime) = -1 := by
  obtain ⟨-, hlt, -⟩ := coordinates_on_curve P.2 h
  rw [isNoncePoint_iff (coordinates_neg h), Jacobi.jacobiSym_neg_mod FieldLaws.prime_mod_four hlt.le,
    neg_eq_iff_eq_neg]

end Reflection

/-- In a group of odd order no finite point lies on the x-axis. -/
theorem ordinate_ne_zero [C.GroupLaws] [C.ReflectionLaws] (hodd : C.order % 2 = 1)
    (h : C.coordinates P = some (x, y)) : y ≠ 0 := by
  rintro rfl
  have htwo : 2 • P = 0 := by
    rw [two_nsmul]
    nth_rewrite 1 [← neg_eq_self h]
    exact neg_add_cancel P
  have hzero : P = 0 := by
    have horder := Points.order_nsmul P
    rw [← Nat.mod_add_div C.order 2, hodd, add_nsmul, one_nsmul, mul_nsmul, htwo, nsmul_zero,
      add_zero] at horder
    exact horder
  rw [hzero, Points.coe_zero, CoordinateLaws.coordinates_identity] at h
  cases h

end BlindSchnorr.CurveGroup

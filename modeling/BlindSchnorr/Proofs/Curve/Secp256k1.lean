import BlindSchnorr.Curve.Standard
import BlindSchnorr.Proofs.Arith.PrimeCertificate
import BlindSchnorr.Proofs.Curve.Library
import BlindSchnorr.Proofs.Curve.PointCount

/-!
# The production curve

The prime and the order of secp256k1 are prime, its equation has no solution on the x-axis, and the
order takes the base point to infinity. There are then exactly as many points as the order says, so
scalars may be reduced modulo the order whatever point they multiply. A group made from any library
that implements the curve is lawful for that reason.
-/
namespace BlindSchnorr

open WeierstrassCurve.Affine (Point)

namespace Weierstrass

/-- Certificates for the prime and for the order of secp256k1, each with those it rests on below. -/
def secp256k1Primes : List PrimeCertificate.Entry := [
  ⟨secp256k1.p, 3,
    [(2, 1), (3, 1), (7, 1), (13441, 1),
      (205115282021455665897114700593932402728804164701536103180137503955397371, 1)]⟩,
  ⟨secp256k1.order, 7,
    [(2, 6), (3, 1), (149, 1), (631, 1), (107361793816595537, 1), (174723607534414371449, 1),
      (341948486974166000522343609283189, 1)]⟩,
  ⟨205115282021455665897114700593932402728804164701536103180137503955397371, 10,
    [(2, 1), (3, 1), (5, 1), (29, 2), (31, 1), (7723, 1), (132896956044521568488119, 1),
      (255515944373312847190720520512484175977, 1)]⟩,
  ⟨255515944373312847190720520512484175977, 3,
    [(2, 3), (7, 2), (11, 1), (1627, 1), (2657, 1), (4423, 1), (41201, 1), (96557, 1),
      (7240687, 1), (107590001, 1)]⟩,
  ⟨341948486974166000522343609283189, 2, [(2, 2), (3, 3), (109, 1), (29047611873442575647497758179, 1)]⟩,
  ⟨29047611873442575647497758179, 2, [(2, 1), (293, 1), (305873, 1), (545358713, 1), (297159362677, 1)]⟩,
  ⟨132896956044521568488119, 6, [(2, 1), (3, 1), (22149492674086928081353, 1)]⟩,
  ⟨22149492674086928081353, 5, [(2, 3), (3, 1), (5323, 1), (173378833005251801, 1)]⟩,
  ⟨174723607534414371449, 3, [(2, 3), (17, 1), (59, 1), (4051, 1), (120233, 1), (44706919, 1)]⟩,
  ⟨173378833005251801, 6, [(2, 3), (5, 2), (2621, 1), (24809, 1), (13331831, 1)]⟩,
  ⟨107361793816595537, 3, [(2, 4), (16699, 1), (85831, 1), (4681609, 1)]⟩,
  ⟨297159362677, 2, [(2, 2), (3, 2), (11, 1), (461, 1), (1627771, 1)]⟩,
  ⟨545358713, 5, [(2, 3), (41, 1), (59, 1), (28181, 1)]⟩,
  ⟨107590001, 3, [(2, 4), (5, 4), (7, 1), (29, 1), (53, 1)]⟩,
  ⟨44706919, 6, [(2, 1), (3, 1), (797, 1), (9349, 1)]⟩,
  ⟨13331831, 13, [(2, 1), (5, 1), (971, 1), (1373, 1)]⟩,
  ⟨7240687, 3, [(2, 1), (3, 1), (1206781, 1)]⟩,
  ⟨4681609, 23, [(2, 3), (3, 1), (97, 1), (2011, 1)]⟩,
  ⟨1627771, 3, [(2, 1), (3, 1), (5, 1), (29, 1), (1871, 1)]⟩,
  ⟨1206781, 10, [(2, 2), (3, 1), (5, 1), (20113, 1)]⟩,
  ⟨305873, 3, [(2, 4), (7, 1), (2731, 1)]⟩,
  ⟨120233, 3, [(2, 3), (7, 1), (19, 1), (113, 1)]⟩,
  ⟨96557, 2, [(2, 2), (101, 1), (239, 1)]⟩,
  ⟨85831, 3, [(2, 1), (3, 1), (5, 1), (2861, 1)]⟩]

lemma valid_secp256k1Primes : PrimeCertificate.Valid secp256k1Primes := by decide +kernel

lemma prime_secp256k1_p : secp256k1.p.Prime := valid_secp256k1Primes.prime _ List.mem_cons_self

lemma prime_secp256k1_order : secp256k1.order.Prime :=
  valid_secp256k1Primes.prime _ (List.mem_cons_of_mem _ List.mem_cons_self)

instance : secp256k1.Smooth where
  prime := prime_secp256k1_p
  three_lt := by decide +kernel
  discriminant_ne_zero := by decide +kernel

/-- The number -7 is not a cube, so there are no points on the x-axis. -/
lemma secp256k1_rhs_ne_zero (x : ℕ) : secp256k1.rhs x ≠ 0 := by
  apply rhs_ne_zero_of_pow rfl <;> decide +kernel

lemma onCurve_secp256k1_base : secp256k1.OnCurve secp256k1.base := by
  refine ⟨?_, ?_, ?_⟩ <;> decide +kernel

lemma jacobianMul_secp256k1_base :
    secp256k1.jacobianMul (secp256k1.order - 1) secp256k1.base = secp256k1.negate secp256k1.base := by
  decide +kernel

/-- The order annihilates every point of the curve, which has no cofactor. -/
theorem secp256k1_order_nsmul (Q : secp256k1.residueCurve.Point) : secp256k1.order • Q = 0 := by
  obtain ⟨G, hG⟩ := exists_represents_iff.2 onCurve_secp256k1_base
  have hmultiple := jacobianMul_represents hG (secp256k1.order - 1)
  rw [jacobianMul_secp256k1_base] at hmultiple
  exact order_nsmul_eq_zero secp256k1_rhs_ne_zero prime_secp256k1_order (by decide +kernel)
    (show secp256k1.base ≠ .infinity by decide) hG hmultiple Q

lemma secp256k1_implements : secp256k1.jacobianLibrary.Implements secp256k1 secp256k1.Represents
    (fun s : ℕ => (s : ZMod secp256k1.order)) :=
  jacobianLibrary_implements (by decide +kernel) secp256k1_order_nsmul

end Weierstrass

namespace CurveGroup

/-- A lawful curve passes its test unless the generator is the identity. -/
theorem selfTest_of_lawful {C : CurveGroup} [C.Lawful] (hpos : 0 < C.order) (hG : C.generator ≠ C.identity) :
    C.selfTest = true := by
  have hpoint : C.IsPoint C.generator := GroupLaws.isPoint_generator
  obtain ⟨⟨x, y⟩, hcoordinates⟩ :=
    Option.ne_none_iff_exists'.1 (mt (coordinates_eq_none_iff hpoint).1 hG)
  have hnegate : C.mulGenerator (C.order - 1) = C.negate C.generator := by
    have hmultiple := Points.order_sub_nsmul hpos (Points.generator : C.Points)
    rw [one_nsmul] at hmultiple
    rw [← Points.coe_nsmul_generator, hmultiple]
    rfl
  rw [selfTest, hcoordinates]
  exact decide_eq_true ⟨(coordinates_eq_some_iff hpoint).1 hcoordinates, hnegate⟩

end CurveGroup

namespace PointLibrary

open Weierstrass (onCurve_secp256k1_base secp256k1_order_nsmul secp256k1_rhs_ne_zero prime_secp256k1_order)

variable {L : PointLibrary} {Rep : L.Point → Weierstrass.secp256k1.residueCurve.Point → Prop}
  {value : L.Scalar → ZMod Weierstrass.secp256k1.order}

namespace Implements

theorem lawful_secp256k1 (h : L.Implements Weierstrass.secp256k1 Rep value) : L.secp256k1.Lawful :=
  h.lawful_group (by decide +kernel) (by decide +kernel) (by decide +kernel) (by decide +kernel)
    onCurve_secp256k1_base secp256k1_order_nsmul

theorem generator_ne_identity (h : L.Implements Weierstrass.secp256k1 Rep value) :
    L.secp256k1.generator ≠ L.secp256k1.identity := by
  intro heq
  obtain ⟨G, hG⟩ := Weierstrass.exists_represents_iff.2 onCurve_secp256k1_base
  have hgenerator : Rep L.generator 0 := by
    rw [show L.generator = L.identity from heq]
    exact h.identity
  rw [h.functional (h.generator hG) hgenerator] at hG
  cases hG

theorem exactOrder_secp256k1 (h : L.Implements Weierstrass.secp256k1 Rep value) : L.secp256k1.ExactOrder :=
  have := h.lawful_secp256k1
  CurveGroup.exactOrder_of_prime prime_secp256k1_order h.generator_ne_identity

/-- A build with a library that implements the curve has it available. -/
theorem curve_present (h : L.Implements Weierstrass.secp256k1 Rep value) :
    (Backend.present L.secp256k1).curve = .ok L.secp256k1 := by
  have := h.lawful_secp256k1
  exact if_pos (CurveGroup.selfTest_of_lawful prime_secp256k1_order.pos h.generator_ne_identity)

end Implements

/-- The production curve keeps its promises with any library that implements secp256k1. Reducing
scalars of any size modulo the order is without effect on the points that can be obtained; the order
of the generator is exact; no point lies on the x-axis; and coordinates name the finite points and
nothing else. -/
theorem secp256k1_contract (h : L.Implements Weierstrass.secp256k1 Rep value) :
    (∀ P, L.secp256k1.Obtained P → ∀ j k,
      L.secp256k1.scalarMul (j + k) P =
        L.secp256k1.add (L.secp256k1.scalarMul j P) (L.secp256k1.scalarMul k P) ∧
      L.secp256k1.scalarMul (j * k) P = L.secp256k1.scalarMul j (L.secp256k1.scalarMul k P)) ∧
    (∀ k, L.secp256k1.mulGenerator k = L.secp256k1.identity ↔ L.secp256k1.order ∣ k) ∧
    (∀ P, L.secp256k1.Obtained P → (L.secp256k1.coordinates P = none ↔ P = L.secp256k1.identity)) ∧
    (∀ P x y, L.secp256k1.Obtained P → L.secp256k1.coordinates P = some (x, y) →
      y ≠ 0 ∧ L.secp256k1.ofCoordinates? x y = some P) ∧
    ∀ x y, L.secp256k1.ofCoordinates? x y = none ↔
      L.secp256k1.fieldPrime ≤ x ∨ L.secp256k1.fieldPrime ≤ y ∨
        y * y % L.secp256k1.fieldPrime ≠ L.secp256k1.rhs x := by
  have hlawful := h.lawful_secp256k1
  refine ⟨?_, h.exactOrder_secp256k1, ?_, ?_, ?_⟩
  · intro P hP j k
    let Q : L.secp256k1.Points := ⟨P, hP.isPoint⟩
    exact ⟨congrArg Subtype.val (add_nsmul Q j k), congrArg Subtype.val (mul_nsmul' Q j k)⟩
  · intro P hP
    exact CurveGroup.coordinates_eq_none_iff hP.isPoint
  · intro P x y hP hcoordinates
    refine ⟨?_, (CurveGroup.coordinates_eq_some_iff hP.isPoint).1 hcoordinates⟩
    rintro rfl
    obtain ⟨-, -, hcurve⟩ := CurveGroup.coordinates_on_curve hP.isPoint hcoordinates
    rw [Nat.zero_mul, Nat.zero_mod] at hcurve
    exact secp256k1_rhs_ne_zero x hcurve.symm
  · intro x y
    rw [← Option.not_isSome_iff_eq_none, CurveGroup.CoordinateLaws.build_iff, not_and_or, not_and_or, not_lt,
      not_lt]

end PointLibrary

/-- In Jacobian coordinates: a scalar two above the order is split, the order takes the generator to
the identity, and an x-coordinate as large as the prime is refused. -/
theorem secp256k1_contract_jacobian :
    Weierstrass.secp256k1.jacobianLibrary.Implements Weierstrass.secp256k1 Weierstrass.secp256k1.Represents
      (fun s : ℕ => (s : ZMod Weierstrass.secp256k1.order)) ∧
    secp256k1.Obtained secp256k1.generator ∧
    secp256k1.scalarMul (secp256k1.order + 2) secp256k1.generator =
      secp256k1.add (secp256k1.scalarMul secp256k1.order secp256k1.generator)
        (secp256k1.scalarMul 2 secp256k1.generator) ∧
    secp256k1.mulGenerator secp256k1.order = secp256k1.identity ∧
    secp256k1.ofCoordinates? secp256k1.fieldPrime 7 = none := by
  have h := Weierstrass.secp256k1_implements
  obtain ⟨hmultiples, horder, -, -, hrefused⟩ := PointLibrary.secp256k1_contract h
  exact ⟨h, .generator, (hmultiples _ .generator _ _).1, (horder _).2 (dvd_refl _), (hrefused _ _).2 (.inl le_rfl)⟩

instance : secp256k1.Lawful := Weierstrass.secp256k1_implements.lawful_secp256k1

theorem exactOrder_secp256k1 : secp256k1.ExactOrder := Weierstrass.secp256k1_implements.exactOrder_secp256k1

theorem Backend.curve_standard : standard.curve = .ok secp256k1 := Weierstrass.secp256k1_implements.curve_present

end BlindSchnorr

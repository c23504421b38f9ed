import BlindSchnorr.Curve.Standard
import BlindSchnorr.Proofs.Curve.PointCount
import BlindSchnorr.Proofs.Curve.Representation

/-!
# Affine arithmetic is lawful

Chord and tangent on reduced coordinates are an abelian group over every smooth Weierstrass
curve. The curve satisfies every law that signing relies on as soon as its order annihilates
its points. That of the toy curve does.
-/
namespace BlindSchnorr

open WeierstrassCurve.Affine (Point)

namespace Weierstrass

variable {C : Weierstrass} {name : String} {P P' : AffinePoint} {Q Q' : C.residueCurve.Point}

lemma isPoint_group_iff : (C.group name).IsPoint P ↔ C.OnCurve P := by
  constructor
  · rintro (rfl | ⟨x, y, h⟩)
    · trivial
    · obtain ⟨hcurve, heq⟩ := Option.ite_none_right_eq_some.1 h
      cases heq
      exact hcurve
  · intro h
    cases P with
    | infinity => exact .inl rfl
    | finite x y => exact .inr ⟨x, y, if_pos h⟩

theorem coordinateLaws_group (C : Weierstrass) (name : String) : (C.group name).CoordinateLaws where
  coordinates_identity := rfl
  coordinates_of_build x y P h := by
    obtain ⟨-, heq⟩ := Option.ite_none_right_eq_some.1 h
    cases heq
    rfl
  build_iff x y := by
    change (C.ofCoordinates? x y).isSome ↔ _
    rw [ofCoordinates?]
    split_ifs with h
    · exact iff_of_true rfl h
    · exact iff_of_false (by decide) h

section Smooth

variable [C.Smooth]

/-- The points that coordinates build stand for the points of the curve over the residues. -/
theorem represented_group : (C.group name).Represented C.Represents where
  isPoint_iff := isPoint_group_iff.trans exists_represents_iff.symm
  injective := Represents.injective
  identity := .infinity
  add := add_represents
  negate := negate_represents
  scalarMul := scalarMul_represents

/-- Chord and tangent on numbers are an abelian group over every smooth curve, whatever base point
and order it comes with. Sums stay on the curve, a multiple is the sum of as many copies as the
scalar says modulo the order, and coordinates name the finite points and nothing else. -/
theorem chord_tangent_group (C : Weierstrass) [C.Smooth] :
    (∀ P P', C.OnCurve P → C.OnCurve P' → C.OnCurve (C.add P P') ∧ C.add P P' = C.add P' P) ∧
    (∀ P P' P'', C.OnCurve P → C.OnCurve P' → C.OnCurve P'' →
      C.add (C.add P P') P'' = C.add P (C.add P' P'')) ∧
    (∀ P, C.add .infinity P = P ∧ C.add P .infinity = P) ∧
    (∀ P, C.OnCurve P → C.OnCurve (C.negate P) ∧ C.add P (C.negate P) = .infinity) ∧
    (∀ P k, C.OnCurve P → C.OnCurve (C.scalarMul k P) ∧
      C.scalarMul k P = (fun S => C.add S P)^[k % C.order] .infinity) ∧
    (∀ P x y, C.OnCurve P → (coordinates P = some (x, y) ↔ C.ofCoordinates? x y = some P)) ∧
    (∀ P, coordinates P = none ↔ P = .infinity) ∧
    ∀ x y, C.ofCoordinates? x y = none ↔ ¬(x < C.p ∧ y < C.p ∧ y * y % C.p = C.rhs x) := by
  have h : (C.group "").Represented C.Represents := represented_group
  have hlaws := coordinateLaws_group C ""
  have hpoint : ∀ P : AffinePoint, C.OnCurve P ↔ (C.group "").IsPoint P := fun P => isPoint_group_iff.symm
  simp only [hpoint]
  refine ⟨?_, ?_, ?_, ?_, ?_, ?_, ?_, ?_⟩
  · intro P P' hP hP'
    exact ⟨h.isPoint_add hP hP', h.add_comm hP hP'⟩
  · intro P P' P'' hP hP' hP''
    exact h.add_assoc hP hP' hP''
  · intro P
    exact ⟨rfl, by cases P <;> rfl⟩
  · intro P hP
    exact ⟨h.isPoint_negate hP, h.add_negate hP⟩
  · intro P k hP
    exact ⟨h.isPoint_scalarMul hP k, h.scalarMul_eq_iterate hP k⟩
  · intro P x y hP
    exact CurveGroup.coordinates_eq_some_iff (C := C.group "") hP
  · intro P
    cases P <;> simp [coordinates]
  · intro x y
    rw [← Option.not_isSome_iff_eq_none]
    exact not_congr (hlaws.build_iff x y)

/-- The curve `y² = x³ + x` over 7 elements, whose point `(0, 0)` is its own negative, with an order
that does not annihilate its 8 points. -/
def eight : Weierstrass := ⟨7, 1, 0, 5, .infinity⟩

/-- A point is doubled to infinity, and a multiple by 12 is a sum of 2 copies. -/
theorem chord_tangent_group_eight : eight.Smooth ∧
    eight.OnCurve (.finite 0 0) ∧ eight.add (.finite 0 0) (.finite 0 0) = .infinity ∧
    eight.OnCurve (.finite 1 3) ∧ eight.OnCurve (eight.add (.finite 0 0) (.finite 1 3)) ∧
    eight.add (.finite 0 0) (.finite 1 3) = .finite 1 4 ∧
    eight.scalarMul 12 (.finite 1 3) = eight.add (eight.add .infinity (.finite 1 3)) (.finite 1 3) ∧
    coordinates (.finite 1 3) = some (1, 3) ∧ eight.ofCoordinates? 1 3 = some (.finite 1 3) ∧
    eight.ofCoordinates? 8 3 = none := by
  have hsmooth : eight.Smooth := ⟨by norm_num [eight], by norm_num [eight], by norm_num [eight]⟩
  have hzero : eight.OnCurve (.finite 0 0) := ⟨by decide, by decide, by decide⟩
  have hone : eight.OnCurve (.finite 1 3) := ⟨by decide, by decide, by decide⟩
  obtain ⟨hsum, -, -, hnegate, hmultiple, hcoordinates, -, hrefused⟩ := chord_tangent_group eight
  refine ⟨hsmooth, hzero, (hnegate _ hzero).2, hone, (hsum _ _ hzero hone).1, by decide +kernel,
    (hmultiple _ 12 hone).2, rfl, (hcoordinates _ 1 3 hone).1 rfl, (hrefused 8 3).2 (by decide)⟩

/-- A smooth curve is lawful if its parameters have the sizes asked for and its order
annihilates its points. -/
theorem lawful_group (h4 : C.p % 4 = 3) (hp : C.p < 2 ^ 256) (hn : C.order < 2 ^ 256)
    (hbase : C.OnCurve C.base) (horder : ∀ Q : C.residueCurve.Point, C.order • Q = 0) :
    (C.group name).Lawful where
  toCoordinateLaws := coordinateLaws_group C name
  toFieldLaws := ⟨Smooth.prime, h4, hp⟩
  toGroupLaws := represented_group.groupLaws (isPoint_group_iff.2 hbase) (fun _ => rfl) horder
  coordinates_negate P x y _ h := by
    change coordinates P = some (x, y) at h
    cases P with
    | infinity => cases h
    | finite x' y' =>
      cases h
      rfl
  order_lt := hn

end Smooth

instance : toy.Smooth where
  prime := by norm_num [toy]
  three_lt := by norm_num [toy]
  discriminant_ne_zero := by norm_num [toy]

lemma onCurve_toy_base : toy.OnCurve toy.base := by
  refine ⟨?_, ?_, ?_⟩ <;> norm_num [toy, rhs]

lemma toy_rhs_ne_zero (x : ℕ) : toy.rhs x ≠ 0 := by
  apply rhs_ne_zero_of_pow rfl <;> decide +kernel

lemma scalarMul_toy_base : toy.scalarMul (toy.order - 1) toy.base = toy.negate toy.base := by
  decide +kernel

lemma toy_order_nsmul (Q : toy.residueCurve.Point) : toy.order • Q = 0 := by
  obtain ⟨G, hG⟩ := exists_represents_iff.2 onCurve_toy_base
  have hmultiple := scalarMul_represents hG (toy.order - 1)
  rw [scalarMul_toy_base, Nat.mod_eq_of_lt (by decide)] at hmultiple
  exact order_nsmul_eq_zero toy_rhs_ne_zero (by norm_num [toy]) (by norm_num [toy])
    (show toy.base ≠ .infinity by decide) hG hmultiple Q

end Weierstrass

instance : toyCurve.Lawful := by
  apply Weierstrass.lawful_group
  · norm_num [Weierstrass.toy]
  · norm_num [Weierstrass.toy]
  · norm_num [Weierstrass.toy]
  · exact Weierstrass.onCurve_toy_base
  · exact Weierstrass.toy_order_nsmul

end BlindSchnorr

import BlindSchnorr.Curve.Affine
import BlindSchnorr.Proofs.Arith.Power

/-!
# Chord and tangent over the residues

Reduced coordinates stand for points of a Weierstrass curve over the residues modulo the
prime. The affine arithmetic on numbers carries out the group law of that curve.
-/
namespace BlindSchnorr.Weierstrass

open WeierstrassCurve.Affine (Point)

/-- Parameters of a curve without singular points over a field of characteristic above three. -/
class Smooth (C : Weierstrass) : Prop where
  prime : C.p.Prime
  three_lt : 3 < C.p
  discriminant_ne_zero : (4 * C.a ^ 3 + 27 * C.b ^ 2) % C.p ≠ 0

def residueCurve (C : Weierstrass) : WeierstrassCurve.Affine (ZMod C.p) := ⟨0, 0, 0, C.a, C.b⟩

/-- Whether a point is infinity or a reduced solution of the equation. -/
def OnCurve (C : Weierstrass) : AffinePoint → Prop
  | .infinity => True
  | .finite x y => x < C.p ∧ y < C.p ∧ y * y % C.p = C.rhs x

variable {C : Weierstrass}

instance [h : C.Smooth] : Fact C.p.Prime := ⟨h.prime⟩

/-- A point in numbers and the point of the curve over the residues that it stands for. -/
inductive Represents (C : Weierstrass) : AffinePoint → C.residueCurve.Point → Prop
  | infinity : Represents C .infinity Point.zero
  | finite {x y : ℕ} {X Y : ZMod C.p} (h : C.residueCurve.Nonsingular X Y) (hx : x < C.p)
      (hy : y < C.p) (hX : (x : ZMod C.p) = X) (hY : (y : ZMod C.p) = Y) :
      Represents C (.finite x y) (.some X Y h)

lemma cast_injective {v w : ℕ} (hv : v < C.p) (hw : w < C.p) (h : (v : ZMod C.p) = w) : v = w := by
  have hmod := (ZMod.natCast_eq_natCast_iff' v w C.p).1 h
  rwa [Nat.mod_eq_of_lt hv, Nat.mod_eq_of_lt hw] at hmod

lemma equation_cast_iff (x y : ℕ) :
    C.residueCurve.Equation (x : ZMod C.p) (y : ZMod C.p) ↔ y * y % C.p = C.rhs x := by
  rw [WeierstrassCurve.Affine.equation_iff, rhs, ← ZMod.natCast_eq_natCast_iff']
  simp only [residueCurve]
  push_cast
  constructor
  · intro h
    linear_combination h
  · intro h
    linear_combination h

section Smooth

variable [C.Smooth]

lemma cast_eq_zero_iff {z : ℕ} (hz : z < C.p) : (z : ZMod C.p) = 0 ↔ z = 0 := by
  constructor
  · intro h
    exact cast_injective hz Smooth.prime.pos (by rw [h, Nat.cast_zero])
  · rintro rfl
    exact Nat.cast_zero

lemma two_ne_zero_residue : (2 : ZMod C.p) ≠ 0 := by
  have h := cast_eq_zero_iff (C := C) (z := 2) (lt_trans (by norm_num) (Smooth.three_lt (C := C)))
  exact_mod_cast mt h.1 two_ne_zero

lemma residueCurve_Δ_ne_zero : C.residueCurve.Δ ≠ 0 := by
  have hdisc : (4 * C.a ^ 3 + 27 * C.b ^ 2 : ZMod C.p) ≠ 0 := by
    intro h
    apply Smooth.discriminant_ne_zero (C := C)
    apply Nat.mod_eq_zero_of_dvd
    apply (ZMod.natCast_eq_zero_iff _ _).1
    exact_mod_cast h
  have hΔ : C.residueCurve.Δ = -(2 ^ 4 * (4 * C.a ^ 3 + 27 * C.b ^ 2)) := by
    simp only [WeierstrassCurve.Δ, WeierstrassCurve.b₂, WeierstrassCurve.b₄, WeierstrassCurve.b₆,
      WeierstrassCurve.b₈, residueCurve]
    ring
  rw [hΔ]
  exact neg_ne_zero.2 (mul_ne_zero (pow_ne_zero 4 two_ne_zero_residue) hdisc)

lemma nonsingular_of_equation {X Y : ZMod C.p} (h : C.residueCurve.Equation X Y) :
    C.residueCurve.Nonsingular X Y :=
  (WeierstrassCurve.Affine.equation_iff_nonsingular_of_Δ_ne_zero residueCurve_Δ_ne_zero).1 h

theorem exists_represents_iff {P : AffinePoint} : (∃ Q, C.Represents P Q) ↔ C.OnCurve P := by
  constructor
  · rintro ⟨Q, h⟩
    cases h with
    | infinity => trivial
    | finite h hx hy hX hY =>
      subst hX hY
      exact ⟨hx, hy, (equation_cast_iff _ _).1 h.1⟩
  · intro h
    cases P with
    | infinity => exact ⟨_, .infinity⟩
    | finite x y =>
      obtain ⟨hx, hy, hcurve⟩ := h
      exact ⟨_, .finite (nonsingular_of_equation ((equation_cast_iff x y).2 hcurve)) hx hy rfl rfl⟩

omit [C.Smooth] in
theorem Represents.injective {P P' : AffinePoint} {Q : C.residueCurve.Point} (h : C.Represents P Q)
    (h' : C.Represents P' Q) : P = P' := by
  cases h with
  | infinity =>
    cases h'
    rfl
  | finite _ hx hy hX hY =>
    cases h' with
    | finite _ hx' hy' hX' hY' =>
      rw [cast_injective hx hx' (hX.trans hX'.symm), cast_injective hy hy' (hY.trans hY'.symm)]

omit [C.Smooth] in
theorem Represents.functional {P : AffinePoint} {Q Q' : C.residueCurve.Point} (h : C.Represents P Q)
    (h' : C.Represents P Q') : Q = Q' := by
  cases h with
  | infinity =>
    cases h'
    rfl
  | finite _ _ _ hX hY =>
    subst hX hY
    cases h' with
    | finite _ _ _ hX hY =>
      subst hX hY
      rfl

/-- A finite point is named by the least numbers in its residues. -/
theorem Represents.of_residues {X Y : ZMod C.p} (h : C.residueCurve.Nonsingular X Y) :
    C.Represents (.finite X.val Y.val) (.some X Y h) :=
  .finite h (ZMod.val_lt X) (ZMod.val_lt Y) (ZMod.natCast_zmod_val X) (ZMod.natCast_zmod_val Y)

lemma exists_represented (Q : C.residueCurve.Point) : ∃ P, C.Represents P Q := by
  cases Q with
  | zero => exact ⟨_, .infinity⟩
  | some X Y h => exact ⟨_, .of_residues h⟩

theorem negate_represents {P : AffinePoint} {Q : C.residueCurve.Point} (h : C.Represents P Q) :
    C.Represents (C.negate P) (-Q) := by
  cases h with
  | infinity => exact .infinity
  | finite h hx hy hX hY =>
    refine .finite _ hx (Nat.mod_lt _ Smooth.prime.pos) hX ?_
    rw [ZMod.natCast_mod, Nat.cast_sub hy.le, ZMod.natCast_self, hY]
    simp [residueCurve]

/-- A multiple that is the negative of a point is one short of infinity. -/
lemma succ_nsmul_eq_zero {P : AffinePoint} {Q : C.residueCurve.Point} {n : ℕ} (h : C.Represents P Q)
    (hneg : C.Represents (C.negate P) (n • Q)) : (n + 1) • Q = 0 := by
  rw [succ_nsmul, hneg.functional (negate_represents h), neg_add_cancel]

lemma along_represents {m x₁ y₁ x₂ : ℕ} {ℓ : ZMod C.p} (hm : (m : ZMod C.p) = ℓ)
    (h : C.residueCurve.Nonsingular (C.residueCurve.addX x₁ x₂ ℓ) (C.residueCurve.addY x₁ x₂ y₁ ℓ)) :
    C.Represents (C.along m x₁ y₁ x₂) (.some _ _ h) := by
  have hpos : 0 < C.p := Smooth.prime.pos
  subst hm
  refine .finite h (Modular.sub_lt hpos _ _) (Modular.sub_lt hpos _ _) ?_ ?_
  · simp only [Modular.cast_sub, ZMod.natCast_mod, WeierstrassCurve.Affine.addX, residueCurve]
    push_cast
    ring
  · simp only [Modular.cast_sub, ZMod.natCast_mod, WeierstrassCurve.Affine.addX,
      WeierstrassCurve.Affine.addY, WeierstrassCurve.Affine.negAddY, WeierstrassCurve.Affine.negY,
      residueCurve]
    push_cast
    simp only [Modular.cast_sub, ZMod.natCast_mod]
    push_cast
    ring

lemma cast_tangent (x y : ℕ) :
    (C.tangent x y : ZMod C.p) = (3 * (x : ZMod C.p) ^ 2 + C.a) / (2 * y) := by
  have htwo : 2 < C.p := lt_trans (by norm_num) (Smooth.three_lt (C := C))
  rw [tangent, ZMod.natCast_mod, Nat.cast_mul, Modular.cast_inv htwo, ZMod.natCast_mod, ZMod.natCast_mod]
  push_cast
  ring

lemma cast_chord (x₁ y₁ x₂ y₂ : ℕ) :
    (C.chord x₁ y₁ x₂ y₂ : ZMod C.p) = ((y₁ : ZMod C.p) - y₂) / (x₁ - x₂) := by
  have htwo : 2 < C.p := lt_trans (by norm_num) (Smooth.three_lt (C := C))
  rw [chord, ZMod.natCast_mod, Nat.cast_mul, Modular.cast_inv htwo, Modular.cast_sub, Modular.cast_sub,
    ← neg_sub, ← neg_sub (x₁ : ZMod C.p), inv_neg, neg_mul_neg, div_eq_mul_inv]

/-- Adding in numbers is adding on the curve. -/
theorem add_represents {P P' : AffinePoint} {Q Q' : C.residueCurve.Point} (h : C.Represents P Q)
    (h' : C.Represents P' Q') : C.Represents (C.add P P') (Q + Q') := by
  cases h with
  | infinity =>
    rw [← Point.zero_def, zero_add]
    exact h'
  | @finite x₁ y₁ X₁ Y₁ h₁ hx₁ hy₁ hX₁ hY₁ =>
    cases h' with
    | infinity =>
      rw [← Point.zero_def, add_zero]
      exact .finite h₁ hx₁ hy₁ hX₁ hY₁
    | @finite x₂ y₂ X₂ Y₂ h₂ hx₂ hy₂ hX₂ hY₂ =>
      subst hX₁ hY₁ hX₂ hY₂
      rw [add]
      by_cases hx : x₁ = x₂
      · subst hx
        rw [if_pos rfl]
        have hneg : (y₁ : ZMod C.p) = C.residueCurve.negY x₁ y₂ ↔ (y₁ + y₂) % C.p = 0 := by
          rw [← Nat.dvd_iff_mod_eq_zero, ← ZMod.natCast_eq_zero_iff, Nat.cast_add, ← eq_neg_iff_add_eq_zero]
          simp [residueCurve]
        by_cases hy : (y₁ + y₂) % C.p = 0
        · rw [if_pos hy, Point.add_of_Y_eq rfl (hneg.2 hy)]
          exact .infinity
        · -- The points agree, so the slope is that of the tangent.
          have hne : (y₁ : ZMod C.p) ≠ C.residueCurve.negY x₁ y₂ := fun h => hy (hneg.1 h)
          rw [if_neg hy, Point.add_of_Y_ne hne]
          apply along_represents
          rw [cast_tangent, WeierstrassCurve.Affine.slope_of_Y_ne rfl hne]
          simp only [residueCurve, WeierstrassCurve.Affine.negY]
          congr 1 <;> ring
      · have hne : (x₁ : ZMod C.p) ≠ x₂ := fun h => hx (cast_injective hx₁ hx₂ h)
        rw [if_neg hx, Point.add_of_X_ne hne]
        apply along_represents
        rw [cast_chord, WeierstrassCurve.Affine.slope_of_X_ne hne]

theorem scalarMul_represents {P : AffinePoint} {Q : C.residueCurve.Point} (h : C.Represents P Q) (k : ℕ) :
    C.Represents (C.scalarMul k P) ((k % C.order) • Q) := by
  apply Binary.foldl_byteBits (fun j acc => C.Represents acc (j • Q))
  · rw [zero_nsmul]
    exact .infinity
  · intro j acc hacc
    rw [mul_comm, mul_nsmul, two_nsmul]
    exact add_represents hacc hacc
  · intro j acc hacc
    rw [succ_nsmul, mul_comm, mul_nsmul, two_nsmul]
    exact add_represents (add_represents hacc hacc) h

end Smooth

end BlindSchnorr.Weierstrass

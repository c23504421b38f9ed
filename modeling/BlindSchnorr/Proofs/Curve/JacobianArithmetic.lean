import BlindSchnorr.Curve.Jacobian
import BlindSchnorr.Proofs.Curve.ChordTangent

/-!
# Jacobian coordinates carry out the group law

A triple `(x, y, z)` with `z` other than zero scales the affine point `(X, Y)` if `x = X * z²` and
`y = Y * z³`. Doubling and adding multiply the scale of the result by what the affine rules
divide by, so no rule divides, and a single inversion at the end brings the affine point back.
-/
namespace BlindSchnorr.Weierstrass

open WeierstrassCurve.Affine (Point)

variable {C : Weierstrass}

/-- A Jacobian point in numbers and the point of the curve over the residues that it scales. -/
inductive Scales (C : Weierstrass) : JacobianPoint → C.residueCurve.Point → Prop
  | infinity {P : JacobianPoint} (hz : P.z = 0) : Scales C P Point.zero
  | finite {P : JacobianPoint} {X Y : ZMod C.p} (h : C.residueCurve.Nonsingular X Y) (hlt : P.z < C.p)
      (hz : P.z ≠ 0) (hX : (P.x : ZMod C.p) = X * (P.z : ZMod C.p) ^ 2)
      (hY : (P.y : ZMod C.p) = Y * (P.z : ZMod C.p) ^ 3) : Scales C P (.some X Y h)

section Smooth

variable [C.Smooth]

/-- A scaled sum of two points along a line of slope `ℓ`. -/
lemma Scales.along {P : JacobianPoint} {X₁ Y₁ X₂ ℓ : ZMod C.p} (hlt : P.z < C.p) (hz : P.z ≠ 0)
    (h : C.residueCurve.Nonsingular (C.residueCurve.addX X₁ X₂ ℓ) (C.residueCurve.addY X₁ X₂ Y₁ ℓ))
    (hx : (P.x : ZMod C.p) = (ℓ ^ 2 - X₁ - X₂) * (P.z : ZMod C.p) ^ 2)
    (hy : (P.y : ZMod C.p) = (ℓ * (X₁ - (ℓ ^ 2 - X₁ - X₂)) - Y₁) * (P.z : ZMod C.p) ^ 3) :
    C.Scales P (.some _ _ h) := by
  refine .finite h hlt hz ?_ ?_
  · rw [hx]
    simp only [WeierstrassCurve.Affine.addX, residueCurve]
    ring
  · rw [hy]
    simp only [WeierstrassCurve.Affine.addX, WeierstrassCurve.Affine.addY,
      WeierstrassCurve.Affine.negAddY, WeierstrassCurve.Affine.negY, residueCurve]
    ring

section Double

variable {P : JacobianPoint} {X Y ℓ : ZMod C.p}

lemma cast_jacobianDouble_z (hY : (P.y : ZMod C.p) = Y * (P.z : ZMod C.p) ^ 3) :
    ((C.jacobianDouble P).z : ZMod C.p) = 2 * Y * (P.z : ZMod C.p) ^ 4 := by
  simp only [jacobianDouble, ZMod.natCast_mod]
  push_cast
  rw [hY]
  ring

lemma cast_jacobianDouble (hX : (P.x : ZMod C.p) = X * (P.z : ZMod C.p) ^ 2)
    (hY : (P.y : ZMod C.p) = Y * (P.z : ZMod C.p) ^ 3) (hℓ : 2 * Y * ℓ = 3 * X ^ 2 + C.a) :
    ((C.jacobianDouble P).x : ZMod C.p) =
        (ℓ ^ 2 - X - X) * ((C.jacobianDouble P).z : ZMod C.p) ^ 2 ∧
      ((C.jacobianDouble P).y : ZMod C.p) = (ℓ * (X - (ℓ ^ 2 - X - X)) - Y) *
        ((C.jacobianDouble P).z : ZMod C.p) ^ 3 := by
  have hz := cast_jacobianDouble_z hY
  -- The slope times the scale of the double.
  have hm : 3 * (P.x : ZMod C.p) * P.x + C.a * (P.z * P.z * (P.z * P.z)) =
      ℓ * ((C.jacobianDouble P).z : ZMod C.p) := by
    rw [hX, hz]
    linear_combination -(P.z : ZMod C.p) ^ 4 * hℓ
  have hx : ((C.jacobianDouble P).x : ZMod C.p) =
      (ℓ ^ 2 - X - X) * ((C.jacobianDouble P).z : ZMod C.p) ^ 2 := by
    have hsub : ((C.jacobianDouble P).x : ZMod C.p) =
        (3 * (P.x : ZMod C.p) * P.x + C.a * (P.z * P.z * (P.z * P.z))) ^ 2 -
          2 * (4 * P.x * (P.y * P.y)) := by
      simp only [jacobianDouble, Modular.cast_sub, Nat.cast_mul, Nat.cast_add, ZMod.natCast_mod, Nat.cast_ofNat]
      ring
    rw [hsub, hm, hX, hY, hz]
    ring
  refine ⟨hx, ?_⟩
  have hsub : ((C.jacobianDouble P).y : ZMod C.p) =
      (3 * (P.x : ZMod C.p) * P.x + C.a * (P.z * P.z * (P.z * P.z))) *
        (4 * P.x * (P.y * P.y) - (C.jacobianDouble P).x) - 8 * (P.y * P.y) * (P.y * P.y) := by
    simp only [jacobianDouble, Modular.cast_sub, Nat.cast_mul, Nat.cast_add, ZMod.natCast_mod, Nat.cast_ofNat]
  rw [hsub, hm, hx, hX, hY, hz]
  ring

end Double

theorem jacobianDouble_scales {P : JacobianPoint} {Q : C.residueCurve.Point} (h : C.Scales P Q) :
    C.Scales (C.jacobianDouble P) (Q + Q) := by
  have hlt : (C.jacobianDouble P).z < C.p := Nat.mod_lt _ Smooth.prime.pos
  cases h with
  | infinity hz =>
    rw [← Point.zero_def, add_zero]
    refine .infinity ?_
    change 2 * P.y * P.z % C.p = 0
    rw [hz, mul_zero, Nat.zero_mod]
  | @finite X Y hQ hltz hz hX hY =>
    have hne : (P.z : ZMod C.p) ≠ 0 := mt (cast_eq_zero_iff hltz).1 hz
    have hnegY : C.residueCurve.negY X Y = -Y := by simp [residueCurve]
    by_cases hvertical : Y = C.residueCurve.negY X Y
    · -- The tangent is vertical, and the scale of the double is zero.
      have htwo : 2 * Y = 0 := by
        rw [hnegY] at hvertical
        linear_combination hvertical
      rw [Point.add_self_of_Y_eq hvertical]
      refine .infinity ((cast_eq_zero_iff hlt).1 ?_)
      rw [cast_jacobianDouble_z hY, htwo, zero_mul]
    · have hY0 : Y ≠ 0 := by
        rintro rfl
        exact hvertical (by rw [hnegY, neg_zero])
      rw [Point.add_self_of_Y_ne hvertical]
      have hdouble : 2 * Y ≠ 0 := mul_ne_zero two_ne_zero_residue hY0
      have hslope : 2 * Y * C.residueCurve.slope X X Y Y = 3 * X ^ 2 + C.a := by
        rw [WeierstrassCurve.Affine.slope_of_Y_ne rfl hvertical, hnegY, sub_neg_eq_add, ← two_mul, mul_comm,
          div_mul_cancel₀ _ hdouble]
        simp only [residueCurve]
        ring
      obtain ⟨hx, hy⟩ := cast_jacobianDouble hX hY hslope
      refine .along hlt (mt (cast_eq_zero_iff hlt).2 ?_) _ hx hy
      rw [cast_jacobianDouble_z hY]
      exact mul_ne_zero hdouble (pow_ne_zero 4 hne)

section Chord

variable {P : JacobianPoint} {X₁ Y₁ X₂ Y₂ ℓ : ZMod C.p} {h r : ℕ}

lemma cast_jacobianChord_z : ((C.jacobianChord P h r).z : ZMod C.p) = P.z * h := by
  simp only [jacobianChord, Nat.cast_mul, ZMod.natCast_mod]

/-- With a slope that takes the scale of the sum to the difference of the y-coordinates, the sum
lies on the line of that slope. -/
lemma cast_jacobianChord (hX : (P.x : ZMod C.p) = X₁ * (P.z : ZMod C.p) ^ 2)
    (hY : (P.y : ZMod C.p) = Y₁ * (P.z : ZMod C.p) ^ 3)
    (hh : (h : ZMod C.p) = (X₂ - X₁) * (P.z : ZMod C.p) ^ 2)
    (hr : (r : ZMod C.p) = ℓ * (P.z * h)) :
    ((C.jacobianChord P h r).x : ZMod C.p) =
        (ℓ ^ 2 - X₁ - X₂) * ((C.jacobianChord P h r).z : ZMod C.p) ^ 2 ∧
      ((C.jacobianChord P h r).y : ZMod C.p) = (ℓ * (X₁ - (ℓ ^ 2 - X₁ - X₂)) - Y₁) *
        ((C.jacobianChord P h r).z : ZMod C.p) ^ 3 := by
  have hz : ((C.jacobianChord P h r).z : ZMod C.p) = P.z * h := cast_jacobianChord_z
  have hx : ((C.jacobianChord P h r).x : ZMod C.p) =
      (ℓ ^ 2 - X₁ - X₂) * ((C.jacobianChord P h r).z : ZMod C.p) ^ 2 := by
    have hsub : ((C.jacobianChord P h r).x : ZMod C.p) = r * r - (h * (h * h) + 2 * (P.x * (h * h))) := by
      simp only [jacobianChord, Modular.cast_sub, Nat.cast_mul, Nat.cast_add, ZMod.natCast_mod, Nat.cast_ofNat]
    rw [hsub, hr, hX, hz]
    linear_combination -(h : ZMod C.p) ^ 2 * hh
  refine ⟨hx, ?_⟩
  have hsub : ((C.jacobianChord P h r).y : ZMod C.p) =
      r * (P.x * (h * h) - (C.jacobianChord P h r).x) - P.y * (h * (h * h)) := by
    simp only [jacobianChord, Modular.cast_sub, Nat.cast_mul, Nat.cast_add, ZMod.natCast_mod, Nat.cast_ofNat]
  rw [hsub, hr, hx, hX, hY, hz]
  ring

/-- Points of different x-coordinates are added along their chord. -/
lemma jacobianChord_scales (hQ : C.residueCurve.Nonsingular X₁ Y₁) (hQ' : C.residueCurve.Nonsingular X₂ Y₂)
    (hne : (P.z : ZMod C.p) ≠ 0) (hX : (P.x : ZMod C.p) = X₁ * (P.z : ZMod C.p) ^ 2)
    (hY : (P.y : ZMod C.p) = Y₁ * (P.z : ZMod C.p) ^ 3)
    (hh : (h : ZMod C.p) = (X₂ - X₁) * (P.z : ZMod C.p) ^ 2)
    (hr : (r : ZMod C.p) = (Y₂ - Y₁) * (P.z : ZMod C.p) ^ 3) (hvertical : X₁ ≠ X₂) :
    C.Scales (C.jacobianChord P h r) (.some X₁ Y₁ hQ + .some X₂ Y₂ hQ') := by
  have hslope : (r : ZMod C.p) = C.residueCurve.slope X₁ X₂ Y₁ Y₂ * (P.z * h) := by
    have hrise : C.residueCurve.slope X₁ X₂ Y₁ Y₂ * (X₁ - X₂) = Y₁ - Y₂ := by
      rw [WeierstrassCurve.Affine.slope_of_X_ne hvertical, div_mul_cancel₀ _ (sub_ne_zero.2 hvertical)]
    rw [hr, hh]
    linear_combination (P.z : ZMod C.p) ^ 3 * hrise
  obtain ⟨hx, hy⟩ := cast_jacobianChord hX hY hh hslope
  have hlt : (C.jacobianChord P h r).z < C.p := Nat.mod_lt _ Smooth.prime.pos
  rw [Point.add_of_X_ne hvertical]
  refine .along hlt (mt (cast_eq_zero_iff hlt).2 ?_) _ hx hy
  rw [cast_jacobianChord_z, hh]
  exact mul_ne_zero hne (mul_ne_zero (sub_ne_zero.2 hvertical.symm) (pow_ne_zero 2 hne))

end Chord

theorem jacobianAdd_scales {P : JacobianPoint} {x y : ℕ} {Q Q' : C.residueCurve.Point} (h : C.Scales P Q)
    (h' : C.Represents (.finite x y) Q') : C.Scales (C.jacobianAdd P (x, y)) (Q + Q') := by
  have hpos : 0 < C.p := Smooth.prime.pos
  cases h' with
  | @finite _ _ X₂ Y₂ hQ' hx hy hX₂ hY₂ =>
  cases h with
  | infinity hz =>
    rw [← Point.zero_def, zero_add, jacobianAdd, if_pos hz]
    refine .finite hQ' Smooth.prime.one_lt one_ne_zero ?_ ?_
    · rw [hX₂, Nat.cast_one, one_pow, mul_one]
    · rw [hY₂, Nat.cast_one, one_pow, mul_one]
  | @finite X₁ Y₁ hQ hlt hz hX hY =>
    have hne : (P.z : ZMod C.p) ≠ 0 := mt (cast_eq_zero_iff hlt).1 hz
    rw [jacobianAdd, if_neg hz]
    dsimp only
    -- The differences of the coordinates at the scale of the first point.
    generalize hdx : Modular.sub (x * (P.z * P.z % C.p)) P.x C.p = dx
    generalize hdy : Modular.sub (y * (P.z * (P.z * P.z % C.p) % C.p)) P.y C.p = dy
    have hdx_lt : dx < C.p := hdx ▸ Modular.sub_lt hpos _ _
    have hdy_lt : dy < C.p := hdy ▸ Modular.sub_lt hpos _ _
    have hcast_dx : (dx : ZMod C.p) = (X₂ - X₁) * (P.z : ZMod C.p) ^ 2 := by
      rw [← hdx, Modular.cast_sub, Nat.cast_mul, ZMod.natCast_mod, Nat.cast_mul, hX₂, hX]
      ring
    have hcast_dy : (dy : ZMod C.p) = (Y₂ - Y₁) * (P.z : ZMod C.p) ^ 3 := by
      rw [← hdy, Modular.cast_sub, Nat.cast_mul, ZMod.natCast_mod, Nat.cast_mul, ZMod.natCast_mod,
        Nat.cast_mul, hY₂, hY]
      ring
    have hdx_zero : dx = 0 ↔ X₁ = X₂ := by
      rw [← cast_eq_zero_iff hdx_lt, hcast_dx, mul_eq_zero, or_iff_left (pow_ne_zero 2 hne), sub_eq_zero,
        eq_comm]
    have hdy_zero : dy = 0 ↔ Y₁ = Y₂ := by
      rw [← cast_eq_zero_iff hdy_lt, hcast_dy, mul_eq_zero, or_iff_left (pow_ne_zero 3 hne), sub_eq_zero,
        eq_comm]
    by_cases hvertical : X₁ = X₂
    · rw [if_pos (hdx_zero.2 hvertical)]
      by_cases hequal : Y₁ = Y₂
      · rw [if_pos (hdy_zero.2 hequal)]
        subst hvertical hequal
        exact jacobianDouble_scales (.finite hQ hlt hz hX hY)
      · rw [if_neg (mt hdy_zero.1 hequal)]
        have hopposite := (WeierstrassCurve.Affine.Y_eq_of_X_eq hQ.1 hQ'.1 hvertical).resolve_left hequal
        rw [Point.add_of_Y_eq hvertical hopposite]
        exact .infinity rfl
    · rw [if_neg (mt hdx_zero.1 hvertical)]
      exact jacobianChord_scales hQ hQ' hne hX hY hcast_dx hcast_dy hvertical

/-- One inversion brings back the affine point. -/
theorem ofJacobian_represents {P : JacobianPoint} {Q : C.residueCurve.Point} (h : C.Scales P Q) :
    C.Represents (C.ofJacobian P) Q := by
  have hpos : 0 < C.p := Smooth.prime.pos
  cases h with
  | infinity hz =>
    rw [ofJacobian, if_pos hz]
    exact .infinity
  | @finite X Y hQ hlt hz hX hY =>
    have hne : (P.z : ZMod C.p) ≠ 0 := mt (cast_eq_zero_iff hlt).1 hz
    have hinv := Modular.cast_inv_mul hne
    rw [ofJacobian, if_neg hz]
    refine .finite hQ (Nat.mod_lt _ hpos) (Nat.mod_lt _ hpos) ?_ ?_
    · rw [ZMod.natCast_mod, Nat.cast_mul, ZMod.natCast_mod, Nat.cast_mul, hX]
      linear_combination X * ((Modular.inv P.z C.p : ZMod C.p) * P.z + 1) * hinv
    · rw [ZMod.natCast_mod, Nat.cast_mul, ZMod.natCast_mod, Nat.cast_mul, ZMod.natCast_mod, Nat.cast_mul, hY]
      linear_combination Y * (((Modular.inv P.z C.p : ZMod C.p) * P.z) ^ 2 +
        (Modular.inv P.z C.p : ZMod C.p) * P.z + 1) * hinv

/-- A multiple by way of Jacobian coordinates is the multiple on the curve. -/
theorem jacobianMul_represents {P : AffinePoint} {Q : C.residueCurve.Point} (h : C.Represents P Q) (k : ℕ) :
    C.Represents (C.jacobianMul k P) (k • Q) := by
  cases P with
  | infinity =>
    cases h
    rw [← Point.zero_def, nsmul_zero]
    exact .infinity
  | finite x y =>
    apply ofJacobian_represents
    apply Binary.doubleAndAdd_induction (fun j acc => C.Scales acc (j • Q))
    · rw [zero_nsmul]
      exact .infinity rfl
    · intro j acc hacc
      rw [mul_comm, mul_nsmul, two_nsmul]
      exact jacobianDouble_scales hacc
    · intro j acc hacc
      rw [succ_nsmul, mul_comm, mul_nsmul, two_nsmul]
      exact jacobianAdd_scales (jacobianDouble_scales hacc) h

end Smooth

end BlindSchnorr.Weierstrass

import BlindSchnorr.Proofs.Curve.ChordTangent

/-!
# Counting the points of a curve

A point is told by its x-coordinate and the parity of its y-coordinate, so a curve has at most
one point more than twice as many as there are residues. The order of a point divides their
number, and a curve that does not meet the x-axis has no point of order two, hence an odd
number of points. If a point has a prime order above two thirds of the residues, that order
is the only odd multiple within the bound.
-/
namespace BlindSchnorr.Weierstrass

open WeierstrassCurve.Affine (Point)

variable {C : Weierstrass}

/-- What the compressed form of a point keeps: the x-coordinate and the parity of the y-coordinate. -/
def compressed : C.residueCurve.Point → Option (ZMod C.p × Bool)
  | .zero => none
  | .some X Y _ => some (X, decide (Y.val % 2 = 1))

section Smooth

variable [C.Smooth]

lemma odd_p : C.p % 2 = 1 := by
  have hne : C.p ≠ 2 := by have := Smooth.three_lt (C := C); omega
  exact (Smooth.prime (C := C)).eq_two_or_odd.resolve_left hne

/-- A residue and its negative have the same parity only if they are zero. -/
lemma eq_of_eq_neg_of_parity {Y Y' : ZMod C.p} (hneg : Y = -Y') (hparity : Y.val % 2 = Y'.val % 2) :
    Y = Y' := by
  by_cases hzero : Y' = 0
  · rw [hneg, hzero, neg_zero]
  · have hval : Y.val = C.p - Y'.val := by rw [hneg, ZMod.neg_val, if_neg hzero]
    have hlt := ZMod.val_lt Y'
    have hodd := odd_p (C := C)
    omega

theorem compressed_injective : Function.Injective (compressed (C := C)) := by
  intro Q Q' h
  cases Q with
  | zero =>
    cases Q' with
    | zero => rfl
    | some X' Y' hQ' => cases h
  | some X Y hQ =>
    cases Q' with
    | zero => cases h
    | some X' Y' hQ' =>
      obtain ⟨rfl, hparity⟩ := Prod.mk.inj (Option.some.inj h)
      rw [decide_eq_decide] at hparity
      have hY : Y = Y' := by
        rcases WeierstrassCurve.Affine.Y_eq_of_X_eq hQ.1 hQ'.1 rfl with hY | hY
        · exact hY
        · refine eq_of_eq_neg_of_parity (hY.trans (by simp [residueCurve])) ?_
          omega
      subst hY
      rfl

instance : Finite C.residueCurve.Point := Finite.of_injective _ compressed_injective

theorem card_points_le : Nat.card C.residueCurve.Point ≤ 2 * C.p + 1 := by
  calc Nat.card C.residueCurve.Point
      ≤ Nat.card (Option (ZMod C.p × Bool)) := Nat.card_le_card_of_injective _ compressed_injective
    _ = 2 * C.p + 1 := by
      rw [Finite.card_option, Nat.card_prod, Nat.card_zmod, Nat.card_eq_fintype_card, Fintype.card_bool,
        mul_comm]

/-- That a constant is not a cube takes a single power. -/
lemma rhs_ne_zero_of_pow (ha : C.a = 0) (hpos : 0 < C.b) (hlt : C.b < C.p) (hthree : C.p % 3 = 1)
    (hpow : Modular.pow (C.p - C.b) ((C.p - 1) / 3) C.p ≠ 1) (x : ℕ) : C.rhs x ≠ 0 := by
  intro hrhs
  have hcube : (x : ZMod C.p) ^ 3 = -C.b := by
    have hzero := (ZMod.natCast_eq_zero_iff _ _).2 (Nat.dvd_of_mod_eq_zero hrhs)
    rw [ha] at hzero
    push_cast at hzero
    linear_combination hzero
  have hx : (x : ZMod C.p) ≠ 0 := by
    intro h
    rw [h, zero_pow three_ne_zero, eq_comm, neg_eq_zero, cast_eq_zero_iff hlt] at hcube
    omega
  apply hpow
  rw [← Modular.cast_pow_eq_one_iff Smooth.prime.one_lt, Nat.cast_sub hlt.le, ZMod.natCast_self, zero_sub,
    ← hcube, ← pow_mul, show 3 * ((C.p - 1) / 3) = C.p - 1 by omega, ZMod.pow_card_sub_one_eq_one hx]

section Rootless

variable (hroot : ∀ x, C.rhs x ≠ 0)

include hroot

/-- A curve whose cubic has no root does not meet the x-axis. -/
lemma y_ne_zero_of_rootless {X Y : ZMod C.p} (h : C.residueCurve.Equation X Y) : Y ≠ 0 := by
  rintro rfl
  apply hroot X.val
  rw [← (equation_cast_iff X.val 0).1 (by rwa [ZMod.natCast_zmod_val, Nat.cast_zero]), Nat.zero_mod]

/-- The points of order two are those on the x-axis. -/
lemma eq_zero_of_two_nsmul {Q : C.residueCurve.Point} (h : 2 • Q = 0) : Q = 0 := by
  rw [two_nsmul] at h
  cases Q with
  | zero => rfl
  | some X Y hQ =>
    have hopposite := (Point.some.inj (eq_neg_of_add_eq_zero_left h)).2
    have htwo : 2 * Y = 0 := by
      simp only [WeierstrassCurve.Affine.negY, residueCurve] at hopposite
      linear_combination hopposite
    exact absurd ((mul_eq_zero.1 htwo).resolve_left two_ne_zero_residue) (y_ne_zero_of_rootless hroot hQ.1)

lemma odd_card_points : ¬ 2 ∣ Nat.card C.residueCurve.Point := by
  intro hdvd
  obtain ⟨Q, hQ⟩ := exists_prime_addOrderOf_dvd_card' 2 hdvd
  have hzero := eq_zero_of_two_nsmul hroot (hQ ▸ addOrderOf_nsmul_eq_zero Q)
  rw [hzero, addOrderOf_zero] at hQ
  exact absurd hQ (by norm_num)

variable {n : ℕ} {G : C.residueCurve.Point}

/-- The multiples of one point of large prime order are all the points there are. -/
theorem card_points_eq (hprime : n.Prime) (hlarge : 2 * C.p + 1 < 3 * n) (hG : G ≠ 0) (horder : n • G = 0) :
    Nat.card C.residueCurve.Point = n := by
  have : Fact n.Prime := ⟨hprime⟩
  obtain ⟨m, hm⟩ : n ∣ Nat.card C.residueCurve.Point :=
    addOrderOf_eq_prime horder hG ▸ addOrderOf_dvd_natCard G
  have hbound := card_points_le (C := C)
  have hlt : m < 3 := Nat.lt_of_mul_lt_mul_left (a := n) (by rw [← hm]; omega)
  have hodd := odd_card_points hroot
  interval_cases m
  · exact absurd (hm ▸ Nat.card_pos) (by simp)
  · rw [hm, mul_one]
  · exact absurd (hm ▸ dvd_mul_left 2 n) hodd

/-- A large prime order annihilates every point as soon as a multiple of one point by the number below
it is the negative of the point. -/
theorem order_nsmul_eq_zero (hprime : C.order.Prime) (hlarge : 2 * C.p + 1 < 3 * C.order) {P : AffinePoint}
    (hfinite : P ≠ .infinity) (hP : C.Represents P G) (hneg : C.Represents (C.negate P) ((C.order - 1) • G))
    (Q : C.residueCurve.Point) : C.order • Q = 0 := by
  have hG : G ≠ 0 := by
    rintro rfl
    cases hP
    exact hfinite rfl
  have horder : C.order • G = 0 := by
    rw [← Nat.sub_add_cancel hprime.one_le]
    exact succ_nsmul_eq_zero hP hneg
  rw [← card_points_eq hroot hprime hlarge hG horder]
  exact card_nsmul_eq_zero'

end Rootless

end Smooth

end BlindSchnorr.Weierstrass

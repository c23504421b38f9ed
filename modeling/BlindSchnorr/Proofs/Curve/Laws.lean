import Mathlib
import BlindSchnorr.Curve.Group

/-!
# What is required of a curve

The laws that signing relies on, in three parts: coordinates name the finite points, the
field is prime and 3 modulo 4, and the points form an abelian group that the order
annihilates. They are asked of the points that can be built and of no other value. What
holds without square roots or without the order is asked for apart.
-/
namespace BlindSchnorr.CurveGroup

variable (C : CurveGroup)

/-- The identity and the points that coordinates build. A backend may represent further
values; nothing is assumed of them. -/
def IsPoint (P : C.Point) : Prop := P = C.identity ∨ ∃ x y, C.ofCoordinates? x y = some P

/-- The points that a user of the curve comes by: built from coordinates, or the results of
operations on such points. -/
inductive Obtained : C.Point → Prop
  | build {x y : Nat} {P : C.Point} (h : C.ofCoordinates? x y = some P) : Obtained P
  | identity : Obtained C.identity
  | generator : Obtained C.generator
  | add {P Q : C.Point} (hP : Obtained P) (hQ : Obtained Q) : Obtained (C.add P Q)
  | negate {P : C.Point} (hP : Obtained P) : Obtained (C.negate P)
  | scalarMul {P : C.Point} (k : Nat) (hP : Obtained P) : Obtained (C.scalarMul k P)
  | mulGenerator (k : Nat) : Obtained (C.mulGenerator k)

/-- The reduced solutions of the curve equation, and no other pairs, build a point, and the
point has them as its coordinates. -/
class CoordinateLaws : Prop where
  coordinates_identity : C.coordinates C.identity = none
  coordinates_of_build : ∀ x y P, C.ofCoordinates? x y = some P → C.coordinates P = some (x, y)
  build_iff : ∀ x y, (C.ofCoordinates? x y).isSome ↔
    x < C.fieldPrime ∧ y < C.fieldPrime ∧ y * y % C.fieldPrime = C.rhs x

/-- The field is prime, square roots are powers, and a coordinate fits a word. -/
class FieldLaws : Prop where
  prime : C.fieldPrime.Prime
  prime_mod_four : C.fieldPrime % 4 = 3
  prime_lt : C.fieldPrime < 2 ^ 256

/-- The points form an abelian group, multiples are iterated sums, and the order annihilates
every point. -/
class GroupLaws : Prop where
  isPoint_generator : C.IsPoint C.generator
  isPoint_add : ∀ P Q, C.IsPoint P → C.IsPoint Q → C.IsPoint (C.add P Q)
  isPoint_negate : ∀ P, C.IsPoint P → C.IsPoint (C.negate P)
  add_assoc : ∀ P Q R, C.IsPoint P → C.IsPoint Q → C.IsPoint R →
    C.add (C.add P Q) R = C.add P (C.add Q R)
  add_comm : ∀ P Q, C.IsPoint P → C.IsPoint Q → C.add P Q = C.add Q P
  add_identity : ∀ P, C.IsPoint P → C.add P C.identity = P
  add_negate : ∀ P, C.IsPoint P → C.add P (C.negate P) = C.identity
  scalarMul_zero : ∀ P, C.IsPoint P → C.scalarMul 0 P = C.identity
  scalarMul_succ : ∀ k P, C.IsPoint P → C.scalarMul (k + 1) P = C.add (C.scalarMul k P) P
  mulGenerator_eq : ∀ k, C.mulGenerator k = C.scalarMul k C.generator
  scalarMul_order : ∀ P, C.IsPoint P → C.scalarMul C.order P = C.identity

/-- A curve that signing can rely on: all the laws together, the negative of a point is its
reflection, and a scalar fits a word. -/
class Lawful : Prop extends CoordinateLaws C, FieldLaws C, GroupLaws C where
  coordinates_negate : ∀ P x y, C.IsPoint P → C.coordinates P = some (x, y) →
    C.coordinates (C.negate P) = some (x, (C.fieldPrime - y) % C.fieldPrime)
  order_lt : C.order < 2 ^ 256

/-- The part of the coordinate laws that decides whether a pair builds a point: the reduced
solutions of the curve equation do, and no other pairs. What coordinates the point then has is
left open. -/
class AcceptanceLaws : Prop where
  build_iff : ∀ x y, (C.ofCoordinates? x y).isSome ↔
    x < C.fieldPrime ∧ y < C.fieldPrime ∧ y * y % C.fieldPrime = C.rhs x

/-- The part of the coordinate laws that reading a byte string needs: a point is built from
reduced solutions of the curve equation only, and has them as its coordinates. -/
class BuildLaws : Prop where
  reduced_of_build : ∀ x y P, C.ofCoordinates? x y = some P →
    x < C.fieldPrime ∧ y < C.fieldPrime ∧ y * y % C.fieldPrime = C.rhs x
  coordinates_of_build : ∀ x y P, C.ofCoordinates? x y = some P → C.coordinates P = some (x, y)

/-- The part that writing a point and reading it back needs: the identity alone lacks coordinates,
and those of a finite point are a reduced solution that builds it. What else builds a point is
left open. -/
class CodingLaws : Prop where
  coordinates_eq_none_iff : ∀ P, C.IsPoint P → (C.coordinates P = none ↔ P = C.identity)
  reduced_of_coordinates : ∀ P x y, C.IsPoint P → C.coordinates P = some (x, y) →
    x < C.fieldPrime ∧ y < C.fieldPrime ∧ y * y % C.fieldPrime = C.rhs x
  build_of_coordinates : ∀ P x y, C.IsPoint P → C.coordinates P = some (x, y) →
    C.ofCoordinates? x y = some P

/-- The part of the field laws that needs no square roots: the prime is odd. -/
class OddFieldLaws : Prop where
  prime : C.fieldPrime.Prime
  odd : C.fieldPrime % 2 = 1
  prime_lt : C.fieldPrime < 2 ^ 256

/-- The part of the field laws that finding a square root needs: the prime may be of any size. -/
class RootLaws : Prop where
  prime : C.fieldPrime.Prime
  prime_mod_four : C.fieldPrime % 4 = 3

/-- The part of the group laws that says nothing about the order. -/
class AdditionLaws : Prop where
  isPoint_generator : C.IsPoint C.generator
  isPoint_add : ∀ P Q, C.IsPoint P → C.IsPoint Q → C.IsPoint (C.add P Q)
  isPoint_negate : ∀ P, C.IsPoint P → C.IsPoint (C.negate P)
  add_assoc : ∀ P Q R, C.IsPoint P → C.IsPoint Q → C.IsPoint R →
    C.add (C.add P Q) R = C.add P (C.add Q R)
  add_comm : ∀ P Q, C.IsPoint P → C.IsPoint Q → C.add P Q = C.add Q P
  add_identity : ∀ P, C.IsPoint P → C.add P C.identity = P
  add_negate : ∀ P, C.IsPoint P → C.add P (C.negate P) = C.identity
  scalarMul_zero : ∀ P, C.IsPoint P → C.scalarMul 0 P = C.identity
  scalarMul_succ : ∀ k P, C.IsPoint P → C.scalarMul (k + 1) P = C.add (C.scalarMul k P) P
  mulGenerator_eq : ∀ k, C.mulGenerator k = C.scalarMul k C.generator

/-- The negative of a point is its reflection in the x-axis. -/
class ReflectionLaws : Prop where
  coordinates_negate : ∀ P x y, C.IsPoint P → C.coordinates P = some (x, y) →
    C.coordinates (C.negate P) = some (x, (C.fieldPrime - y) % C.fieldPrime)

/-- No smaller multiple of the generator than that by the order is the identity. -/
def ExactOrder : Prop := ∀ k, C.mulGenerator k = C.identity ↔ C.order ∣ k

variable {C}

instance [h : C.FieldLaws] : C.OddFieldLaws where
  prime := h.prime
  odd := by have := h.prime_mod_four; omega
  prime_lt := h.prime_lt

instance [h : C.FieldLaws] : C.RootLaws := { h with }

instance [h : C.CoordinateLaws] : C.AcceptanceLaws := { h with }

instance [h : C.GroupLaws] : C.AdditionLaws := { h with }

instance [h : C.Lawful] : C.ReflectionLaws := ⟨h.coordinates_negate⟩

theorem isPoint_identity : C.IsPoint C.identity := .inl rfl

theorem isPoint_of_build {x y : Nat} {P : C.Point} (h : C.ofCoordinates? x y = some P) : C.IsPoint P :=
  .inr ⟨x, y, h⟩

theorem reduced_of_build [C.AcceptanceLaws] {x y : Nat} {P : C.Point} (h : C.ofCoordinates? x y = some P) :
    x < C.fieldPrime ∧ y < C.fieldPrime ∧ y * y % C.fieldPrime = C.rhs x :=
  (AcceptanceLaws.build_iff x y).1 (by rw [h]; rfl)

theorem exists_build [C.AcceptanceLaws] {x y : Nat} (hx : x < C.fieldPrime) (hy : y < C.fieldPrime)
    (hcurve : y * y % C.fieldPrime = C.rhs x) : ∃ P, C.ofCoordinates? x y = some P :=
  Option.isSome_iff_exists.1 ((AcceptanceLaws.build_iff x y).2 ⟨hx, hy, hcurve⟩)

section Coordinates

variable [C.CoordinateLaws] {P Q : C.Point} {x y : Nat}

instance : C.BuildLaws where
  reduced_of_build _ _ _ h := reduced_of_build h
  coordinates_of_build := CoordinateLaws.coordinates_of_build

theorem coordinates_eq_some_iff (hP : C.IsPoint P) :
    C.coordinates P = some (x, y) ↔ C.ofCoordinates? x y = some P := by
  constructor
  · intro h
    rcases hP with rfl | ⟨x', y', hbuild⟩
    · rw [CoordinateLaws.coordinates_identity] at h
      cases h
    · rw [CoordinateLaws.coordinates_of_build _ _ _ hbuild] at h
      cases h
      exact hbuild
  · exact CoordinateLaws.coordinates_of_build x y P

theorem coordinates_on_curve (hP : C.IsPoint P) (h : C.coordinates P = some (x, y)) :
    x < C.fieldPrime ∧ y < C.fieldPrime ∧ y * y % C.fieldPrime = C.rhs x :=
  BuildLaws.reduced_of_build x y P ((coordinates_eq_some_iff hP).1 h)

theorem coordinates_injective (hP : C.IsPoint P) (hQ : C.IsPoint Q) (h : C.coordinates P = some (x, y))
    (h' : C.coordinates Q = some (x, y)) : P = Q := by
  rw [coordinates_eq_some_iff hP] at h
  rw [coordinates_eq_some_iff hQ] at h'
  exact Option.some.inj (h.symm.trans h')

/-- The identity is the only point without coordinates. -/
theorem coordinates_eq_none_iff (hP : C.IsPoint P) : C.coordinates P = none ↔ P = C.identity := by
  constructor
  · intro h
    rcases hP with rfl | ⟨x, y, hbuild⟩
    · rfl
    · rw [CoordinateLaws.coordinates_of_build _ _ _ hbuild] at h
      cases h
  · rintro rfl
    exact CoordinateLaws.coordinates_identity

instance : C.CodingLaws where
  coordinates_eq_none_iff _ hP := coordinates_eq_none_iff hP
  reduced_of_coordinates _ _ _ hP h := coordinates_on_curve hP h
  build_of_coordinates _ _ _ hP h := (coordinates_eq_some_iff hP).1 h

end Coordinates

instance [h : C.OddFieldLaws] : Fact C.fieldPrime.Prime := ⟨h.prime⟩

instance [h : C.RootLaws] : Fact C.fieldPrime.Prime := ⟨h.prime⟩

abbrev Points (C : CurveGroup) : Type := { P : C.Point // C.IsPoint P }

namespace Points

instance : Zero C.Points := ⟨⟨C.identity, isPoint_identity⟩⟩

@[simp, norm_cast] theorem coe_zero : ((0 : C.Points) : C.Point) = C.identity := rfl

section Addition

variable [C.AdditionLaws]

theorem isPoint_scalarMul (k : Nat) (P : C.Points) : C.IsPoint (C.scalarMul k P) := by
  induction k with
  | zero =>
    rw [AdditionLaws.scalarMul_zero _ P.2]
    exact isPoint_identity
  | succ k ih =>
    rw [AdditionLaws.scalarMul_succ _ _ P.2]
    exact AdditionLaws.isPoint_add _ _ ih P.2

instance : Add C.Points := ⟨fun P Q => ⟨C.add P Q, AdditionLaws.isPoint_add _ _ P.2 Q.2⟩⟩

instance : Neg C.Points := ⟨fun P => ⟨C.negate P, AdditionLaws.isPoint_negate _ P.2⟩⟩

instance : AddCommGroup C.Points where
  nsmul k P := ⟨C.scalarMul k P, isPoint_scalarMul k P⟩
  zsmul := zsmulRec
  add_assoc P Q R := Subtype.ext (AdditionLaws.add_assoc _ _ _ P.2 Q.2 R.2)
  add_comm P Q := Subtype.ext (AdditionLaws.add_comm _ _ P.2 Q.2)
  add_zero P := Subtype.ext (AdditionLaws.add_identity _ P.2)
  zero_add P := Subtype.ext
    ((AdditionLaws.add_comm _ _ isPoint_identity P.2).trans (AdditionLaws.add_identity _ P.2))
  neg_add_cancel P := Subtype.ext
    ((AdditionLaws.add_comm _ _ (AdditionLaws.isPoint_negate _ P.2) P.2).trans (AdditionLaws.add_negate _ P.2))
  nsmul_zero P := Subtype.ext (AdditionLaws.scalarMul_zero _ P.2)
  nsmul_succ k P := Subtype.ext (AdditionLaws.scalarMul_succ k _ P.2)

def generator : C.Points := ⟨C.generator, AdditionLaws.isPoint_generator⟩

@[simp, norm_cast] theorem coe_add (P Q : C.Points) : ((P + Q : C.Points) : C.Point) = C.add P Q := rfl

@[simp, norm_cast] theorem coe_neg (P : C.Points) : ((-P : C.Points) : C.Point) = C.negate P := rfl

@[simp, norm_cast] theorem coe_nsmul (k : Nat) (P : C.Points) :
    ((k • P : C.Points) : C.Point) = C.scalarMul k P := rfl

@[simp, norm_cast] theorem coe_nsmul_generator (k : Nat) :
    ((k • generator : C.Points) : C.Point) = C.mulGenerator k :=
  (AdditionLaws.mulGenerator_eq k).symm

theorem exactOrder_iff : C.ExactOrder ↔ addOrderOf (generator : C.Points) = C.order := by
  rw [← Nat.dvd_right_iff_eq]
  refine forall_congr' fun k => ?_
  rw [addOrderOf_dvd_iff_nsmul_eq_zero, ← coe_nsmul_generator, ← coe_zero, Subtype.coe_inj]

/-- Multiples of a generator of exact order agree iff their scalars do, modulo the order. -/
theorem nsmul_generator_eq_iff (hG : C.ExactOrder) {j k : Nat} :
    j • (generator : C.Points) = k • generator ↔ j ≡ k [MOD C.order] := by
  rw [nsmul_eq_nsmul_iff_modEq, exactOrder_iff.1 hG]

end Addition

variable [C.GroupLaws]

theorem order_nsmul (P : C.Points) : C.order • P = 0 := Subtype.ext (GroupLaws.scalarMul_order _ P.2)

theorem mod_nsmul (k : Nat) (P : C.Points) : (k % C.order) • P = k • P :=
  (nsmul_eq_mod_nsmul k (order_nsmul P)).symm

theorem zsmul_eq_of_modEq {j k : ℤ} (h : j ≡ k [ZMOD C.order]) (P : C.Points) : j • P = k • P := by
  obtain ⟨m, hm⟩ := h.dvd
  have hk : k = j + m * C.order := by linarith
  rw [hk, add_zsmul, mul_zsmul, natCast_zsmul, order_nsmul, zsmul_zero, add_zero]

/-- The difference to the order multiplies to the negative. -/
theorem order_sub_nsmul {k : Nat} (hk : k ≤ C.order) (P : C.Points) : (C.order - k) • P = -(k • P) := by
  rw [eq_neg_iff_add_eq_zero, ← add_nsmul, Nat.sub_add_cancel hk, order_nsmul]

/-- What is coprime to the order can be cancelled. -/
theorem zsmul_right_cancel {d : ℤ} (hd : IsCoprime d C.order) {P Q : C.Points} (h : d • P = d • Q) :
    P = Q := by
  obtain ⟨a, b, hone⟩ := hd
  have hmultiple : ∀ T : C.Points, a • d • T = T := by
    intro T
    calc a • d • T = (a * d + b * C.order) • T := by
          rw [add_zsmul, mul_zsmul, mul_zsmul, natCast_zsmul, order_nsmul, zsmul_zero, add_zero]
      _ = T := by rw [hone, one_zsmul]
  rw [← hmultiple P, h, hmultiple Q]

end Points

/-- A prime order is exact for every generator but the identity. -/
theorem exactOrder_of_prime [C.GroupLaws] (hprime : C.order.Prime) (hG : C.generator ≠ C.identity) :
    C.ExactOrder := by
  have : Fact C.order.Prime := ⟨hprime⟩
  have hne : (Points.generator : C.Points) ≠ 0 := fun h => hG (congrArg Subtype.val h)
  exact Points.exactOrder_iff.2 (addOrderOf_eq_prime (Points.order_nsmul Points.generator) hne)

theorem isPoint_mulGenerator [C.AdditionLaws] (k : Nat) : C.IsPoint (C.mulGenerator k) := by
  rw [← Points.coe_nsmul_generator]
  exact Subtype.property _

/-- No operation leads out of the points. -/
theorem Obtained.isPoint [C.AdditionLaws] {P : C.Point} (h : C.Obtained P) : C.IsPoint P := by
  induction h with
  | build h => exact isPoint_of_build h
  | identity => exact isPoint_identity
  | generator => exact AdditionLaws.isPoint_generator
  | add _ _ ihP ihQ => exact AdditionLaws.isPoint_add _ _ ihP ihQ
  | negate _ ih => exact AdditionLaws.isPoint_negate _ ih
  | scalarMul k _ ih => exact Points.isPoint_scalarMul k ⟨_, ih⟩
  | mulGenerator k => exact isPoint_mulGenerator k

end BlindSchnorr.CurveGroup

/-!
# Groups of curve points

The operations that signing needs of a curve `y² = x³ + a * x + b` over the integers modulo
a prime, with a generator and its order. The structure holds operations and no laws, so
that what follows from which law can be said where it is used.
-/
namespace BlindSchnorr

/-- A group of curve points with affine coordinates for its finite points. Scalars may be of
any size. -/
structure CurveGroup where
  Point : Type
  decEq : DecidableEq Point
  name : String
  order : Nat
  fieldPrime : Nat
  a : Nat
  b : Nat
  generator : Point
  identity : Point
  isIdentity : Point → Bool
  add : Point → Point → Point
  negate : Point → Point
  scalarMul : Nat → Point → Point
  mulGenerator : Nat → Point := fun k => scalarMul k generator
  /-- The affine coordinates of a point; the identity has none. -/
  coordinates : Point → Option (Nat × Nat)
  /-- The point with given affine coordinates, if they are reduced and on the curve. -/
  ofCoordinates? : Nat → Nat → Option Point

instance (C : CurveGroup) : DecidableEq C.Point := C.decEq

/-- The right-hand side of the curve equation. -/
def CurveGroup.rhs (C : CurveGroup) (x : Nat) : Nat := (x * x * x + C.a * x + C.b) % C.fieldPrime

end BlindSchnorr

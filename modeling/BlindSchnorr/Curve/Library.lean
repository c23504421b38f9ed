import BlindSchnorr.Curve.Affine
import BlindSchnorr.Encoding.Bytes

/-!
# Curves by way of a library

A library of curve arithmetic keeps points and scalars in representations of its own. Scalars
and coordinates cross its border as words of 32 bytes: a scalar is reduced modulo the order
before, and coordinates that are not reduced are refused before.
-/
namespace BlindSchnorr

/-- The points and the scalars of a curve as a library offers them. -/
structure PointLibrary where
  Point : Type
  Scalar : Type
  decEq : DecidableEq Point
  generator : Point
  identity : Point
  add : Point → Point → Point
  negate : Point → Point
  mul : Point → Scalar → Point
  /-- The scalar that the number in a word is reduced to. -/
  scalarOfWord : Word → Scalar
  /-- The affine coordinates of a point, in a word each. -/
  words? : Point → Option (Word × Word)
  /-- The point with given affine coordinates. -/
  ofWords? : Word → Word → Option Point

namespace PointLibrary

variable (L : PointLibrary)

instance : DecidableEq L.Point := L.decEq

def scalar (order k : Nat) : L.Scalar := L.scalarOfWord (Block.ofNat 32 (k % order))

/-- The group of a curve with the points of a library. -/
def group (C : Weierstrass) (name : String) : CurveGroup where
  Point := L.Point
  decEq := L.decEq
  name := name
  order := C.order
  fieldPrime := C.p
  a := C.a
  b := C.b
  generator := L.generator
  identity := L.identity
  isIdentity P := P = L.identity
  add := L.add
  negate := L.negate
  scalarMul k P := L.mul P (L.scalar C.order k)
  mulGenerator k := L.mul L.generator (L.scalar C.order k)
  coordinates P :=
    if P = L.identity then none else (L.words? P).map fun (x, y) => (x.toNat, y.toNat)
  ofCoordinates? x y :=
    if C.p ≤ x ∨ C.p ≤ y then none else L.ofWords? (Block.ofNat 32 x) (Block.ofNat 32 y)

end PointLibrary

end BlindSchnorr

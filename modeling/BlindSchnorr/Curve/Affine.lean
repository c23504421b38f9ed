import BlindSchnorr.Arith.Modular
import BlindSchnorr.Curve.Group

/-!
# Affine arithmetic on short Weierstrass curves

The chord and tangent rules on pairs of natural numbers, every coordinate reduced modulo
the prime. Points of equal x-coordinate cancel when their y-coordinates add up to zero and
are doubled otherwise.
-/
namespace BlindSchnorr

/-- A point in affine coordinates, or the point at infinity. -/
inductive AffinePoint
  | infinity
  | finite (x y : Nat)
deriving DecidableEq, Repr

/-- A curve `y² = x³ + a * x + b` modulo `p` with a base point and its order. -/
structure Weierstrass where
  p : Nat
  a : Nat
  b : Nat
  order : Nat
  base : AffinePoint
deriving DecidableEq, Repr

namespace Weierstrass

variable (C : Weierstrass)

/-- The right-hand side of the curve equation. -/
def rhs (x : Nat) : Nat := (x * x * x + C.a * x + C.b) % C.p

/-- The point at the end of a line of slope `m` through points with x-coordinates `x₁` and
`x₂`, the first of them `(x₁, y₁)`. -/
def along (m x₁ y₁ x₂ : Nat) : AffinePoint :=
  let x₃ := Modular.sub (Modular.sub (m * m % C.p) x₁ C.p) x₂ C.p
  .finite x₃ (Modular.sub (m * Modular.sub x₁ x₃ C.p % C.p) y₁ C.p)

def tangent (x y : Nat) : Nat := (3 * x * x + C.a) % C.p * Modular.inv (2 * y % C.p) C.p % C.p

def chord (x₁ y₁ x₂ y₂ : Nat) : Nat :=
  Modular.sub y₂ y₁ C.p * Modular.inv (Modular.sub x₂ x₁ C.p) C.p % C.p

def add : AffinePoint → AffinePoint → AffinePoint
  | .infinity, Q => Q
  | P, .infinity => P
  | .finite x₁ y₁, .finite x₂ y₂ =>
    if x₁ = x₂ then
      if (y₁ + y₂) % C.p = 0 then .infinity else C.along (C.tangent x₁ y₁) x₁ y₁ x₂
    else C.along (C.chord x₁ y₁ x₂ y₂) x₁ y₁ x₂

/-- The reflection of a point in the x-axis. -/
def negate : AffinePoint → AffinePoint
  | .infinity => .infinity
  | .finite x y => .finite x ((C.p - y) % C.p)

/-- A multiple of a point, its scalar reduced modulo the order first and then read byte by byte. -/
def scalarMul (k : Nat) (P : AffinePoint) : AffinePoint :=
  (Binary.byteBits (k % C.order)).foldl
    (fun Q d => if d then C.add (C.add Q Q) P else C.add Q Q) .infinity

def coordinates : AffinePoint → Option (Nat × Nat)
  | .infinity => none
  | .finite x y => some (x, y)

/-- The point with given coordinates, if they are reduced and satisfy the equation. -/
def ofCoordinates? (x y : Nat) : Option AffinePoint :=
  if x < C.p ∧ y < C.p ∧ y * y % C.p = C.rhs x then some (.finite x y) else none

/-- The group of points under affine arithmetic. -/
def group (name : String) : CurveGroup where
  Point := AffinePoint
  decEq := inferInstance
  name := name
  order := C.order
  fieldPrime := C.p
  a := C.a
  b := C.b
  generator := C.base
  identity := .infinity
  isIdentity P := P = .infinity
  add := C.add
  negate := C.negate
  scalarMul := C.scalarMul
  coordinates := coordinates
  ofCoordinates? := C.ofCoordinates?

end Weierstrass

end BlindSchnorr

import BlindSchnorr.Curve.Library

/-!
# Scalar multiplication in Jacobian coordinates

The triple `(x, y, z)` stands for the affine point `(x / z², y / z³)`, and for infinity
when `z = 0`. Doubling and adding need no division, so a multiple of a point costs a single
inversion at the end.
-/
namespace BlindSchnorr

structure JacobianPoint where
  x : Nat
  y : Nat
  z : Nat
deriving DecidableEq, Repr

namespace Weierstrass

variable (C : Weierstrass)

def jacobianInfinity : JacobianPoint := ⟨1, 1, 0⟩

def jacobianDouble (P : JacobianPoint) : JacobianPoint :=
  let yy := P.y * P.y % C.p
  let zz := P.z * P.z % C.p
  let s := 4 * P.x * yy % C.p
  let m := (3 * P.x * P.x + C.a * (zz * zz)) % C.p
  let x := Modular.sub (m * m) (2 * s) C.p
  ⟨x, Modular.sub (m * Modular.sub s x C.p) (8 * yy * yy) C.p, 2 * P.y * P.z % C.p⟩

/-- The sum of a point and another whose coordinates, brought to the scale of the first, are
greater by `h` and `r`. -/
def jacobianChord (P : JacobianPoint) (h r : Nat) : JacobianPoint :=
  let hh := h * h % C.p
  let hhh := h * hh % C.p
  let v := P.x * hh % C.p
  let x := Modular.sub (r * r) (hhh + 2 * v) C.p
  ⟨x, Modular.sub (r * Modular.sub v x C.p) (P.y * hhh) C.p, P.z * h % C.p⟩

/-- The sum of a point and a finite point in affine coordinates. -/
def jacobianAdd (P : JacobianPoint) (Q : Nat × Nat) : JacobianPoint :=
  if P.z = 0 then ⟨Q.1, Q.2, 1⟩
  else
    let zz := P.z * P.z % C.p
    let h := Modular.sub (Q.1 * zz) P.x C.p
    let r := Modular.sub (Q.2 * (P.z * zz % C.p)) P.y C.p
    if h = 0 then if r = 0 then C.jacobianDouble P else jacobianInfinity
    else C.jacobianChord P h r

def ofJacobian (P : JacobianPoint) : AffinePoint :=
  if P.z = 0 then .infinity
  else
    let i := Modular.inv P.z C.p
    let ii := i * i % C.p
    .finite (P.x * ii % C.p) (P.y * (i * ii % C.p) % C.p)

/-- A multiple of a point by way of Jacobian coordinates. -/
def jacobianMul (k : Nat) : AffinePoint → AffinePoint
  | .infinity => .infinity
  | .finite x y =>
    C.ofJacobian (Binary.doubleAndAdd C.jacobianDouble C.jacobianAdd jacobianInfinity (x, y) k)

/-- Affine points, with multiples taken in Jacobian coordinates. -/
def jacobianLibrary : PointLibrary where
  Point := AffinePoint
  Scalar := Nat
  decEq := inferInstance
  generator := C.base
  identity := .infinity
  add := C.add
  negate := C.negate
  mul P k := C.jacobianMul k P
  scalarOfWord w := w.toNat % C.order
  words? P := (coordinates P).map fun (x, y) => (Block.ofNat 32 x, Block.ofNat 32 y)
  ofWords? x y := C.ofCoordinates? x.toNat y.toNat

end Weierstrass

end BlindSchnorr

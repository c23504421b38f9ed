import BlindSchnorr.Curve.Jacobian
import BlindSchnorr.Error

/-!
# The curves in use

The production curve, reached through a backend that may be missing, and a curve small
enough that the identity and every boundary scalar can be hit on purpose.
-/
namespace BlindSchnorr

def Weierstrass.secp256k1 : Weierstrass where
  p := 0xfffffffffffffffffffffffffffffffffffffffffffffffffffffffefffffc2f
  a := 0
  b := 7
  order := 0xfffffffffffffffffffffffffffffffebaaedce6af48a03bbfd25e8cd0364141
  base := .finite 0x79be667ef9dcbbac55a06295ce870b07029bfcdb2dce28d959f2815b16f81798
    0x483ada7726a3c4655da4fbfc0e1108a8fd17b448a68554199c47d08ffb10d4b8

/-- The parameters of a curve with 906 finite points over the field of 967 elements. -/
def Weierstrass.toy : Weierstrass where
  p := 967
  a := 0
  b := 7
  order := 907
  base := .finite 1 88

/-- The production curve with the points of a library. -/
def PointLibrary.secp256k1 (L : PointLibrary) : CurveGroup :=
  L.group Weierstrass.secp256k1 "secp256k1"

def secp256k1 : CurveGroup := Weierstrass.secp256k1.jacobianLibrary.secp256k1

def toyCurve : CurveGroup := Weierstrass.toy.group "toy-967"

/-- Whether the generator is built from its coordinates again, and its greatest multiple below
the order is its negative. -/
def CurveGroup.selfTest (C : CurveGroup) : Bool :=
  match C.coordinates C.generator with
  | none => false
  | some (x, y) =>
    decide (C.ofCoordinates? x y = some C.generator ∧
      C.mulGenerator (C.order - 1) = C.negate C.generator)

/-- The production curve of a build, which may come without one. -/
inductive Backend
  | present (curve : CurveGroup)
  | absent

namespace Backend

/-- The backend of this library. -/
def standard : Backend := present secp256k1

/-- The production curve, if it passes its test, or the reason for its absence. -/
def curve : Backend → Except Error CurveGroup
  | present C =>
    if C.selfTest then .ok C else .error (.unavailable "secp256k1 self-test failed")
  | absent =>
    .error (.unavailable "secp256k1 backend not compiled in (enable the `secp256k1` feature)")

def isAvailable (B : Backend) : Bool := B.curve.toBool

end Backend

end BlindSchnorr

import BlindSchnorr.Arith.Modular
import BlindSchnorr.Curve.Group
import BlindSchnorr.Error

/-!
# Point codes

A finite point is written as its x-coordinate and the parity of its y-coordinate, or as
both coordinates. Reading goes in two stages: a byte string is first read as a code, which
no curve takes part in, and the code is then resolved to a point of a curve.

Resolving a compressed code looks for a y-coordinate at `x`, `x + 1`, … within a window,
but always builds the point at `x`. The window therefore changes which error is reported
and never which point is found.
-/
namespace BlindSchnorr

/-- The written form of a finite point. -/
inductive PointCode
  | compressed (odd : Bool) (x : Word)
  | uncompressed (x y : Word)
deriving DecidableEq, Repr

namespace PointCode

def compressedWidth : Nat := 33

def uncompressedWidth : Nat := 65

/-- The bytes of a code: a tag and one or two coordinates. -/
def bytes : PointCode → Bytes
  | compressed odd x => (if odd then 3 else 2) :: x.bytes
  | uncompressed x y => 4 :: (x.bytes ++ y.bytes)

def width : PointCode → Nat
  | compressed _ _ => compressedWidth
  | uncompressed _ _ => uncompressedWidth

@[simp] theorem length_bytes (c : PointCode) : c.bytes.length = c.width := by
  cases c with
  | compressed odd x => simp [bytes, width, compressedWidth, x.length_bytes]
  | uncompressed x y => simp [bytes, width, uncompressedWidth, x.length_bytes, y.length_bytes]

def parse : Bytes → Except PointError PointCode
  | [] => .error .empty
  | tag :: rest =>
    if tag = 2 ∨ tag = 3 then
      match Block.ofBytes? 32 rest with
      | some x => .ok (compressed (decide (tag = 3)) x)
      | none => .error (.wrongLength tag compressedWidth (rest.length + 1))
    else if tag = 4 then
      match Block.ofBytes? 32 (rest.take 32), Block.ofBytes? 32 (rest.drop 32) with
      | some x, some y => .ok (uncompressed x y)
      | _, _ => .error (.wrongLength tag uncompressedWidth (rest.length + 1))
    else .error (.unknownTag tag)

/-- Reading a written code gives it back. -/
@[simp] theorem parse_bytes (c : PointCode) : parse c.bytes = .ok c := by
  cases c with
  | compressed odd x => cases odd <;> simp [bytes, parse]
  | uncompressed x y =>
    have hx : (x.bytes ++ y.bytes).take 32 = x.bytes := List.take_left' x.length_bytes
    have hy : (x.bytes ++ y.bytes).drop 32 = y.bytes := List.drop_left' x.length_bytes
    simp [bytes, parse, hx, hy]

end PointCode

namespace CurveGroup

variable (C : CurveGroup)

/-- The y-coordinate of the given parity over the first of `window` successive
x-coordinates that has one. The search ends at the field prime. -/
def probe (odd : Bool) : (window x : Nat) → Option Nat
  | 0, _ => none
  | window + 1, x =>
    if x < C.fieldPrime then
      match Modular.sqrt? (C.rhs x) C.fieldPrime with
      | some r => some (if decide (r % 2 = 1) = odd then r else (C.fieldPrime - r) % C.fieldPrime)
      | none => probe odd window (x + 1)
    else none

def resolve (window : Nat) : PointCode → Except PointError C.Point
  | .compressed odd x =>
    match C.probe odd window x.toNat with
    | none => .error .noCurvePoint
    | some y => (C.ofCoordinates? x.toNat y).elim (.error .notOnCurve) .ok
  | .uncompressed x y => (C.ofCoordinates? x.toNat y.toNat).elim (.error .notOnCurve) .ok

/-- The point that a byte string encodes. -/
def decode (window : Nat) (b : Bytes) : Except PointError C.Point :=
  PointCode.parse b >>= C.resolve window

/-- The affine coordinates of a point that has to be finite. -/
def finite (P : C.Point) : Except PointError (Nat × Nat) :=
  (C.coordinates P).elim (.error .infinity) .ok

/-- The compressed code of a finite point. -/
def compress (P : C.Point) : Except PointError PointCode :=
  (C.finite P).map fun (x, y) => .compressed (decide (y % 2 = 1)) (Block.ofNat 32 x)

/-- The code of a finite point in either form. -/
def encode (P : C.Point) (compressed : Bool) : Except PointError PointCode :=
  if compressed then C.compress P
  else (C.finite P).map fun (x, y) => .uncompressed (Block.ofNat 32 x) (Block.ofNat 32 y)

end CurveGroup

end BlindSchnorr

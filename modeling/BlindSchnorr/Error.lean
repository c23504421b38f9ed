import BlindSchnorr.Encoding.Bytes

/-!
# Causes of failure

Every operation that can fail says why with a value of `Error`. The wording is in
`Error.message` alone.
-/
namespace BlindSchnorr

/-- The widths in bytes that an input may have. -/
inductive Widths
  | exactly (n : Nat)
  | either (m n : Nat)
deriving DecidableEq, Repr

namespace Widths

def Accepts : Widths → Nat → Prop
  | exactly n, k => k = n
  | either m n, k => k = m ∨ k = n

instance (w : Widths) (k : Nat) : Decidable (w.Accepts k) := by
  cases w <;> unfold Accepts <;> infer_instance

/-- The accepted widths in words. Of the single widths only those of a scalar and of a
signature are spelled out. -/
def text : Widths → String
  | exactly n => if n = 32 ∨ n = 64 then toString n else "fixed size"
  | either m n => toString m ++ " or " ++ toString n

end Widths

/-- Why a byte string is not a finite point of the curve, or a point has no code. -/
inductive PointError
  | empty
  | unknownTag (tag : UInt8)
  | wrongLength (tag : UInt8) (expected actual : Nat)
  | noCurvePoint
  | notOnCurve
  | infinity
deriving DecidableEq, Repr

inductive ConfigError
  | emptyWindow
  | wideWindow (window limit : Nat)
deriving DecidableEq, Repr

inductive Error
  | wrongLength (field : String) (expected : Widths) (actual : Nat)
  | outOfRange (field : String)
  | point (cause : PointError)
  | nonceSpent
  | verificationFailed
  | unavailable (reason : String)
  | unsupportedOrder (bits : Nat)
  | invalidModulus
  | degenerateBlinding
  | config (cause : ConfigError)
  | searchExhausted
deriving DecidableEq, Repr

/-- A byte in the form `0x2a`. -/
def hexLiteral (d : UInt8) : String := "0x" ++ Bytes.hex [d]

namespace PointError

def message (e : PointError) : String :=
  "Point decode failed: " ++ match e with
    | empty => "empty input"
    | unknownTag tag => "invalid prefix byte " ++ hexLiteral tag
    | wrongLength tag expected actual =>
      "prefix " ++ hexLiteral tag ++ " needs " ++ toString expected ++ " bytes, got " ++ toString actual
    | noCurvePoint => "no curve point for x-coordinate"
    | notOnCurve => "point is not on the curve"
    | infinity => "point at infinity"

end PointError

namespace ConfigError

def message : ConfigError → String
  | emptyWindow => "decompression_probe_window cannot be 0"
  | wideWindow window limit =>
    "decompression_probe_window must be at most " ++ toString limit ++ ", got " ++ toString window

end ConfigError

namespace Error

def message : Error → String
  | wrongLength field expected actual =>
    "Invalid " ++ field ++ " length: expected " ++ expected.text ++ ", got " ++ toString actual
  | outOfRange field => field ++ " out of range: must satisfy 0 < x < n"
  | point cause => cause.message
  | nonceSpent => "Blind signer nonce already consumed: a new session is required"
  | verificationFailed => "Blind signature verification failed"
  | unavailable reason => "Cryptographic capability unavailable: " ++ reason
  | unsupportedOrder bits =>
    "Nonce derivation requires a 256-bit group order, got " ++ toString bits ++ " bits"
  | invalidModulus => "Jacobi modulus must be odd and at least 3"
  | degenerateBlinding => "Degenerate blinding factors: retry with a fresh request"
  | config cause => "Invalid configuration: " ++ cause.message
  | searchExhausted => "Nonce derivation never ends: no candidate is in range"

end Error

/-- Refuses an input whose width is not among those accepted. -/
def expectWidth (field : String) (expected : Widths) (actual : Nat) : Except Error Unit :=
  if expected.Accepts actual then .ok () else .error (.wrongLength field expected actual)

end BlindSchnorr

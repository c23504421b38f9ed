import BlindSchnorr.Arith.Jacobi
import BlindSchnorr.Config
import BlindSchnorr.Encoding.Point
import BlindSchnorr.Hash.Nonce
import BlindSchnorr.Signature

/-!
# Signing and verifying

With private key `x`, public key `P = x * G` and nonce `k`, the nonce point `R = k * G`
gets a y-coordinate of Jacobi symbol `+1` by negating `k` where needed. The challenge `e`
is the digest of the x-coordinate of `R`, the compressed code of `P` and the message; the
signature is that x-coordinate and `k + e * x` modulo the order.

Verifying answers `false` to every well-formed signature that does not match, and fails
only on malformed input.
-/
namespace BlindSchnorr

/-- A signer and verifier on a curve. -/
structure Signer (C : CurveGroup) where
  hashes : HashSuite := HashSuite.sha256
  config : Config := {}
  config_valid : config.Valid := by decide

namespace CurveGroup

/-- The scalar of a private key of 32 bytes. -/
def privateKey (C : CurveGroup) (key : Bytes) : Except Error Nat := do
  expectWidth "private key" (.exactly 32) key.length
  if Scalar.InRange (Bytes.toNat key) C.order then .ok (Bytes.toNat key)
  else .error (.outOfRange "private key")

end CurveGroup

namespace Signer

variable {C : CurveGroup}

/-- A signer with a configuration of its own, if that is valid. -/
def withConfig (C : CurveGroup) (config : Config) : Except Error (Signer C) :=
  match h : config.validate with
  | .ok () => .ok { config := config, config_valid := (config.validate_eq_ok_iff).1 h }
  | .error e => .error e

/-- The challenge to a nonce point, a public key and a message, as a number of 256 bits. -/
def challenge (S : Signer C) (rx : Word) (key : PointCode) (message : Bytes) : Nat :=
  (S.hashes.hash (rx.bytes ++ key.bytes ++ message)).toNat

/-- The point that a byte string encodes, probed as the configuration says. -/
def decode (S : Signer C) (b : Bytes) : Except Error C.Point :=
  (C.decode S.config.probeWindow b).mapError .point

def publicKey (_S : Signer C) (key : Bytes) (compressed : Bool) : Except Error PointCode := do
  let x ← C.privateKey key
  (C.encode (C.mulGenerator x) compressed).mapError .point

/-- The signature of a message under a private scalar and a nonce. -/
def signWith (S : Signer C) (x k : Nat) (message : Bytes) : Except Error Signature := do
  let key ← (C.compress (C.mulGenerator x)).mapError .point
  let (rx, ry) ← (C.finite (C.mulGenerator k)).mapError .point
  let symbol ← Jacobi.symbol ry C.fieldPrime
  let k := if symbol = -1 then C.order - k else k
  let r := Block.ofNat 32 rx
  .ok ⟨r, Block.ofNat 32 ((k + S.challenge r key message * x) % C.order)⟩

/-- The signature of a message digest under a private key, its nonce derived from both. -/
def sign (S : Signer C) (key message : Bytes) : Except Error Signature := do
  expectWidth "private key" (.exactly 32) key.length
  expectWidth "message digest" (.exactly 32) message.length
  let x ← C.privateKey key
  let k ← Nonce.derive S.hashes C.order
    { privateKey := key, message := message, tag := Nonce.schnorrTag }
  S.signWith x k message

/-- Whether a signature of a message matches a public key given as a point. -/
def check (S : Signer C) (P : C.Point) (σ : Signature) (message : Bytes) : Except Error Bool :=
  if C.order ≤ σ.s.toNat then .ok false
  else do
    let key ← (C.compress P).mapError .point
    let e := S.challenge σ.r key message
    match C.coordinates (C.add (C.mulGenerator σ.s.toNat) (C.negate (C.scalarMul e P))) with
    | none => .ok false
    | some (x, y) =>
      let symbol ← Jacobi.symbol y C.fieldPrime
      .ok (decide (symbol = 1 ∧ Block.ofNat 32 x = σ.r))

def verify (S : Signer C) (key signature message : Bytes) : Except Error Bool := do
  expectWidth "public key" (.either PointCode.compressedWidth PointCode.uncompressedWidth) key.length
  let σ ← Signature.ofBytes signature
  expectWidth "message digest" (.exactly 32) message.length
  let P ← S.decode key
  S.check P σ message

end Signer

end BlindSchnorr

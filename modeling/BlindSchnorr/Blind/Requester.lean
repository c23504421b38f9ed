import BlindSchnorr.Arith.Scalar
import BlindSchnorr.Signer

/-!
# Blind signing: the requester's side

Against the signer's key `P` and commitment `R` the requester draws `α` and `β` and moves
to the nonce point `R' = R + α * G + β * P`. With `c` the Jacobi symbol of its y-coordinate
and `e₀` the challenge of the plain scheme, the request is `c * e₀ + β`, and a response `s`
unblinds to the signature with scalar `c * (s + α)`.
-/
namespace BlindSchnorr

/-- What a request is made from: a message and the signer's key and commitment. -/
structure Terms (C : CurveGroup) where
  signer : Signer C
  publicKey : Bytes
  message : Word
  key : C.Point
  commitment : C.Point

structure Requester (C : CurveGroup) where
  signer : Signer C
  publicKey : Bytes
  message : Word
  alpha : Word
  negated : Bool
  rx : Word
  request : Word

def messageDigest (message : Bytes) : Except Error Word :=
  match Block.ofBytes? 32 message with
  | some m => .ok m
  | none => .error (.wrongLength "message digest" (.exactly 32) message.length)

namespace Terms

variable {C : CurveGroup}

/-- Reads the message, the key and the commitment, in this order. -/
def read (S : Signer C) (publicKey commitment message : Bytes) : Except Error (Terms C) := do
  let m ← messageDigest message
  let P ← S.decode publicKey
  let R ← S.decode commitment
  .ok ⟨S, publicKey, m, P, R⟩

/-- The nonce point that two blinding factors lead to. -/
def blindedNonce (t : Terms C) (α β : Nat) : C.Point :=
  C.add (C.add t.commitment (C.mulGenerator α)) (C.scalarMul β t.key)

/-- The request that two blinding factors make. Factors that lead to the identity or to a
point of Jacobi symbol zero are degenerate. -/
def blind (t : Terms C) (α β : Nat) : Except Error (Requester C) :=
  match C.coordinates (t.blindedNonce α β) with
  | none => .error .degenerateBlinding
  | some (x, y) => do
    let symbol ← Jacobi.symbol y C.fieldPrime
    if symbol ≠ 1 ∧ symbol ≠ -1 then .error .degenerateBlinding
    else do
      let negated := decide (symbol = -1)
      let rx := Block.ofNat 32 x
      let key ← (C.compress t.key).mapError .point
      let e₀ := t.signer.challenge rx key t.message.bytes % C.order
      let e := ((if negated then C.order - e₀ else e₀) + β) % C.order
      .ok ⟨t.signer, t.publicKey, t.message, Block.ofNat 32 α, negated, rx, Block.ofNat 32 e⟩

end Terms

namespace Requester

variable {C : CurveGroup}

/-- A request with blinding factors drawn at random. Nothing is drawn for input that cannot
be read. -/
def start (S : Signer C) (publicKey commitment message : Bytes) :
    Draw (Except Error (Requester C)) :=
  match Terms.read S publicKey commitment message with
  | .error e => pure (.error e)
  | .ok t => do
    let α ← Scalar.draw C.order
    let β ← Scalar.draw C.order
    pure (t.blind α β)

def unblind (q : Requester C) (response : Nat) : Signature :=
  let sum := (response + q.alpha.toNat) % C.order
  ⟨q.rx, Block.ofNat 32 (if q.negated then (C.order - sum) % C.order else sum)⟩

/-- The signature that the bytes of a response unblind to. With `check` it has to verify. -/
def finalize (q : Requester C) (response : Bytes) (check : Bool) : Except Error Signature := do
  expectWidth "partial signature" (.exactly 32) response.length
  let σ := q.unblind (Bytes.toNat response)
  if check then
    if ← q.signer.verify q.publicKey σ.bytes q.message.bytes then .ok σ
    else .error .verificationFailed
  else .ok σ

end Requester

end BlindSchnorr

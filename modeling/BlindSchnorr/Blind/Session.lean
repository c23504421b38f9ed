import BlindSchnorr.Arith.Scalar
import BlindSchnorr.Signer

/-!
# Blind signing: the signer's side

A session holds a secret nonce behind its public commitment and answers one challenge with
it. Two answers under one nonce would give the private key away, so the answer is made in
three steps of which the middle one empties the nonce cell: the call is checked, the nonce
is taken, the response is computed. A malformed call stops at the first step and leaves the
nonce where it is.
-/
namespace BlindSchnorr

/-- A checked call: the private scalar and the challenge to answer. -/
structure Query where
  secret : Nat
  challenge : Nat
deriving DecidableEq, Repr

namespace Query

/-- Reads the private key and the challenge of a call. -/
def read (C : CurveGroup) (key challenge : Bytes) : Except Error Query := do
  expectWidth "private key" (.exactly 32) key.length
  expectWidth "challenge" (.exactly 32) challenge.length
  let x ← C.privateKey key
  .ok ⟨x, Bytes.toNat challenge⟩

def respond (C : CurveGroup) (q : Query) (nonce : Word) : Word :=
  Block.ofNat 32 ((nonce.toNat + q.challenge * q.secret) % C.order)

end Query

structure Session where
  commitment : PointCode
  nonce : Option Word
deriving DecidableEq, Repr

namespace Session

def ofNonce (C : CurveGroup) (k : Nat) : Except Error Session := do
  let commitment ← (C.compress (C.mulGenerator k)).mapError .point
  .ok ⟨commitment, some (Block.ofNat 32 k)⟩

/-- A session with a nonce drawn at random. -/
def start (C : CurveGroup) : Draw (Except Error Session) := do
  let k ← Scalar.draw C.order
  pure (ofNonce C k)

def isConsumed (s : Session) : Bool := s.nonce.isNone

/-- The content of the nonce cell, and the session with the cell emptied. -/
def take (s : Session) : Option Word × Session := (s.nonce, { s with nonce := none })

/-- The answer to a call, and the session after it. -/
def sign (C : CurveGroup) (s : Session) (key challenge : Bytes) : Except Error Word × Session :=
  match Query.read C key challenge with
  | .error e => (.error e, s)
  | .ok q =>
    match s.take with
    | (none, s) => (.error .nonceSpent, s)
    | (some nonce, s) => (.ok (q.respond C nonce), s)

end Session

end BlindSchnorr

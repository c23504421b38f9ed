import BlindSchnorr.Service

/-!
# A complete exchange

Both parties of a blind signature in one run, on one tape of random bytes. The plan says
with which key the signer answers and how the response is altered on its way, so a
dishonest signer and a disturbed line can be played through as well.
-/
namespace BlindSchnorr

namespace Exchange

/-- Which configuration the requester works with. -/
inductive Route
  | standalone
  | service
deriving DecidableEq, Repr

structure Plan where
  privateKey : Bytes
  signingKey : Bytes
  message : Bytes
  compressed : Bool
  config : Config := {}
  route : Route := .service
  tamper : UInt8 := 0

/-- What a finished signature shows: whether neither its nonce coordinate nor its scalar is
one that the signer saw, and whether it verifies. -/
structure Finish where
  unlinked : Bool
  valid : Bool
deriving DecidableEq, Repr

structure Record where
  commitment : PointCode
  request : Word
  consumedBefore : Bool
  consumedAfter : Bool
  second : Except Error Word
  final : Except Error Finish

/-- A response with a mask combined into its last byte. -/
def disturb (response : Word) (mask : UInt8) : Bytes :=
  response.bytes.dropLast ++ (response.bytes.getLast?.map (· ^^^ mask)).toList

def xOf : PointCode → Word
  | .compressed _ x => x
  | .uncompressed x _ => x

def finish {C : CurveGroup} (V : Service C) (plan : Plan) (publicKey : Bytes) (s : Session)
    (q : Requester C) (response : Bytes) : Except Error Finish := do
  let σ ← V.finalize q response
  let valid ← V.verify publicKey σ.bytes plan.message
  .ok ⟨decide (σ.r ≠ xOf s.commitment ∧ σ.s.bytes ≠ response), valid⟩

/-- The steps after both parties have opened: an answer, a second one, and the signature. -/
def close {C : CurveGroup} (V : Service C) (plan : Plan) (publicKey : Bytes) (s : Session)
    (q : Requester C) : Except Error Record :=
  match s.sign C plan.signingKey q.request.bytes with
  | (.error e, _) => .error e
  | (.ok response, after) =>
    .ok {
      commitment := s.commitment
      request := q.request
      consumedBefore := s.isConsumed
      consumedAfter := after.isConsumed
      second := (after.sign C plan.signingKey q.request.bytes).1
      final := finish V plan publicKey s q (disturb response plan.tamper) }

/-- A whole exchange on a curve. A standalone requester decodes with the default
configuration. -/
def run (C : CurveGroup) (plan : Plan) : Draw (Except Error Record) :=
  match Service.withConfig C plan.config with
  | .error e => pure (.error e)
  | .ok V =>
    match V.publicKey plan.privateKey plan.compressed with
    | .error e => pure (.error e)
    | .ok publicKey => do
      match ← V.openSession with
      | .error e => pure (.error e)
      | .ok s =>
        let S : Signer C := match plan.route with
          | .standalone => {}
          | .service => V.signer
        match ← Requester.start S publicKey.bytes s.commitment.bytes plan.message with
        | .error e => pure (.error e)
        | .ok q => pure (close V plan publicKey.bytes s q)

end Exchange

end BlindSchnorr
